import QService.Host
import QService.Framing

/-!
# The TCP frame parser

`CTcpParser` frames a message with a head of one, three or `1 + sizeof(size_t)`
bytes: the length itself up to 125, or the flag 126 and two length bytes, or
the flag 127 and a whole `size_t` whose first four bytes are the length in
network order. The parser reads the long head with one width (it asks for
`1 + sizeof(unsigned int)` bytes) and skips it with another.

`parsePack_frame` and `parsePack_part` are the two facts a reader of a stream
needs: a complete frame at the front of the buffer is parsed to its message,
and a proper part of a frame is refused.
-/

namespace TcpParser

open ByteOrder EventBuffer

/-- What a successful `parsePack` leaves behind: the returned message with
`getBufLens` and `getParsedLens`. -/
structure Pack where
  parsedLens : ℕ
  bufLens : ℕ
  msg : List UInt8
  deriving DecidableEq, Repr

/-- `CTcpParser::parseHead`, giving `m_iHeadLens` and `m_iBufLens`. The host is
little-endian with signed `char`. With eight-byte `size_t` the 127 branch
loads four bytes more than it asked for, which come from `stray`, the memory
after the bytes pulled up; `ntohl` keeps the low 32 bits of the load. -/
def parseHead (w : Width) (stray buf : List UInt8) : Option (ℕ × ℕ) :=
  match readBuffer buf 1 with
  | none => none
  | some pHead =>
    let cFlag := signedChar (pHead.headD 0)
    if cFlag ≤ 125 then
      some (1, w.toSize cFlag)
    else if cFlag = 126 then
      if buf.length < 3 then none
      else
        match readBuffer buf 3 with
        | none => none
        | some pHead => some (3, ntoh .little 2 (load .little ((pHead.drop 1).take 2)))
    else if cFlag = 127 then
      if buf.length < 5 then none
      else
        match readBuffer buf 5 with
        | none => none
        | some pHead =>
          some (1 + w.bytes,
            ntoh .little 4 (load .little (((pHead ++ stray).drop 1).take w.bytes)))
    else none

/-- `CTcpParser::parsePack`. `size_t` sums wrap. -/
def parsePack (w : Width) (stray buf : List UInt8) : Option Pack :=
  if buf.length = 0 then none
  else
    match parseHead w stray buf with
    | none => none
    | some (headLens, bufLens) =>
      let needReadLens := (headLens + bufLens) % w.modulus
      if buf.length < needReadLens then none
      else if bufLens = 0 then some ⟨headLens, 0, []⟩
      else
        match readBuffer buf needReadLens with
        | none => none
        | some _ => some ⟨needReadLens, bufLens, (buf.drop headLens).take bufLens⟩

/-- `CTcpParser::createHead`: the bytes it copies from `m_acHead` on. A long head of a
64-bit build has nine bytes and runs over the end of `m_acHead` (`HeadFits`). -/
def createHead (w : Width) (iLens : ℕ) : List UInt8 :=
  if iLens ≤ 125 then [UInt8.ofNat iLens]
  else if iLens ≤ 0xFFFF then 126 :: store .little 2 (ntoh .little 2 iLens)
  else 127 :: store .little w.bytes (ntoh .little 4 iLens)

/-- The bytes a message takes on the wire: what `sendTcp` writes for it. -/
def frame (w : Width) (msg : List UInt8) : List UInt8 := createHead w msg.length ++ msg

theorem createHead_ne_nil (w : Width) (iLens : ℕ) : createHead w iLens ≠ [] := by
  unfold createHead
  split_ifs <;> exact List.cons_ne_nil _ _

/-- TCP frames as a frame code. -/
def code (w : Width) : FrameCode (List UInt8) UInt8 where
  enc := frame w
  enc_ne_nil msg := List.append_ne_nil_of_left_ne_nil (createHead_ne_nil w _) msg

/-! ## The head -/

/-- The number of bytes `parseHead` asks for to read a head for `iLens`. -/
def headNeed (iLens : ℕ) : ℕ :=
  if iLens ≤ 125 then 1 else if iLens ≤ 0xFFFF then 3 else 5

/-- The part of a head that `parseHead` reads: it does not depend on the width. -/
def headRead (iLens : ℕ) : List UInt8 :=
  if iLens ≤ 125 then [UInt8.ofNat iLens]
  else if iLens ≤ 0xFFFF then 126 :: beBytes 2 iLens
  else 127 :: beBytes 4 iLens

theorem length_headRead (iLens : ℕ) : (headRead iLens).length = headNeed iLens := by
  unfold headRead headNeed
  split_ifs <;> simp

/-- A head is what `parseHead` reads of it, and then zeros: none, or the upper
half of an eight-byte `size_t`. -/
theorem createHead_eq (w : Width) (iLens : ℕ) :
    ∃ k, createHead w iLens = headRead iLens ++ List.replicate k 0 := by
  unfold createHead headRead
  split_ifs with h₁ h₂
  · exact ⟨0, rfl⟩
  · exact ⟨0, by rw [store_ntoh, List.replicate_zero, List.append_nil]⟩
  · obtain ⟨k, hk⟩ := Nat.exists_eq_add_of_le w.four_le_bytes
    refine ⟨k, ?_⟩
    rw [hk, List.cons_append]
    refine congrArg (127 :: ·) ?_
    show leBytes (4 + k) _ = _
    rw [leBytes_add 4 k _ (ntoh_lt .little 4 iLens)]
    exact congrArg (· ++ _) (store_ntoh .little 4 iLens)

theorem headNeed_le_length (w : Width) (iLens : ℕ) :
    headNeed iLens ≤ (createHead w iLens).length := by
  obtain ⟨k, hk⟩ := createHead_eq w iLens
  rw [hk, List.length_append, length_headRead]
  exact Nat.le_add_right _ _

theorem signedChar_ofNat {n : ℕ} (h : n < 128) : signedChar (UInt8.ofNat n) = n := by
  have hn : (UInt8.ofNat n).toNat = n := by
    rw [UInt8.toNat_ofNat']
    omega
  rw [signedChar, hn, if_pos h]

/-! The three shapes a head can have, by its first byte. -/

theorem parseHead_short (w : Width) (stray : List UInt8) {b : UInt8} (t : List UInt8)
    (h : signedChar b ≤ 125) :
    parseHead w stray (b :: t) = some (1, w.toSize (signedChar b)) := by
  unfold parseHead
  rw [readBuffer_of_le Nat.one_ne_zero (by simp)]
  exact if_pos h

theorem parseHead_126 (w : Width) (stray t : List UInt8) :
    parseHead w stray (126 :: t)
      = if t.length < 2 then none else some (3, ofBE (t.take 2)) := by
  unfold parseHead
  rw [readBuffer_of_le Nat.one_ne_zero (by simp)]
  show (if (126 :: t).length < 3 then none else _) = _
  rw [List.length_cons]
  by_cases ht : t.length < 2
  · rw [if_pos (by omega), if_pos ht]
  · rw [if_neg (by omega), if_neg ht, readBuffer_of_le (by omega) (by simp; omega)]
    have hval := ntoh_load .little (t.take 2)
    rw [List.length_take, min_eq_left (by omega)] at hval
    show some (3, ntoh .little 2 (load .little ((t.take 2).take 2))) = _
    rw [List.take_take, min_self, hval]

theorem parseHead_127 (w : Width) (stray t : List UInt8) :
    parseHead w stray (127 :: t)
      = if t.length < 4 then none else some (1 + w.bytes, ofBE (t.take 4)) := by
  unfold parseHead
  rw [readBuffer_of_le Nat.one_ne_zero (by simp)]
  show (if (127 :: t).length < 5 then none else _) = _
  rw [List.length_cons]
  by_cases ht : t.length < 4
  · rw [if_pos (by omega), if_pos ht]
  · rw [if_neg (by omega), if_neg ht, readBuffer_of_le (by omega) (by simp; omega)]
    -- the stray bytes are above the four that the conversion keeps
    have hfour : ((t.take 4 ++ stray).take w.bytes).take 4 = t.take 4 := by
      rw [List.take_take, min_eq_left w.four_le_bytes,
        List.take_append_of_le_length (by rw [List.length_take]; omega), List.take_take,
        min_self]
    have hlow := leBytes_ofLE_take 4 ((t.take 4 ++ stray).take w.bytes) (by
      have hw := w.four_le_bytes
      rw [List.length_take, List.length_append, List.length_take]
      omega)
    show some (1 + w.bytes, ofLE (leBytes 4 (ofLE ((t.take 4 ++ stray).take w.bytes))).reverse)
      = _
    rw [hlow, hfour, ofBE]

theorem take_beBytes_append (n v : ℕ) (tail : List UInt8) :
    (beBytes n v ++ tail).take n = beBytes n v := by
  rw [List.take_append_of_le_length (by simp), List.take_of_length_le (by simp)]

/-- **`parseHead` reads every head back**, from its first bytes alone. -/
theorem parseHead_headRead (w : Width) (stray : List UInt8) {iLens : ℕ}
    (h : iLens < 2 ^ 32) (tail : List UInt8) :
    parseHead w stray (headRead iLens ++ tail)
      = some ((createHead w iLens).length, iLens) := by
  unfold headRead createHead
  by_cases h₁ : iLens ≤ 125
  · have hc := signedChar_ofNat (show iLens < 128 by omega)
    rw [if_pos h₁, if_pos h₁, List.singleton_append,
      parseHead_short w stray tail (by rw [hc]; omega), hc, w.toSize_natCast h]
    rfl
  · rw [if_neg h₁, if_neg h₁]
    by_cases h₂ : iLens ≤ 0xFFFF
    · rw [if_pos h₂, if_pos h₂, List.cons_append, parseHead_126,
        if_neg (by rw [List.length_append, length_beBytes]; omega), take_beBytes_append,
        ofBE_beBytes, Nat.mod_eq_of_lt (by omega)]
      simp
    · rw [if_neg h₂, if_neg h₂, List.cons_append, parseHead_127,
        if_neg (by rw [List.length_append, length_beBytes]; omega), take_beBytes_append,
        ofBE_beBytes, Nat.mod_eq_of_lt (by omega)]
      simp [add_comm]

/-- **`parseHead` refuses a head it has not got all of.** -/
theorem parseHead_part (w : Width) (stray : List UInt8) {iLens : ℕ} {p : List UInt8}
    (hp : p <+: headRead iLens) (hlen : p.length < headNeed iLens) :
    parseHead w stray p = none := by
  cases p with
  | nil => rfl
  | cons b t =>
    unfold headRead at hp
    unfold headNeed at hlen
    rw [List.length_cons] at hlen
    split_ifs at hp hlen with h₁ h₂
    · omega
    · obtain ⟨rfl, -⟩ := List.cons_prefix_cons.mp hp
      rw [parseHead_126, if_pos (by omega)]
    · obtain ⟨rfl, -⟩ := List.cons_prefix_cons.mp hp
      rw [parseHead_127, if_pos (by omega)]

/-! ## The frame -/

theorem headRead_prefix_frame (w : Width) (msg : List UInt8) :
    headRead msg.length <+: frame w msg := by
  obtain ⟨k, hk⟩ := createHead_eq w msg.length
  rw [frame, hk, List.append_assoc]
  exact List.prefix_append _ _

/-- Once the head is read, a message is given as soon as all its bytes are
there, and not before. -/
theorem parsePack_of_head (w : Width) (stray : List UInt8) {buf : List UInt8}
    {headLens bufLens : ℕ} (hne : buf ≠ [])
    (hhead : parseHead w stray buf = some (headLens, bufLens))
    (h₀ : 0 < headLens) (hsum : headLens + bufLens < w.modulus) :
    parsePack w stray buf
      = if buf.length < headLens + bufLens then none
        else some ⟨headLens + bufLens, bufLens, (buf.drop headLens).take bufLens⟩ := by
  unfold parsePack
  rw [if_neg (by simpa using hne), hhead]
  simp only [Nat.mod_eq_of_lt hsum]
  split_ifs with hlen hz
  · rfl
  · subst hz
    simp
  · rw [readBuffer_of_le (by omega) (by omega)]

theorem length_frame (w : Width) (msg : List UInt8) :
    (frame w msg).length = (createHead w msg.length).length + msg.length :=
  List.length_append

theorem headNeed_pos (iLens : ℕ) : 0 < headNeed iLens := by
  unfold headNeed
  split_ifs <;> omega

/-- **Once what `parseHead` reads is there, only the length decides**: for a
buffer that starts with the readable part of the head of `msg`. -/
theorem parsePack_headRead (w : Width) (stray msg tail : List UInt8)
    (h : (frame w msg).length < 2 ^ 32) :
    parsePack w stray (headRead msg.length ++ tail)
      = if (headRead msg.length ++ tail).length < (frame w msg).length then none
        else some ⟨(frame w msg).length, msg.length,
          ((headRead msg.length ++ tail).drop (createHead w msg.length).length).take
            msg.length⟩ := by
  have hlen := length_frame w msg
  have hneed := headNeed_le_length w msg.length
  have hpos := headNeed_pos msg.length
  have hne : headRead msg.length ++ tail ≠ [] := by
    refine List.append_ne_nil_of_left_ne_nil (List.length_pos_iff.mp ?_) tail
    rw [length_headRead]
    exact hpos
  rw [parsePack_of_head w stray hne (parseHead_headRead w stray (by omega) tail)
    (by omega) (w.lt_modulus (by omega)), hlen]

/-- **A complete frame is parsed to its message**, whatever follows it. -/
theorem parsePack_frame (w : Width) (stray msg rest : List UInt8)
    (h : (frame w msg).length < 2 ^ 32) :
    parsePack w stray (frame w msg ++ rest)
      = some ⟨(frame w msg).length, msg.length, msg⟩ := by
  obtain ⟨tail, htail⟩ := headRead_prefix_frame w msg
  have hsplit : frame w msg ++ rest = headRead msg.length ++ (tail ++ rest) := by
    rw [← htail, List.append_assoc]
  rw [hsplit, parsePack_headRead w stray msg _ h, ← hsplit,
    if_neg (by rw [List.length_append]; omega)]
  simp [frame]

/-- **A proper part of a frame is refused.** -/
theorem parsePack_part (w : Width) (stray msg : List UInt8) {p : List UInt8}
    (h : (frame w msg).length < 2 ^ 32) (hp : p <+: frame w msg)
    (hne : p ≠ frame w msg) : parsePack w stray p = none := by
  have hshort : p.length < (frame w msg).length :=
    lt_of_le_of_ne hp.length_le (fun he => hne (hp.eq_of_length he))
  have hread := headRead_prefix_frame w msg
  by_cases hneed : p.length < headNeed msg.length
  · have hin : p <+: headRead msg.length :=
      List.prefix_of_prefix_length_le hp hread (by rw [length_headRead]; omega)
    unfold parsePack
    rw [parseHead_part w stray hin hneed]
    exact ite_self none
  · obtain ⟨tail, rfl⟩ : headRead msg.length <+: p :=
      List.prefix_of_prefix_length_le hread hp (by rw [length_headRead]; omega)
    rw [parsePack_headRead w stray msg tail h, if_pos hshort]

/-- A head that is given is not empty, and at most a flag and a `size_t`. -/
theorem parseHead_headLens (w : Width) (stray : List UInt8) {buf : List UInt8}
    {headLens bufLens : ℕ} (h : parseHead w stray buf = some (headLens, bufLens)) :
    0 < headLens ∧ headLens ≤ 9 := by
  have hw : w.bytes ≤ 8 := by cases w <;> decide
  unfold parseHead at h
  split at h
  · cases h
  · dsimp only at h
    split_ifs at h
    · cases h
      omega
    · split at h <;> cases h
      omega
    · split at h <;> cases h
      omega

/-- What is given comes from a head, and its bytes are there. -/
theorem parsePack_eq_some {w : Width} {stray buf : List UInt8} {pack : Pack}
    (h : parsePack w stray buf = some pack) :
    ∃ headLens, parseHead w stray buf = some (headLens, pack.bufLens)
      ∧ pack.parsedLens = (headLens + pack.bufLens) % w.modulus
      ∧ pack.parsedLens ≤ buf.length := by
  unfold parsePack at h
  split_ifs at h
  cases hhead : parseHead w stray buf with
  | none =>
    rw [hhead] at h
    cases h
  | some head =>
    obtain ⟨headLens, bufLens⟩ := head
    have hle := (parseHead_headLens w stray hhead).2
    have hm := w.two_pow_le_modulus
    rw [hhead] at h
    dsimp only at h
    split_ifs at h with hneed hz
    · cases h
      have hmod : (headLens + 0) % w.modulus = headLens := Nat.mod_eq_of_lt (by omega)
      rw [hz, hmod] at hneed
      exact ⟨headLens, by rw [hz], hmod.symm, not_lt.mp hneed⟩
    · split at h
      · cases h
      · cases h
        exact ⟨headLens, rfl, rfl, not_lt.mp hneed⟩

/-- A message that is given has bytes to drop, and they are there. -/
theorem parsePack_parsedLens (w : Width) (stray : List UInt8) {buf : List UInt8} {pack : Pack}
    (h : parsePack w stray buf = some pack) :
    0 < pack.parsedLens ∧ 0 < buf.length := by
  unfold parsePack at h
  split_ifs at h with h₀
  refine ⟨?_, by omega⟩
  cases hhead : parseHead w stray buf with
  | none =>
    rw [hhead] at h
    cases h
  | some head =>
    obtain ⟨headLens, bufLens⟩ := head
    have hpos := (parseHead_headLens w stray hhead).1
    rw [hhead] at h
    dsimp only at h
    split_ifs at h
    · cases h
      exact hpos
    · split at h
      · cases h
      · rename_i hread
        cases h
        exact Nat.pos_of_ne_zero (readBuffer_eq_some hread).1

/-! ## Peers of different width -/

/-- `TCP_HRAD_MAXLENS`, the size of `m_acHead`. -/
def tcpHradMaxLens : ℕ := 5

/-- `createHead` for a message of this length writes to `m_acHead` only, and not to what is
behind the parser. -/
def HeadFits (w : Width) (iLens : ℕ) : Prop := (createHead w iLens).length ≤ tcpHradMaxLens

instance (w : Width) (iLens : ℕ) : Decidable (HeadFits w iLens) :=
  inferInstanceAs (Decidable (_ ≤ _))

/-- **Messages of this length travel between any two builds**: the head fits
`m_acHead`, its bytes do not depend on the width of `size_t`, and a frame
built with either width is parsed with either width to its message. -/
def Portable (iLens : ℕ) : Prop :=
  (∀ w, (createHead w iLens).length ≤ tcpHradMaxLens)
    ∧ (∀ w w', createHead w iLens = createHead w' iLens)
    ∧ ∀ (w w' : Width) (stray msg rest : List UInt8), msg.length = iLens →
      parsePack w' stray (frame w msg ++ rest) = some ⟨(frame w msg).length, iLens, msg⟩

/-- The two short forms of a head do not mention the width. -/
theorem createHead_short (w : Width) {iLens : ℕ} (h : iLens ≤ 0xFFFF) :
    createHead w iLens = headRead iLens := by
  unfold createHead headRead
  by_cases h₁ : iLens ≤ 125
  · rw [if_pos h₁, if_pos h₁]
  · rw [if_neg h₁, if_neg h₁, if_pos h, if_pos h, store_ntoh]

/-- The long form takes a whole `size_t` after the flag. -/
theorem length_createHead_long (w : Width) {iLens : ℕ} (h : 0xFFFF < iLens) :
    (createHead w iLens).length = 1 + w.bytes := by
  unfold createHead
  rw [if_neg (by omega), if_neg (by omega), List.length_cons, length_store, add_comm]

/-- **A head fits `m_acHead`** on a 32-bit build, and on a 64-bit build if it is a short
one. -/
theorem headFits_iff (w : Width) (iLens : ℕ) :
    HeadFits w iLens ↔ (w = .bits64 → iLens ≤ 0xFFFF) := by
  unfold HeadFits
  by_cases h : iLens ≤ 0xFFFF
  · refine iff_of_true ?_ fun _ => h
    rw [createHead_short w h, length_headRead, headNeed, tcpHradMaxLens]
    split_ifs <;> omega
  · rw [length_createHead_long w (by omega)]
    cases w <;> simp [Width.bytes, tcpHradMaxLens, h]

/-- **A length is portable if and only if it has one of the two short heads.** -/
theorem portable_iff (iLens : ℕ) : Portable iLens ↔ iLens ≤ 0xFFFF := by
  constructor
  · rintro ⟨hfits, -, -⟩
    by_contra hlong
    -- the eight-byte build copies nine bytes into the five of `m_acHead`
    have hlen := hfits .bits64
    rw [length_createHead_long .bits64 (by omega)] at hlen
    exact absurd hlen (by decide)
  · intro h
    refine ⟨fun w => ?_, fun w w' => ?_, fun w w' stray msg rest hmsg => ?_⟩
    · exact (headFits_iff w iLens).mpr fun _ => h
    · rw [createHead_short w h, createHead_short w' h]
    · have hframe : frame w msg = frame w' msg := by
        rw [frame, frame, createHead_short w (hmsg ▸ h), createHead_short w' (hmsg ▸ h)]
      have hneed : headNeed msg.length ≤ 5 := by
        unfold headNeed
        split_ifs <;> omega
      have hlen : (frame w' msg).length < 2 ^ 32 := by
        rw [length_frame, createHead_short w' (hmsg ▸ h), length_headRead]
        omega
      rw [hframe, parsePack_frame w' stray msg rest hlen, hmsg]

/-- **A message of 65536 bytes**: its head is nine bytes on a 64-bit build and five
on a 32-bit one. -/
theorem not_portable_65536 :
    (createHead .bits64 65536).length = 9 ∧ createHead .bits32 65536 = [127, 0, 1, 0, 0]
      ∧ createHead .bits64 65536 = [127, 0, 1, 0, 0, 0, 0, 0, 0] ∧ ¬ Portable 65536 := by
  refine ⟨by decide, by decide, by decide, fun h => ?_⟩
  exact absurd (h.1 .bits64) (by decide)

end TcpParser
