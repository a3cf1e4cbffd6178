import QService.TcpParser
import QService.WebSockParser

/-!
# The parsers and the end of the buffer

Both parsers add the length of the head and the length the peer has written
into it, in `size_t`, and compare the sum with the number of bytes there are.
If the sum wraps, what they compare is a small number, and the message they
give is said to be longer than the buffer: `parsePack` of the WebSocket parser
has then xored the memory behind it.

A sum wraps only at the top of the range of `size_t`. For the WebSocket parser
with eight bytes these are the last 13 lengths (`WebSockParser.Wraps`), for
the TCP parser with four bytes the last four (`TcpParser.Wraps`). With eight
bytes the TCP parser reads lengths of four bytes only, and its sum never wraps.
For every other content of the buffer the parsers stay inside it
(`WebSockParser.frame_staysInside_iff`, `TcpParser.message_staysInside_iff`).
-/

/-! ## TCP -/

namespace TcpParser

open ByteOrder EventBuffer

/-- A message that is given lies in the buffer, behind its head, and
`getParsedLens` is the length of both. -/
def StaysInside (w : Width) (stray buf : List UInt8) : Prop :=
  ∀ pack, parsePack w stray buf = some pack →
    ∃ headLens, parseHead w stray buf = some (headLens, pack.bufLens)
      ∧ headLens + pack.bufLens ≤ buf.length
      ∧ pack.parsedLens = headLens + pack.bufLens
      ∧ pack.msg = (buf.drop headLens).take pack.bufLens

/-- The long head has a length of which the sum wraps, but not to zero, which
`evbuffer_pullup` refuses. -/
def Wraps (w : Width) (buf : List UInt8) : Prop :=
  w = .bits32 ∧ ∃ t, buf = 127 :: t ∧ 4 ≤ t.length ∧ 2 ^ 32 - 5 < ofBE (t.take 4)

/-- The three ways in which a head is read, with the lengths that can come
of them. -/
theorem parseHead_cases {w : Width} {stray buf : List UInt8} {headLens bufLens : ℕ}
    (h : parseHead w stray buf = some (headLens, bufLens)) :
    (headLens = 1 ∧ bufLens < w.modulus) ∨ (headLens = 3 ∧ bufLens < 2 ^ 16)
      ∨ (headLens = 1 + w.bytes
        ∧ ∃ t, buf = 127 :: t ∧ 4 ≤ t.length ∧ bufLens = ofBE (t.take 4)) := by
  match buf with
  | [] => exact absurd h (by simp [parseHead, readBuffer])
  | b :: t =>
    by_cases hshort : signedChar b ≤ 125
    · rw [parseHead_short w stray t hshort] at h
      cases h
      have hm := w.two_pow_le_modulus
      have hmod := Int.emod_lt_of_pos (signedChar b) (show (0 : ℤ) < w.modulus by omega)
      refine .inl ⟨rfl, ?_⟩
      unfold Width.toSize
      omega
    · by_cases h126 : b = 126
      · subst h126
        rw [parseHead_126] at h
        split_ifs at h with ht
        cases h
        have hlt := ofBE_lt (t.take 2)
        rw [List.length_take, min_eq_left (by omega)] at hlt
        exact .inr (.inl ⟨rfl, hlt⟩)
      · have h127 : b = 127 := by
          have hb := b.toNat_lt
          unfold signedChar at hshort
          have : b.toNat ≠ 126 := fun h' => h126 (UInt8.toNat_inj.mp h')
          refine UInt8.toNat_inj.mp (show b.toNat = 127 from ?_)
          split_ifs at hshort <;> omega
        subst h127
        rw [parseHead_127] at h
        split_ifs at h with ht
        cases h
        exact .inr (.inr ⟨rfl, t, rfl, by omega, rfl⟩)

/-- A sum that does not wrap is compared as it is. -/
theorem staysInside_of_lt {w : Width} {stray buf : List UInt8} {headLens bufLens : ℕ}
    (hhead : parseHead w stray buf = some (headLens, bufLens))
    (hsum : headLens + bufLens < w.modulus) : StaysInside w stray buf := by
  intro pack h
  unfold parsePack at h
  rw [hhead] at h
  simp only [Nat.mod_eq_of_lt hsum] at h
  split_ifs at h with _ hlen hz
  · cases h
    subst hz
    exact ⟨headLens, hhead, by simpa using hlen, rfl, rfl⟩
  · split at h
    · cases h
    · cases h
      exact ⟨headLens, hhead, by simpa using hlen, rfl, rfl⟩

/-- A sum that wraps to zero is refused. -/
theorem staysInside_of_eq {w : Width} {stray buf : List UInt8} {headLens bufLens : ℕ}
    (hhead : parseHead w stray buf = some (headLens, bufLens)) (hpos : 0 < bufLens)
    (hsum : headLens + bufLens = w.modulus) : StaysInside w stray buf := by
  intro pack h
  unfold parsePack at h
  rw [hhead] at h
  have hread : readBuffer buf 0 = none := if_pos (Or.inl rfl)
  simp only [hsum, Nat.mod_self, hread] at h
  split_ifs at h with _ _ hz
  exact absurd hz hpos.ne'

/-- **A sum that wraps is a message that is not in the buffer.** -/
theorem not_staysInside_of_wraps {w : Width} (stray : List UInt8) {buf : List UInt8}
    (h : Wraps w buf) : ¬StaysInside w stray buf := by
  obtain ⟨rfl, t, rfl, ht, hwrap⟩ := h
  have hlt := ofBE_lt (t.take 4)
  rw [List.length_take, min_eq_left ht] at hlt
  have hhead : parseHead .bits32 stray (127 :: t) = some (5, ofBE (t.take 4)) := by
    rw [parseHead_127, if_neg (by omega)]
    rfl
  have hmod : (5 + ofBE (t.take 4)) % Width.bits32.modulus = 5 + ofBE (t.take 4) - 2 ^ 32 := by
    show (5 + ofBE (t.take 4)) % 2 ^ 32 = _
    omega
  have hpack : parsePack .bits32 stray (127 :: t)
      = some ⟨5 + ofBE (t.take 4) - 2 ^ 32, ofBE (t.take 4),
          ((127 :: t).drop 5).take (ofBE (t.take 4))⟩ := by
    unfold parsePack
    rw [hhead, if_neg (by simp)]
    simp only [hmod]
    rw [if_neg (by rw [List.length_cons]; omega), if_neg (by omega),
      readBuffer_of_le (by omega) (by rw [List.length_cons]; omega)]
  intro hstays
  obtain ⟨headLens, hhead', -, hparsed, -⟩ := hstays _ hpack
  obtain rfl : 5 = headLens := (Prod.mk.inj (Option.some_inj.mp (hhead.symm.trans hhead'))).1
  simp only at hparsed
  omega

/-- **The TCP parser stays inside the buffer** exactly if the sum does not
wrap. -/
theorem message_staysInside_iff (w : Width) (stray buf : List UInt8) :
    StaysInside w stray buf ↔ ¬Wraps w buf := by
  constructor
  · exact fun h hwraps => not_staysInside_of_wraps stray hwraps h
  · intro hwraps
    cases hhead : parseHead w stray buf with
    | none =>
      intro pack h
      unfold parsePack at h
      rw [hhead] at h
      split_ifs at h
    | some head =>
      obtain ⟨headLens, bufLens⟩ := head
      have hm := w.two_pow_le_modulus
      obtain ⟨rfl, hlt⟩ | ⟨rfl, hlt⟩ | ⟨rfl, t, rfl, ht, rfl⟩ := parseHead_cases hhead
      · obtain hsum | hsum : 1 + bufLens < w.modulus ∨ 1 + bufLens = w.modulus := by omega
        · exact staysInside_of_lt hhead hsum
        · exact staysInside_of_eq hhead (by omega) hsum
      · exact staysInside_of_lt hhead (by omega)
      · have hlt := ofBE_lt (t.take 4)
        rw [List.length_take, min_eq_left ht] at hlt
        cases w with
        | bits64 => exact staysInside_of_lt hhead (show 9 + _ < 2 ^ 64 by omega)
        | bits32 =>
          have hle : ¬2 ^ 32 - 5 < ofBE (t.take 4) := fun h => hwraps ⟨rfl, t, rfl, ht, h⟩
          obtain hsum | hsum : 5 + ofBE (t.take 4) < 2 ^ 32 ∨ 5 + ofBE (t.take 4) = 2 ^ 32 := by
            omega
          · exact staysInside_of_lt hhead hsum
          · exact staysInside_of_eq hhead (by omega) hsum

/-- The head of a message of `2 ^ 32 - 1` bytes, and nothing behind it. -/
theorem not_staysInside_long_message :
    ¬∀ (w : Width) (stray buf : List UInt8), StaysInside w stray buf :=
  fun h => not_staysInside_of_wraps [] ⟨rfl, _, rfl, by decide, by decide⟩
    (h .bits32 [] [127, 0xFF, 0xFF, 0xFF, 0xFF])

end TcpParser

/-! ## WebSocket -/

namespace WebSockParser

open ByteOrder EventBuffer

/-- A frame that is given lies in the buffer, and of the buffer only its
payload is changed. `size_t` has eight bytes. -/
def StaysInside (buf : List UInt8) : Prop :=
  ∀ fram parsedLens msg buf', parsePack .bits64 buf = .pack fram parsedLens msg buf' →
    ∃ headLens, parseHead .bits64 buf = .head headLens fram
      ∧ headLens + fram.uiDataLens ≤ buf.length
      ∧ buf'.length = buf.length
      ∧ ∀ i, i < headLens ∨ headLens + fram.uiDataLens ≤ i → buf'[i]? = buf[i]?

/-- A masked frame with the long head has a length of which the sum wraps, but
not to zero. The last part leaves out a buffer that really has these more than
`2 ^ 64` bytes. -/
def Wraps (buf : List UInt8) : Prop :=
  ∃ b₀ t, buf = b₀ :: 0xFF :: t ∧ b₀ &&& 0x70 = 0 ∧ 12 ≤ t.length
    ∧ 2 ^ 64 - 14 < ofBE (t.take 8) ∧ buf.length < 14 + ofBE (t.take 8)

/-- The reserved bits of the first byte, one by one and together. -/
theorem rsv_bits (b : UInt8) : b &&& 0x70 = 0
    ↔ (b &&& 0x40) >>> 6 = 0 ∧ (b &&& 0x20) >>> 5 = 0 ∧ (b &&& 0x10) >>> 4 = 0 := by
  revert b
  refine ByteOrder.forall_byte ?_
  decide +kernel

/-- The second byte of a masked frame with the long head. -/
theorem eq_of_long_bits {b : UInt8} (hmask : (b &&& 0x80) >>> 7 = 1) (hlen : b &&& 0x7F = 127) :
    b = 0xFF := by
  have hbyte : ∀ b : UInt8, (b &&& 0x80) >>> 7 = 1 → b &&& 0x7F = 127 → b = 0xFF :=
    ByteOrder.forall_byte (by decide +kernel)
  exact hbyte b hmask hlen

theorem parseHead_close (w : Width) (b₀ b₁ : UInt8) (t : List UInt8) (ht : 4 ≤ t.length)
    (h : (b₁ &&& 0x80) >>> 7 ≠ 1 ∨ b₀ &&& 0x70 ≠ 0) : parseHead w (b₀ :: b₁ :: t) = .close := by
  unfold parseHead
  rw [readBuffer_of_le (by omega) (by simp; omega)]
  dsimp only [List.take_succ_cons, List.getD_cons_zero, List.getD_cons_succ]
  refine if_pos ?_
  obtain hmask | hrsv := h
  · exact .inl hmask
  · rw [Ne, rsv_bits] at hrsv
    tauto

/-- A head has a length of up to two bytes, or is the long head. -/
theorem parseHead_cases {w : Width} {buf : List UInt8} {headLens : ℕ} {fram : WebSockFram}
    (h : parseHead w buf = .head headLens fram) :
    headLens + fram.uiDataLens < 2 ^ 17
      ∨ headLens = 14 ∧ ∃ b₀ t, buf = b₀ :: 0xFF :: t ∧ b₀ &&& 0x70 = 0 ∧ 12 ≤ t.length
        ∧ fram.uiDataLens = ofBE (t.take 8) % w.modulus := by
  have hlens := parseHead_headLens w h
  obtain ⟨b₀, b₁, t, rfl⟩ : ∃ b₀ b₁ t, buf = b₀ :: b₁ :: t := by
    match buf, hlens.1.trans hlens.2.2 with
    | b₀ :: b₁ :: t, _ => exact ⟨b₀, b₁, t, rfl⟩
  simp only [List.length_cons] at hlens
  by_cases hclose : (b₁ &&& 0x80) >>> 7 ≠ 1 ∨ b₀ &&& 0x70 ≠ 0
  · rw [parseHead_close w b₀ b₁ t (by omega) hclose] at h
    cases h
  · obtain ⟨hmask, hrsv⟩ := not_or.mp hclose
    rw [not_not] at hmask hrsv
    obtain ⟨hr₁, hr₂, hr₃⟩ := (rsv_bits b₀).mp hrsv
    rw [parseHead_cons w b₀ b₁ t (by omega) hmask hr₁ hr₂ hr₃] at h
    split_ifs at h with h125 h126 h6 h127 h12
    · cases h
      have hle : (b₁ &&& 0x7F).toNat ≤ 125 := UInt8.le_iff_toNat_le.mp h125
      exact .inl (show 6 + (b₁ &&& 0x7F).toNat < 2 ^ 17 by omega)
    · cases h
      have hlt := ofBE_lt (t.take 2)
      rw [List.length_take, min_eq_left (by omega)] at hlt
      exact .inl (show 8 + ofBE (t.take 2) < 2 ^ 17 by omega)
    · cases h
      obtain rfl := eq_of_long_bits hmask h127
      exact .inr ⟨rfl, b₀, t, rfl, hrsv, by omega, rfl⟩

/-- A piece of a list is put in place of another of the same length. -/
theorem getElem?_splice {l new : List UInt8} {n m i : ℕ} (hlen : n + m ≤ l.length)
    (hnew : new.length = m) (hi : i < n ∨ n + m ≤ i) :
    (l.take n ++ new ++ l.drop (n + m))[i]? = l[i]? := by
  have htake : (l.take n).length = n := by
    rw [List.length_take]
    omega
  obtain hi | hi := hi
  · rw [List.append_assoc, List.getElem?_append_left (by omega), List.getElem?_take_of_lt hi]
  · rw [List.getElem?_append_right (by rw [List.length_append]; omega), List.getElem?_drop,
      List.length_append, htake, hnew]
    exact congrArg (l[·]?) (by omega)

/-- A frame that is there is unmasked in its place. -/
theorem staysInside_of_le {buf : List UInt8} {headLens : ℕ} {fram : WebSockFram}
    (hhead : parseHead .bits64 buf = .head headLens fram)
    (hle : headLens + fram.uiDataLens ≤ buf.length) : StaysInside buf := by
  intro fram' parsedLens msg buf' h
  unfold parsePack at h
  rw [hhead] at h
  simp only at h
  split_ifs at h
  · split at h
    · cases h
    · cases h
      have hlen : (unmask fram.acMaskKey ((buf.drop headLens).take fram.uiDataLens)).length
          = fram.uiDataLens := by
        rw [length_unmask, List.length_take, List.length_drop]
        omega
      refine ⟨headLens, hhead, hle, ?_, fun i hi => getElem?_splice hle hlen hi⟩
      simp only [List.length_append, List.length_take, List.length_drop, hlen]
      omega
  · cases h
    exact ⟨headLens, hhead, hle, rfl, fun _ _ => rfl⟩

/-- A frame that is not there is waited for, if the sum does not wrap, and
also if it wraps to zero. -/
theorem parsePack_of_lt {buf : List UInt8} {headLens : ℕ} {fram : WebSockFram}
    (hhead : parseHead .bits64 buf = .head headLens fram)
    (hlt : buf.length < headLens + fram.uiDataLens)
    (hsum : headLens + fram.uiDataLens ≤ Width.bits64.modulus) :
    parsePack .bits64 buf = .wait := by
  have hlens := parseHead_headLens .bits64 hhead
  unfold parsePack
  rw [hhead, if_neg (by omega)]
  simp only
  obtain hsum | hsum := hsum.lt_or_eq
  · rw [Nat.mod_eq_of_lt hsum, if_pos hlt]
  · have hread : readBuffer buf 0 = none := if_pos (Or.inl rfl)
    rw [hsum, Nat.mod_self, if_neg (Nat.not_lt_zero _), if_pos (by omega), hread]

/-- **A sum that wraps is a payload that is not in the buffer.** -/
theorem not_staysInside_of_wraps {buf : List UInt8} (h : Wraps buf) : ¬StaysInside buf := by
  obtain ⟨b₀, t, rfl, hrsv, ht, hwrap, hshort⟩ := h
  obtain ⟨hr₁, hr₂, hr₃⟩ := (rsv_bits b₀).mp hrsv
  have hlt := ofBE_lt (t.take 8)
  rw [List.length_take, min_eq_left (by omega)] at hlt
  have hhead : parseHead .bits64 (b₀ :: 0xFF :: t)
      = .head 14 (baseFram b₀ 0xFF ((t.drop 8).take 4) (ofBE (t.take 8))) := by
    rw [parseHead_cons .bits64 b₀ 0xFF t (by omega) (by decide) hr₁ hr₂ hr₃, if_neg (by decide),
      if_neg (by decide), if_pos (by decide), if_neg (by omega)]
    exact congrArg (fun n => HeadResult.head 14 (baseFram b₀ 0xFF ((t.drop 8).take 4) n))
      (Nat.mod_eq_of_lt hlt)
  have hmod : (14 + ofBE (t.take 8)) % Width.bits64.modulus = 14 + ofBE (t.take 8) - 2 ^ 64 := by
    show (14 + ofBE (t.take 8)) % 2 ^ 64 = _
    omega
  have hpack : ∃ parsedLens msg buf', parsePack .bits64 (b₀ :: 0xFF :: t)
      = .pack (baseFram b₀ 0xFF ((t.drop 8).take 4) (ofBE (t.take 8))) parsedLens msg buf' := by
    simp only [List.length_cons] at hshort
    unfold parsePack
    rw [hhead, if_neg (by simp only [List.length_cons]; omega)]
    simp only [baseFram, hmod, List.length_cons]
    rw [if_neg (by omega), if_pos (by omega),
      readBuffer_of_le (by omega) (by simp only [List.length_cons]; omega)]
    exact ⟨_, _, _, rfl⟩
  intro hstays
  obtain ⟨parsedLens, msg, buf', hpack⟩ := hpack
  obtain ⟨headLens, hhead', hle, -⟩ := hstays _ _ _ _ hpack
  obtain rfl : 14 = headLens := (HeadResult.head.inj (hhead.symm.trans hhead')).1
  exact absurd hle (not_le.mpr hshort)

/-- **The WebSocket parser stays inside the buffer** exactly if the sum does
not wrap. -/
theorem frame_staysInside_iff (buf : List UInt8) : StaysInside buf ↔ ¬Wraps buf := by
  constructor
  · exact fun h hwraps => not_staysInside_of_wraps hwraps h
  · intro hwraps
    cases hhead : parseHead .bits64 buf with
    | wait =>
      intro fram parsedLens msg buf' h
      unfold parsePack at h
      rw [hhead] at h
      split_ifs at h
    | close =>
      intro fram parsedLens msg buf' h
      unfold parsePack at h
      rw [hhead] at h
      split_ifs at h
    | head headLens fram =>
      by_cases hle : headLens + fram.uiDataLens ≤ buf.length
      · exact staysInside_of_le hhead hle
      · have hsum : headLens + fram.uiDataLens ≤ 2 ^ 64 := by
          obtain hlt | ⟨rfl, b₀, t, rfl, hrsv, ht, hdata⟩ := parseHead_cases hhead
          · omega
          · have hlt := ofBE_lt (t.take 8)
            rw [List.length_take, min_eq_left (by omega)] at hlt
            rw [Nat.mod_eq_of_lt (show _ < Width.bits64.modulus from hlt)] at hdata
            by_contra hover
            exact hwraps ⟨b₀, t, rfl, hrsv, ht, by omega, by omega⟩
        intro fram' parsedLens msg buf' h
        rw [parsePack_of_lt hhead (by omega) hsum] at h
        cases h

/-- A head with the length `2 ^ 64 - 1`, and nothing behind it. -/
theorem not_staysInside_long_frame : ¬∀ buf : List UInt8, StaysInside buf :=
  fun h => not_staysInside_of_wraps ⟨0x82, _, rfl, by decide, by decide, by decide, by decide⟩
    (h (0x82 :: 0xFF :: (List.replicate 8 0xFF ++ [1, 2, 3, 4])))

end WebSockParser
