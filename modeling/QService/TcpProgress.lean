import QService.HandOver
import QService.TcpDispatch

/-!
# When TCP dispatch is stuck

The parser of a TCP session gives no message in four cases: the head is not
complete, the body is not complete, the flag is none of the three, or the
flag byte is negative as a `char` and makes the length absurd. The loop of
`dispTcp` takes all of them for the first two and waits for more bytes. A
message that does not decode is waited for in the same way. Where the reason
is not one that more bytes can cure, no later message gets through.

A buffer is worth waiting for when it is the start of a frame that
`createHead` makes and the parser accepts (`Begins`). Where the parser gives
nothing the bytes themselves tell (`Unfinished`): the first is a length, or a
flag behind which the length, as far as it is there, is one that `createHead`
writes with that flag.

So the bytes received, cut into frames, say how `dispTcp` ends
(`dispTcp_flows_iff`): well, if the handlers close the session on a message
before the first one that does not decode, or all of them decode and what is left
is unfinished, and badly otherwise.
-/

namespace TcpParser

open ByteOrder EventBuffer

/-- The buffer is a proper part of a frame, from its start, and the parser
accepts that frame. -/
def Begins (w : Width) (stray buf : List UInt8) : Prop :=
  ∃ msg, buf <+: frame w msg ∧ buf ≠ frame w msg
    ∧ parsePack w stray (frame w msg) = some ⟨(frame w msg).length, msg.length, msg⟩

/-- A `char` is at most 125, or 126, or 127. -/
theorem signedChar_cases (b : UInt8) : signedChar b ≤ 125 ∨ b = 126 ∨ b = 127 := by
  by_cases h : b.toNat ≤ 125 ∨ 128 ≤ b.toNat
  · left
    have hb := b.toNat_lt
    unfold signedChar
    split_ifs <;> omega
  · right
    have hb : b.toNat = 126 ∨ b.toNat = 127 := by omega
    rcases hb with hb | hb
    · exact .inl (UInt8.toNat_inj.mp hb)
    · exact .inr (UInt8.toNat_inj.mp hb)

/-- A length of `n` bytes that is there is the same when more bytes follow. -/
theorem extendedLens_append {n lens : ℕ} {t : List UInt8} {head : ℕ × ℕ}
    (h : (if t.length < n then none else some (lens, ofBE (t.take n))) = some head)
    (tail : List UInt8) :
    (if (t ++ tail).length < n then none else some (lens, ofBE ((t ++ tail).take n)))
      = some head := by
  by_cases ht : t.length < n
  · rw [if_pos ht] at h
    cases h
  · rw [if_neg ht] at h
    rw [if_neg (by rw [List.length_append]; omega), ← h,
      List.take_append_of_le_length (by omega)]

/-- A head that has been read is read again when more bytes follow. -/
theorem parseHead_append (w : Width) (stray : List UInt8) {buf : List UInt8} {head : ℕ × ℕ}
    (h : parseHead w stray buf = some head) (tail : List UInt8) :
    parseHead w stray (buf ++ tail) = some head := by
  cases buf with
  | nil => cases h
  | cons b t =>
    rw [List.cons_append]
    rcases signedChar_cases b with hb | rfl | rfl
    · rw [parseHead_short w stray t hb] at h
      rw [parseHead_short w stray _ hb, h]
    · rw [parseHead_126] at h ⊢
      exact extendedLens_append h tail
    · rw [parseHead_127] at h ⊢
      exact extendedLens_append h tail

/-- A frame that has been parsed lies inside the buffer, and ends at the same
place when more bytes follow. -/
theorem parsePack_append (w : Width) (stray : List UInt8) {buf : List UInt8} {pack : Pack}
    (h : parsePack w stray buf = some pack) (tail : List UInt8) :
    pack.parsedLens ≤ buf.length
      ∧ ∃ msg, parsePack w stray (buf ++ tail) = some { pack with msg := msg } := by
  unfold parsePack at h ⊢
  split_ifs at h with h₀
  cases hhead : parseHead w stray buf with
  | none =>
    rw [hhead] at h
    cases h
  | some head =>
    obtain ⟨headLens, bufLens⟩ := head
    rw [hhead] at h
    dsimp only at h
    rw [if_neg (by rw [List.length_append]; omega), parseHead_append w stray hhead tail]
    dsimp only
    have hlen := parseHead_headLens w stray hhead
    have hm := w.two_pow_le_modulus
    split_ifs at h with hneed hz
    · cases h
      have hmod : (headLens + 0) % w.modulus = headLens := Nat.mod_eq_of_lt (by omega)
      rw [hz, hmod] at hneed
      refine ⟨by dsimp only; omega, [], ?_⟩
      rw [if_neg (by rw [hz, hmod, List.length_append]; omega), if_pos hz]
    · split at h
      · cases h
      · rename_i hread
        cases h
        refine ⟨by dsimp only; omega, ((buf ++ tail).drop headLens).take bufLens, ?_⟩
        rw [if_neg (by rw [List.length_append]; omega), if_neg hz,
          readBuffer_of_le (readBuffer_eq_some hread).1 (by rw [List.length_append]; omega)]

/-- **The parser gives nothing on the start of a frame that it accepts.** -/
theorem Begins.parsePack {w : Width} {stray buf : List UInt8} (h : Begins w stray buf) :
    parsePack w stray buf = none := by
  obtain ⟨msg, ⟨tail, htail⟩, hne, hframe⟩ := h
  cases hp : TcpParser.parsePack w stray buf with
  | none => rfl
  | some pack =>
    obtain ⟨hle, msg', happ⟩ := parsePack_append w stray hp tail
    rw [htail, hframe] at happ
    have hlens : (frame w msg).length = pack.parsedLens := by
      injection happ with happ
      injection happ
    have hlen : (buf ++ tail).length = (frame w msg).length := by rw [htail]
    rw [List.length_append] at hlen
    have hnil : tail = [] := List.eq_nil_of_length_eq_zero (by omega)
    rw [hnil, List.append_nil] at htail
    exact absurd htail hne

/-! ## What bytes a frame begins with -/

/-- The buffer holds the beginning of a frame of this length. -/
theorem begins_iff_length (w : Width) (stray buf : List UInt8) :
    Begins w stray buf
      ↔ ∃ n < 2 ^ 32, (createHead w n).length + n < w.modulus
          ∧ buf.take (createHead w n).length <+: createHead w n
          ∧ buf.length < (createHead w n).length + n := by
  constructor
  · rintro ⟨msg, hpre, hne, hframe⟩
    obtain ⟨headLens, hhead, hsum, -⟩ := parsePack_eq_some hframe
    dsimp only at hhead hsum
    have hlt : msg.length < 2 ^ 32 := by
      by_contra hge
      -- the long head keeps 32 bits of the length
      obtain ⟨t, ht⟩ : ∃ t, frame w msg = 127 :: t := by
        unfold frame createHead
        rw [if_neg (by omega), if_neg (by omega)]
        exact ⟨_, rfl⟩
      rw [ht, parseHead_127] at hhead
      split_ifs at hhead
      have hbe := ofBE_lt (t.take 4)
      rw [(Prod.mk.inj (Option.some.inj hhead)).2] at hbe
      have hfour : (256 : ℕ) ^ (t.take 4).length ≤ 256 ^ 4 :=
        Nat.pow_le_pow_right (by norm_num) (List.length_take_le 4 t)
      omega
    have hshort : buf.length < (frame w msg).length :=
      lt_of_le_of_ne hpre.length_le fun he => hne (hpre.eq_of_length he)
    have hmod := Nat.mod_lt (headLens + msg.length) w.modulus_pos
    refine ⟨msg.length, hlt, ?_, ?_, ?_⟩
    · rw [← length_frame, hsum]
      exact hmod
    · refine List.prefix_of_prefix_length_le ((List.take_prefix _ buf).trans hpre)
        (List.prefix_append _ msg) ?_
      exact List.length_take_le _ _
    · rwa [length_frame] at hshort
  · rintro ⟨n, hn, hsum, hpre, hshort⟩
    set head := createHead w n with hheadeq
    set msg := buf.drop head.length ++ List.replicate (n - (buf.length - head.length)) 0 with hmsg
    have hlen : msg.length = n := by
      rw [hmsg, List.length_append, List.length_drop, List.length_replicate]
      omega
    have hframe : frame w msg = head ++ msg := by rw [frame, hlen]
    refine ⟨msg, ?_, fun he => ?_, ?_⟩
    · rw [hframe]
      by_cases hle : buf.length ≤ head.length
      · rw [List.take_of_length_le hle] at hpre
        exact hpre.trans (List.prefix_append _ _)
      · have htake : buf.take head.length = head :=
          hpre.eq_of_length (List.length_take_of_le (by omega))
        have hsplit := List.take_append_drop head.length buf
        rw [htake] at hsplit
        refine ⟨List.replicate (n - (buf.length - head.length)) 0, ?_⟩
        rw [hmsg, ← List.append_assoc, hsplit]
    · rw [he, hframe, List.length_append, hlen] at hshort
      exact absurd hshort (lt_irrefl _)
    · obtain ⟨tail, htail⟩ := headRead_prefix_frame w msg
      have hne : frame w msg ≠ [] := List.append_ne_nil_of_left_ne_nil (createHead_ne_nil w _) _
      have hread := parseHead_headRead w stray (show msg.length < 2 ^ 32 by omega) tail
      rw [htail] at hread
      rw [parsePack_of_head w stray hne hread (List.length_pos_iff.mpr (createHead_ne_nil w _))
        (by rwa [hlen]), ← length_frame, if_neg (lt_irrefl _), frame, List.drop_left,
        List.take_length]

/-- What is left of a buffer is worth waiting for: it is empty, or its first byte is a
length, or it is a flag and the length that follows, as far as it is there, is one for
which `createHead` writes that flag: more than 125 in two bytes; more than 65535 in four,
with zeros up to the end of the `size_t`, and not too long for a `size_t` to count. -/
def Unfinished (w : Width) : List UInt8 → Prop
  | [] => True
  | b :: t =>
    b.toNat ≤ 125
      ∨ b = 126 ∧ (2 ≤ t.length → 125 < ofBE (t.take 2))
      ∨ b = 127 ∧ ¬ [0, 0] <+: t ∧ (∀ x ∈ (t.drop 4).take (w.bytes - 4), x = 0)
        ∧ 1 + w.bytes + ofBE (t.take 4) < w.modulus

instance (w : Width) : (buf : List UInt8) → Decidable (Unfinished w buf)
  | [] => inferInstanceAs (Decidable True)
  | _ :: _ => inferInstanceAs (Decidable (_ ∨ _ ∧ _ ∨ _ ∧ _ ∧ _ ∧ _))

/-- The long head, with the bytes behind the length. -/
theorem createHead_long (w : Width) {n : ℕ} (h : 0xFFFF < n) :
    createHead w n = 127 :: (beBytes 4 n ++ List.replicate (w.bytes - 4) 0) := by
  obtain ⟨k, hk⟩ := createHead_eq w n
  have hread : headRead n = 127 :: beBytes 4 n := by
    unfold headRead
    rw [if_neg (by omega), if_neg (by omega)]
  have hlen := length_createHead_long w h
  rw [hread] at hk
  rw [hk, List.length_append, List.length_cons, length_beBytes, List.length_replicate] at hlen
  rw [hk, List.cons_append, show w.bytes - 4 = k by omega]

/-- The four bytes of a length of 65536 or more do not begin with two zeros. -/
theorem zeros_prefix_beBytes_iff {n : ℕ} (h : n < 2 ^ 32) :
    [0, 0] <+: beBytes 4 n ↔ n ≤ 0xFFFF := by
  have hval := ofBE_beBytes 4 n
  rw [Nat.mod_eq_of_lt (by omega)] at hval
  constructor
  · rintro ⟨tail, htail⟩
    have hlen := congrArg List.length htail
    rw [length_beBytes, List.length_append] at hlen
    have htwo : tail.length = 2 := by
      simp only [List.length_cons, List.length_nil] at hlen
      omega
    have hlt := ofBE_lt tail
    rw [← htail, ofBE_append, htwo] at hval
    rw [htwo] at hlt
    have hzero : ofBE [0, 0] = 0 := rfl
    omega
  · intro hle
    refine ⟨beBytes 2 n, ?_⟩
    have hfour := beBytes_ofBE ([0, 0] ++ beBytes 2 n)
    have hzero : ofBE [0, 0] = 0 := rfl
    rw [ofBE_append, hzero, Nat.zero_mul, Nat.zero_add, ofBE_beBytes,
      Nat.mod_eq_of_lt (by omega)] at hfour
    simpa using hfour.symm

theorem Begins.unfinished {w : Width} {stray buf : List UInt8} (h : Begins w stray buf) :
    Unfinished w buf := by
  cases buf with
  | nil => trivial
  | cons b t =>
    obtain ⟨n, hn, hsum, hpre, -⟩ := (begins_iff_length w stray _).mp h
    by_cases h₁ : n ≤ 125
    · left
      have hhead : createHead w n = [UInt8.ofNat n] := by rw [createHead, if_pos h₁]
      rw [hhead, List.length_singleton, List.take_succ_cons] at hpre
      obtain ⟨rfl, -⟩ := List.cons_prefix_cons.mp hpre
      rw [UInt8.toNat_ofNat']
      omega
    right
    by_cases h₂ : n ≤ 0xFFFF
    · left
      have hhead : createHead w n = 126 :: beBytes 2 n := by
        rw [createHead_short w h₂, headRead, if_neg h₁, if_pos h₂]
      rw [hhead, List.length_cons, length_beBytes, List.take_succ_cons] at hpre
      obtain ⟨rfl, htwo⟩ := List.cons_prefix_cons.mp hpre
      refine ⟨rfl, fun ht => ?_⟩
      rw [htwo.eq_of_length (by rw [List.length_take_of_le ht, length_beBytes]), ofBE_beBytes,
        Nat.mod_eq_of_lt (by omega)]
      omega
    · right
      have hw := w.four_le_bytes
      have hlen := length_createHead_long w (not_le.mp h₂)
      rw [hlen] at hsum
      rw [hlen, add_comm, createHead_long w (not_le.mp h₂), List.take_succ_cons] at hpre
      obtain ⟨rfl, hsize⟩ := List.cons_prefix_cons.mp hpre
      refine ⟨rfl, fun hzero => ?_, fun x hx => ?_, ?_⟩
      · have htwo : [0, 0] <+: t.take w.bytes :=
          List.prefix_take_iff.mpr ⟨hzero, by simp only [List.length_cons, List.length_nil]; omega⟩
        have hfour : [0, 0] <+: beBytes 4 n :=
          List.prefix_of_prefix_length_le (htwo.trans hsize) (List.prefix_append _ _) (by simp)
        exact absurd ((zeros_prefix_beBytes_iff hn).mp hfour) h₂
      · rw [← List.drop_take] at hx
        have hdrop := hsize.drop 4
        rw [List.drop_left' (length_beBytes 4 n)] at hdrop
        exact List.eq_of_mem_replicate (hdrop.subset hx)
      · by_cases ht : 4 ≤ t.length
        · have htake := hsize.take 4
          rw [List.take_take, min_eq_left hw, take_beBytes_append] at htake
          rw [htake.eq_of_length (by rw [List.length_take_of_le ht, length_beBytes]),
            ofBE_beBytes, Nat.mod_eq_of_lt (by omega)]
          exact hsum
        · have hlt := ofBE_lt (t.take 4)
          have hthree : (256 : ℕ) ^ (t.take 4).length ≤ 256 ^ 3 :=
            Nat.pow_le_pow_right (by norm_num) (by rw [List.length_take]; omega)
          have hmod := w.two_pow_le_modulus
          have height : w.bytes ≤ 8 := by cases w <;> decide
          omega

/-- A head that is there with a message that is not. -/
theorem length_lt_of_none {w : Width} {stray buf : List UInt8} {headLens bufLens : ℕ}
    (hnone : parsePack w stray buf = none) (hne : buf ≠ [])
    (hhead : parseHead w stray buf = some (headLens, bufLens)) (h₀ : 0 < headLens)
    (hsum : headLens + bufLens < w.modulus) : buf.length < headLens + bufLens := by
  by_contra hge
  rw [parsePack_of_head w stray hne hhead h₀ hsum, if_neg hge] at hnone
  cases hnone

/-- Fewer than four bytes of a length that takes the long head. -/
theorem exists_length_of_part {t : List UInt8} (hlen : t.length < 4) (hzero : ¬ [0, 0] <+: t) :
    ∃ n, 0xFFFF < n ∧ n + 9 < 2 ^ 32 ∧ t <+: beBytes 4 n := by
  set l := t ++ List.replicate (3 - t.length) 1 with hl
  have hthree : l.length = 3 := by
    rw [hl, List.length_append, List.length_replicate]
    omega
  have hval : ofBE (l ++ [1]) = ofBE l * 256 + 1 := ofBE_append l [1]
  have hlt := ofBE_lt l
  have hfour : (l ++ [1]).length = 4 := by rw [List.length_append, hthree, List.length_singleton]
  have hbytes := beBytes_ofBE (l ++ [1])
  rw [hfour] at hbytes
  rw [hthree] at hlt
  refine ⟨ofBE (l ++ [1]), ?_, by omega, ?_⟩
  · by_contra hle
    have hpre := (zeros_prefix_beBytes_iff (by omega)).mpr (not_lt.mp hle)
    rw [hbytes, hl] at hpre
    match t, hlen, hzero with
    | [], _, _ => exact absurd hpre (by decide)
    | [x], _, _ =>
      have htail : [0] <+: [(1 : UInt8), 1, 1] := (List.cons_prefix_cons.mp hpre).2
      exact absurd htail (by decide)
    | x :: y :: t, _, hzero =>
      rw [List.append_assoc] at hpre
      exact hzero (List.prefix_of_prefix_length_le hpre (List.prefix_append _ _) (by simp))
  · rw [hbytes, hl, List.append_assoc]
    exact List.prefix_append _ _

theorem Unfinished.begins {w : Width} {stray buf : List UInt8} (h : Unfinished w buf)
    (hnone : parsePack w stray buf = none) : Begins w stray buf := by
  have hmod := w.two_pow_le_modulus
  have hw := w.four_le_bytes
  cases buf with
  | nil =>
    refine (begins_iff_length w stray _).mpr ⟨0, by norm_num, ?_, List.nil_prefix, ?_⟩
    · show 1 + 0 < w.modulus
      omega
    · show 0 < 1 + 0
      omega
  | cons b t =>
    refine (begins_iff_length w stray _).mpr ?_
    obtain hb | ⟨rfl, hlens⟩ | ⟨rfl, hzero, hrest, hsum⟩ := h
    · -- the first byte is the length
      have hhead : createHead w b.toNat = [b] := by
        rw [createHead, if_pos hb, UInt8.ofNat_toNat]
      have hsigned : signedChar b = b.toNat := if_pos (by omega)
      have hparse := parseHead_short w stray t (b := b) (by rw [hsigned]; omega)
      rw [hsigned, w.toSize_natCast (by omega)] at hparse
      have hlt := length_lt_of_none hnone (List.cons_ne_nil b t) hparse (by norm_num) (by omega)
      refine ⟨b.toNat, by omega, ?_, ?_, ?_⟩ <;> rw [hhead]
      · rw [List.length_singleton]
        omega
      · exact List.prefix_rfl
      · exact hlt
    · have hhead {n : ℕ} (h₁ : 125 < n) (h₂ : n ≤ 0xFFFF) :
          createHead w n = 126 :: beBytes 2 n := by
        rw [createHead_short w h₂, headRead, if_neg (not_le.mpr h₁), if_pos h₂]
      by_cases ht : 2 ≤ t.length
      · have htwo : (t.take 2).length = 2 := List.length_take_of_le ht
        have hlt := ofBE_lt (t.take 2)
        have hbytes := beBytes_ofBE (t.take 2)
        rw [htwo] at hlt hbytes
        have hparse := parseHead_126 w stray t
        rw [if_neg (by omega)] at hparse
        have hshort := length_lt_of_none hnone (List.cons_ne_nil _ t) hparse (by norm_num)
          (by omega)
        refine ⟨ofBE (t.take 2), by omega, ?_, ?_, ?_⟩ <;>
          rw [hhead (hlens ht) (by omega), hbytes]
        · rw [List.length_cons, htwo]
          omega
        · rw [List.length_cons, htwo, List.take_succ_cons]
        · rw [List.length_cons, List.length_cons, htwo]
          exact hshort
      · -- the second byte of the length is still to come
        obtain ⟨n, h₁, h₂, hpre⟩ : ∃ n, 125 < n ∧ n ≤ 0xFFFF ∧ t <+: beBytes 2 n := by
          match t, ht with
          | [], _ => exact ⟨126, by omega, by omega, List.nil_prefix⟩
          | [x], _ =>
            have hx := x.toNat_lt
            have hval : ofBE [x, 255] = x.toNat * 256 + 255 := ofBE_append [x] [255]
            refine ⟨ofBE [x, 255], by omega, by omega, ?_⟩
            rw [show beBytes 2 (ofBE [x, 255]) = [x, 255] from beBytes_ofBE [x, 255]]
            exact List.prefix_append [x] [255]
          | _ :: _ :: _, ht => simp at ht
        have hlen : (createHead w n).length = 3 := by
          rw [hhead h₁ h₂, List.length_cons, length_beBytes]
        refine ⟨n, by omega, by omega, ?_, ?_⟩ <;> rw [hlen]
        · rw [hhead h₁ h₂, List.take_succ_cons, List.take_of_length_le (by omega)]
          exact List.cons_prefix_cons.mpr ⟨rfl, hpre⟩
        · rw [List.length_cons]
          omega
    · by_cases ht : 4 ≤ t.length
      · have hfour : (t.take 4).length = 4 := List.length_take_of_le ht
        have hlt := ofBE_lt (t.take 4)
        have hbytes := beBytes_ofBE (t.take 4)
        rw [hfour] at hlt hbytes
        have hlong : 0xFFFF < ofBE (t.take 4) := by
          by_contra hle
          have hpre := (zeros_prefix_beBytes_iff (by omega)).mpr (not_lt.mp hle)
          rw [hbytes] at hpre
          exact hzero (hpre.trans (List.take_prefix 4 t))
        have hparse := parseHead_127 w stray t
        rw [if_neg (by omega)] at hparse
        have hshort := length_lt_of_none hnone (List.cons_ne_nil _ t) hparse (by omega) hsum
        have hlen := length_createHead_long w hlong
        refine ⟨ofBE (t.take 4), by omega, by rwa [hlen], ?_, by rwa [hlen]⟩
        have hsize : t.take w.bytes = t.take 4 ++ (t.drop 4).take (w.bytes - 4) := by
          rw [← List.take_add, Nat.add_sub_cancel' hw]
        rw [hlen, add_comm, List.take_succ_cons, createHead_long w hlong, hbytes, hsize]
        refine List.cons_prefix_cons.mpr ⟨rfl, (List.prefix_append_right_inj _).mpr ?_⟩
        have hle : ((t.drop 4).take (w.bytes - 4)).length ≤ w.bytes - 4 := List.length_take_le _ _
        refine ⟨List.replicate (w.bytes - 4 - ((t.drop 4).take (w.bytes - 4)).length) 0,
          List.eq_replicate_iff.mpr ⟨?_, fun x hx => ?_⟩⟩
        · rw [List.length_append, List.length_replicate]
          omega
        · exact (List.mem_append.mp hx).elim (hrest x) List.eq_of_mem_replicate
      · -- bytes of the length are still to come
        obtain ⟨n, hlong, hn, hpre⟩ := exists_length_of_part (not_le.mp ht) hzero
        have hlen := length_createHead_long w hlong
        have height : w.bytes ≤ 8 := by cases w <;> decide
        refine ⟨n, by omega, by omega, ?_, ?_⟩ <;> rw [hlen]
        · rw [add_comm, List.take_succ_cons, List.take_of_length_le (by omega),
            createHead_long w hlong]
          exact List.cons_prefix_cons.mpr ⟨rfl, hpre.trans (List.prefix_append _ _)⟩
        · rw [List.length_cons]
          omega

/-- **Where the parser gives nothing, the bytes tell if the buffer is worth waiting for.** -/
theorem begins_iff_unfinished {w : Width} {stray buf : List UInt8}
    (hnone : parsePack w stray buf = none) : Begins w stray buf ↔ Unfinished w buf :=
  ⟨Begins.unfinished, fun h => h.begins hnone⟩

/-- A buffer cut into the messages of the frames that the parser finds in it, one after
the other, and what is left. -/
def cut (w : Width) (stray buf : List UInt8) : List (List UInt8) × List UInt8 :=
  match _h : parsePack w stray buf with
  | none => ([], buf)
  | some pack =>
    let (msgs, rest) := cut w stray (buf.drop pack.parsedLens)
    (pack.msg :: msgs, rest)
termination_by buf.length
decreasing_by
  have hpos := parsePack_parsedLens w stray _h
  rw [List.length_drop]
  omega

theorem cut_of_none {w : Width} {stray buf : List UInt8} (h : parsePack w stray buf = none) :
    cut w stray buf = ([], buf) := by
  rw [cut]
  split
  · rfl
  · rename_i hsome
    rw [h] at hsome
    cases hsome

theorem cut_of_some {w : Width} {stray buf : List UInt8} {pack : Pack}
    (h : parsePack w stray buf = some pack) :
    cut w stray buf = (pack.msg :: (cut w stray (buf.drop pack.parsedLens)).1,
      (cut w stray (buf.drop pack.parsedLens)).2) := by
  rw [cut]
  split
  · rename_i hnone
    rw [h] at hnone
    cases hnone
  · rename_i hsome
    obtain rfl := Option.some.inj (h.symm.trans hsome)
    rfl

end TcpParser

namespace Worker

open TcpParser

section Progress

variable (E : Env) (h : Handler) (fd : QSock)

/-- **A session is served well** when it is closed, or what is in its read buffer
is worth waiting for. -/
def Flows (W : Worker) : Prop :=
  W.status fd = .closed ∨ ∃ S, W.session fd = some S ∧ Begins E.width E.stray S.input

/-- The call of the interface for a message of the session `S`. -/
def dispCall (S : Session) : List UInt8 → Event :=
  if S.type = .debug then .debug S.conn else .sockRead S.conn

/-- What comes of payloads of TCP frames: each is a message. -/
def whole (datas : List (List UInt8)) : List (List UInt8 × Option (List UInt8)) :=
  datas.map fun data => (data, some data)

/-- **The bytes `buf`, received by the session `S`, can be served**: some frames at their
front decode and the interface closes the session on one of these messages; or all their
frames decode, and the rest is unfinished. -/
def Servable (S : Session) (buf : List UInt8) (W : Worker) : Prop :=
  (∃ k datas, E.decodeAll (svLink S) W.ciphers ((cut E.width E.stray buf).1.take k) = some datas
      ∧ Closes h fd S.conn (dispCall S) (whole datas) W)
    ∨ (E.decodeAll (svLink S) W.ciphers (cut E.width E.stray buf).1).isSome
      ∧ Unfinished E.width (cut E.width E.stray buf).2

variable {E h fd}

/-- A round of the loop, with what the interface is given. -/
theorem dispTcpBody_of_session {W : Worker} {S : Session} (hS : W.session fd = some S) :
    dispTcpBody E h fd W
      = match parsePack E.width E.stray S.input with
        | none => .stop W
        | some pack =>
          match E.decodeMsg W.ciphers (svLink S) pack.msg with
          | none => .stop W.countCipher
          | some msg =>
            let W := W.give h fd S.conn (dispCall S) msg (some msg)
            if W.status fd ≠ .closed then .next (W.delBuffer fd pack.parsedLens) else .stop W := by
  have hcall (V : Worker) (msg : List UInt8) :
      (if S.type = .debug then V.onDebug h fd S msg else V.onSockRead h fd S msg)
        = (V.emit (dispCall S msg)).closeAll (h V.log fd msg) := by
    unfold dispCall onDebug onSockRead
    split_ifs <;> rfl
  unfold dispTcpBody
  rw [hS]
  simp only [hcall]
  rfl

/-- Whether bytes can be served does not depend on what the interface does not see. -/
theorem servable_congr {S T : Session} (htype : T.type = S.type) (hconn : T.conn = S.conn)
    {buf : List UInt8} {A B : Worker} (hAB : Alike A B) (hciphers : A.ciphers = B.ciphers) :
    Servable E h fd T buf A ↔ Servable E h fd S buf B := by
  have hlink : svLink T = svLink S := by rw [svLink, svLink, htype]
  have hcall : dispCall T = dispCall S := by rw [dispCall, dispCall, htype, hconn]
  unfold Servable
  rw [hlink, hcall, hconn, hciphers]
  simp only [closes_congr hAB]

/-- A buffer without a whole frame can be served if it is unfinished. -/
theorem servable_of_none {S : Session} {buf : List UInt8} {W : Worker}
    (hpack : parsePack E.width E.stray buf = none) :
    Servable E h fd S buf W ↔ Unfinished E.width buf := by
  unfold Servable
  rw [cut_of_none hpack]
  simp [Env.decodeAll, whole, Closes]

/-- A frame that does not decode cannot be served. -/
theorem not_servable_of_refused {S : Session} {buf : List UInt8} {pack : Pack} {W : Worker}
    (hpack : parsePack E.width E.stray buf = some pack)
    (hmsg : E.decodeMsg W.ciphers (svLink S) pack.msg = none) : ¬ Servable E h fd S buf W := by
  unfold Servable
  rw [cut_of_some hpack]
  rintro (⟨k, datas, hdec, hcloses⟩ | ⟨hdec, -⟩)
  · cases k with
    | zero =>
      cases hdec
      exact hcloses
    | succ k =>
      rw [List.take_succ_cons, Env.decodeAll_of_none hmsg] at hdec
      cases hdec
  · rw [Env.decodeAll_of_none hmsg] at hdec
    cases hdec

/-- A frame on which the interface closes the session is served. -/
theorem servable_of_closed {S : Session} {buf msg : List UInt8} {pack : Pack} {W : Worker}
    (hpack : parsePack E.width E.stray buf = some pack)
    (hmsg : E.decodeMsg W.ciphers (svLink S) pack.msg = some msg)
    (hclosed : Closes h fd S.conn (dispCall S) (whole [msg]) W) : Servable E h fd S buf W := by
  refine .inl ⟨1, [msg], ?_, hclosed⟩
  rw [cut_of_some hpack, List.take_succ_cons, List.take_zero, Env.decodeAll_of_some hmsg]
  rfl

/-- Bytes whose first frame leaves the session open can be served as those behind it. -/
theorem servable_iff_of_open {S : Session} {buf msg : List UInt8} {pack : Pack} {W : Worker}
    (hpack : parsePack E.width E.stray buf = some pack)
    (hmsg : E.decodeMsg W.ciphers (svLink S) pack.msg = some msg)
    (hopen : ¬ Closes h fd S.conn (dispCall S) (whole [msg]) W) :
    Servable E h fd S buf W
      ↔ Servable E h fd S (buf.drop pack.parsedLens)
          (W.give h fd S.conn (dispCall S) msg (some msg)) := by
  have hcloses (datas : List (List UInt8)) :
      Closes h fd S.conn (dispCall S) (whole (msg :: datas)) W
        ↔ Closes h fd S.conn (dispCall S) (whole datas)
            (W.give h fd S.conn (dispCall S) msg (some msg)) :=
    or_iff_right fun hnow => hopen (.inl hnow)
  unfold Servable
  rw [cut_of_some hpack, ciphers_give]
  dsimp only
  rw [Env.decodeAll_of_some hmsg, Option.isSome_map]
  refine or_congr ⟨?_, ?_⟩ Iff.rfl
  · rintro ⟨k, datas, hdec, hclose⟩
    cases k with
    | zero =>
      cases hdec
      exact hclose.elim
    | succ k =>
      rw [List.take_succ_cons, Env.decodeAll_of_some hmsg] at hdec
      obtain ⟨rest, hrest, rfl⟩ := Option.map_eq_some_iff.mp hdec
      exact ⟨k, rest, hrest, (hcloses rest).mp hclose⟩
  · rintro ⟨k, rest, hrest, hclose⟩
    refine ⟨k + 1, msg :: rest, ?_, (hcloses rest).mpr hclose⟩
    rw [List.take_succ_cons, Env.decodeAll_of_some hmsg, hrest]
    rfl

/-- The interface closes an open session on a message if and only if it reads as closed
after that. -/
theorem closes_whole_iff {W : Worker} {S : Session} (hS : W.session fd = some S)
    (hopen : S.status ≠ .closed) (msg : List UInt8) :
    Closes h fd S.conn (dispCall S) (whole [msg]) W
      ↔ (W.give h fd S.conn (dispCall S) msg (some msg)).status fd = .closed := by
  refine (closes_singleton_iff hS h S.conn (dispCall S) msg (some msg)).trans ?_
  rw [status]
  split
  · rename_i hnone
    exact iff_of_true hnone rfl
  · rename_i T hT
    obtain hkept | hnone := session_give h fd S.conn (dispCall S) msg (some msg) W
    · rw [hT, hS] at hkept
      rw [hT, Option.some.inj hkept]
      exact iff_of_false (by simp) hopen
    · rw [hT] at hnone
      cases hnone

/-- A session that is closed already is served well. -/
theorem dispTcpBody_of_closed {W : Worker} {S : Session} (hS : W.session fd = some S)
    (hclosed : S.status = .closed) :
    ∃ W', dispTcpBody E h fd W = .stop W' ∧ W'.status fd = .closed := by
  have hst : W.status fd = .closed := by rw [status_of_session hS, hclosed]
  have hgive (msg : List UInt8) :
      (W.give h fd S.conn (dispCall S) msg (some msg)).status fd = .closed := by
    obtain hkept | hgone := session_give h fd S.conn (dispCall S) msg (some msg) W
    · rw [status, hkept]
      exact hst
    · rw [status, hgone]
  have hbody := dispTcpBody_of_session (E := E) (h := h) hS
  split at hbody
  · exact ⟨W, hbody, hst⟩
  · split at hbody
    · exact ⟨W.countCipher, hbody, hst⟩
    · dsimp only at hbody
      rw [if_neg (not_not.mpr (hgive _))] at hbody
      exact ⟨_, hbody, hgive _⟩

/-- **The loop serves an open session well if and only if its bytes can be served.** -/
theorem whileTrue_flows_iff (n : ℕ) (W : Worker) (S : Session) (hS : W.session fd = some S)
    (hopen : S.status ≠ .closed) (hn : W.pending fd < n) :
    Flows E fd (LoopStep.whileTrue (dispTcpBody E h fd) n W)
      ↔ Servable E h fd S S.input W := by
  induction n generalizing W S with
  | zero => exact absurd hn (Nat.not_lt_zero _)
  | succ n ih =>
    have hflows : Flows E fd W ↔ Begins E.width E.stray S.input := by
      unfold Flows
      rw [status_of_session hS, hS]
      simp [hopen]
    have hbody := dispTcpBody_of_session (E := E) (h := h) hS
    cases hpack : parsePack E.width E.stray S.input with
    | none =>
      rw [hpack] at hbody
      rw [LoopStep.whileTrue_stop hbody, hflows, servable_of_none hpack,
        begins_iff_unfinished hpack]
    | some pack =>
      rw [hpack] at hbody
      dsimp only at hbody
      cases hmsg : E.decodeMsg W.ciphers (svLink S) pack.msg with
      | none =>
        -- the message stays in the buffer, and more bytes do not change it
        rw [hmsg] at hbody
        rw [LoopStep.whileTrue_stop hbody]
        show Flows E fd W ↔ _
        refine iff_of_false (fun hwait => ?_) (not_servable_of_refused hpack hmsg)
        rw [(hflows.mp hwait).parsePack] at hpack
        cases hpack
      | some msg =>
        rw [hmsg] at hbody
        dsimp only at hbody
        have hcloses := closes_whole_iff (h := h) hS hopen msg
        by_cases hst : (W.give h fd S.conn (dispCall S) msg (some msg)).status fd = .closed
        · rw [if_neg (not_not.mpr hst)] at hbody
          rw [LoopStep.whileTrue_stop hbody]
          exact iff_of_true (.inl hst) (servable_of_closed hpack hmsg (hcloses.mpr hst))
        · rw [if_pos hst] at hbody
          have hlt := dispTcpBody_next_lt hbody
          have hses : (W.give h fd S.conn (dispCall S) msg (some msg)).session fd = some S := by
            obtain hkept | hgone := session_give h fd S.conn (dispCall S) msg (some msg) W
            · rw [hkept, hS]
            · rw [status, hgone] at hst
              exact absurd rfl hst
          rw [LoopStep.whileTrue_next hbody, servable_iff_of_open hpack hmsg (hcloses.not.mpr hst)]
          rw [delBuffer_of_session hses] at hlt ⊢
          exact (ih _ { S with input := S.input.drop pack.parsedLens }
            (session_setSession_same _ _ _) hopen (by omega)).trans
            (servable_congr rfl rfl (.symm (.setSession hses rfl rfl)) rfl)

end Progress

/-- **`dispTcp` is not stuck if and only if the bytes received can be served**, for
every content of the read buffer, every outcome of the ciphers and every
handler: then, and only then, it leaves the session closed or a buffer that
begins a frame. -/
theorem dispTcp_flows_iff (E : Env) (h : Handler) (fd : QSock) (W : Worker) (S : Session)
    (hS : W.session fd = some S) :
    Flows E fd (dispTcp E h fd W) ↔ S.status = .closed ∨ Servable E h fd S S.input W := by
  by_cases hclosed : S.status = .closed
  · obtain ⟨W', hbody, hst⟩ := dispTcpBody_of_closed (E := E) (h := h) hS hclosed
    rw [dispTcp, LoopStep.whileTrue_stop hbody]
    exact iff_of_true (.inl hst) (.inl hclosed)
  · rw [or_iff_right hclosed]
    exact whileTrue_flows_iff _ W S hS hclosed (Nat.lt_succ_self _)

/-- Ciphers that refuse the message "?". -/
def pickyEnv : Env :=
  ⟨.bits64, [], fun _ _ msg => some msg, fun _ _ msg => if msg = [63] then none else some msg,
    fun _ => .more⟩

/-- A handler that closes the session on the message "q". -/
def quitHandler : Handler := fun _ sock msg => if msg = [113] then [sock] else []

/-- A message and the start of the next one; and a message on which the session is closed,
before one that does not decode. -/
theorem dispTcp_flows_twoFrames :
    Flows pickyEnv 5 (dispTcp pickyEnv quitHandler 5
        (start.setSession 5 ⟨.tcp, .linked, 0, [1, 65, 126, 1], [], 0⟩))
      ∧ Flows pickyEnv 5 (dispTcp pickyEnv quitHandler 5
        (start.setSession 5 ⟨.tcp, .linked, 0, [1, 65, 1, 113, 1, 63], [], 0⟩)) := by
  constructor
  · have hcut : cut .bits64 [] [1, 65, 126, 1] = ([[65]], [126, 1]) := by
      have hpack : parsePack .bits64 [] [1, 65, 126, 1] = some ⟨2, 1, [65]⟩ := by decide
      rw [cut_of_some hpack]
      dsimp only [List.drop]
      rw [cut_of_none (by decide)]
    refine (dispTcp_flows_iff _ _ 5 _ _ (session_setSession_same _ _ _)).mpr (.inr (.inr ?_))
    show (pickyEnv.decodeAll _ _ (cut .bits64 [] [1, 65, 126, 1]).1).isSome
      ∧ Unfinished .bits64 (cut .bits64 [] [1, 65, 126, 1]).2
    rw [hcut]
    exact ⟨rfl, by decide⟩
  · have hcut : cut .bits64 [] [1, 65, 1, 113, 1, 63] = ([[65], [113], [63]], []) := by
      have hpack (b : UInt8) (rest : List UInt8) :
          parsePack .bits64 [] (1 :: b :: rest) = some ⟨2, 1, [b]⟩ := by
        cases rest <;> rfl
      rw [cut_of_some (hpack 65 _)]
      dsimp only [List.drop]
      rw [cut_of_some (hpack 113 _)]
      dsimp only [List.drop]
      rw [cut_of_some (hpack 63 _)]
      dsimp only [List.drop]
      rw [cut_of_none (by decide)]
    refine (dispTcp_flows_iff _ _ 5 _ _ (session_setSession_same _ _ _)).mpr
      (.inr (.inl ⟨2, [[65], [113]], ?_, ?_⟩))
    · show pickyEnv.decodeAll _ _ ((cut .bits64 [] [1, 65, 1, 113, 1, 63]).1.take 2) = _
      rw [hcut]
      rfl
    · exact .inr (.inl ⟨by decide, [113], rfl, by decide⟩)

/-- **A head byte of 200 blocks the session**: the loop returns with the session
open and every byte still there, though no frame begins with them. The same
holds of a message that the ciphers refuse. -/
theorem dispTcp_stuck :
    (let W := dispTcp (.plain .bits64 fun _ => .more) (fun _ _ _ => []) 5
      (start.setSession 5 ⟨.tcp, .linked, 0, [200, 1, 65], [], 0⟩)
    (W.session 5).map Session.input = some [200, 1, 65] ∧ W.status 5 = .linked
      ∧ W.log = [] ∧ ¬ Flows (.plain .bits64 fun _ => .more) 5 W)
    ∧ (let E : Env := ⟨.bits64, [], fun _ _ msg => some msg, fun _ _ _ => none, fun _ => .more⟩
      let W := dispTcp E (fun _ _ _ => []) 5
        (start.setSession 5 ⟨.tcp, .linked, 0, [1, 65, 1, 66], [], 0⟩)
      (W.session 5).map Session.input = some [1, 65, 1, 66] ∧ W.status 5 = .linked
        ∧ W.log = [] ∧ ¬ Flows E 5 W) := by
  have hin : ∀ {W : Worker} {S : Session} {buf : List UInt8},
      (W.session 5).map Session.input = some buf → W.session 5 = some S → S.input = buf := by
    intro W S buf hmap hS
    rw [hS] at hmap
    exact Option.some.inj hmap
  refine ⟨⟨by decide, by decide, by decide, ?_⟩, by decide, by decide, by decide, ?_⟩
  · rintro (hst | ⟨S, hS, hbuf⟩)
    · exact absurd hst (by decide)
    · rw [hin (show _ = some [200, 1, 65] by decide) hS] at hbuf
      exact absurd hbuf.unfinished (by decide)
  · rintro (hst | ⟨S, hS, hbuf⟩)
    · exact absurd hst (by decide)
    · rw [hin (show _ = some [1, 65, 1, 66] by decide) hS] at hbuf
      exact absurd hbuf.parsePack (by decide)

end Worker
