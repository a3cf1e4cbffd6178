import QService.ByteOrder
import QService.Chunks
import QService.QString

/-!
# `CBase64`

Three bytes become four characters of six bits each. What is left at the end
is filled up with zero bits, and the text with `=`. The decoder takes four
characters at a time, up to the first one that is not of the alphabet; of three or two
characters that are left it looks up zeros too, which are not of the alphabet,
and leaves out the bytes they would make.

What the coding is for is said by `standard`, in bits: the bits of the text in groups of
six, one character for each group. `encode` computes it, and `decode` undoes it
(`decode_encode`).
-/

namespace Base64

open ByteOrder Chunks QString

/-! ## The code -/

/-- `base64_chars`. -/
def chars : List UInt8 :=
  ascii "ABCDEFGHIJKLMNOPQRSTUVWXYZabcdefghijklmnopqrstuvwxyz0123456789+/"

/-- `base64_chars[c]`. -/
def char (c : UInt8) : UInt8 := chars.getD c.toNat 0

/-- The four values of `char_array_4` for the three bytes of `char_array_3`. -/
def group (a b c : UInt8) : List UInt8 :=
  [(a &&& 0xfc) >>> 2,
    ((a &&& 0x03) <<< 4) + ((b &&& 0xf0) >>> 4),
    ((b &&& 0x0f) <<< 2) + ((c &&& 0xc0) >>> 6),
    c &&& 0x3f]

/-- `CBase64::Encode`. -/
def encode : List UInt8 → List UInt8
  | a :: b :: c :: data => (group a b c).map char ++ encode data
  | [a, b] => ((group a b 0).take 3).map char ++ [61]
  | [a] => ((group a 0 0).take 2).map char ++ [61, 61]
  | [] => []

example : encode (ascii "foobar") = ascii "Zm9vYmFy" := by decide

example : encode (ascii "foob") = ascii "Zm9vYg==" := by decide

/-- `is_base64`. -/
def isBase64 (c : UInt8) : Bool := isAlnum c || c = 43 || c = 47

/-- `base64_chars.find(c)` in an `unsigned char`, which makes 255 of `npos`. -/
def index (c : UInt8) : UInt8 :=
  match chars.findIdx? (· = c) with
  | none => 255
  | some i => UInt8.ofNat i

/-- The three bytes of `char_array_3` for the four values of `char_array_4`. -/
def ungroup (a b c d : UInt8) : List UInt8 :=
  [(a <<< 2) + ((b &&& 0x30) >>> 4),
    ((b &&& 0xf) <<< 4) + ((c &&& 0x3c) >>> 2),
    ((c &&& 0x3) <<< 6) + d]

/-- What `Decode` appends for the four characters in `char_array_4`. -/
def decodeGroup (arr : List UInt8) : List UInt8 :=
  ungroup (index (arr.getD 0 0)) (index (arr.getD 1 0)) (index (arr.getD 2 0))
    (index (arr.getD 3 0))

/-- What `Decode` appends behind its loop for the `i` characters that are left. The others are
zeros. -/
def decodeRest (arr : List UInt8) : List UInt8 := (decodeGroup arr).take (arr.length - 1)

/-- What the loop of `Decode` appends, with the `i` characters in `char_array_4`. -/
def decodeLoop : List UInt8 → List UInt8 → List UInt8
  | arr, [] => decodeRest arr
  | arr, c :: strEncoded =>
    if c ≠ 61 ∧ isBase64 c then
      if arr.length = 3 then decodeGroup (arr ++ [c]) ++ decodeLoop [] strEncoded
      else decodeLoop (arr ++ [c]) strEncoded
    else decodeRest arr

/-- `CBase64::Decode`. The text is short enough for its `int` index. -/
def decode (strEncoded : List UInt8) : List UInt8 := decodeLoop [] strEncoded

/-! ## What is meant -/

/-- The number that bits spell, the highest first. -/
def ofBits (bits : List Bool) : ℕ := bits.foldl (fun v b => 2 * v + b.toNat) 0

/-- The characters of the standard alphabet. -/
def alphabet (v : ℕ) : UInt8 :=
  UInt8.ofNat (if v < 26 then 65 + v else if v < 52 then 97 + (v - 26)
    else if v < 62 then 48 + (v - 52) else if v = 62 then 43 else 47)

/-- The character of a group of bits, which is filled up with zeros at its end. -/
def groupChar (g : List Bool) : UInt8 := alphabet (ofBits (g.rightpad 6 false))

/-- A text is filled up to a multiple of four characters. -/
def padText (text : List UInt8) : List UInt8 := text.rightpad ((text.length + 3) / 4 * 4) 61

/-- **The standard Base64 text** of a byte string: a character for each six of its bits. -/
def standard (data : List UInt8) : List UInt8 :=
  padText ((chunks 6 (data.flatMap byteBits)).map groupChar)

/-! ## Bits and numbers -/

/-- What `Encode` takes of a byte, as numbers. -/
theorem toNat_encode_bits : ∀ b : UInt8,
    ((b &&& 0xfc) >>> 2).toNat = b.toNat / 4 ∧ ((b &&& 0x03) <<< 4).toNat = b.toNat % 4 * 16
      ∧ ((b &&& 0xf0) >>> 4).toNat = b.toNat / 16 ∧ ((b &&& 0x0f) <<< 2).toNat = b.toNat % 16 * 4
      ∧ ((b &&& 0xc0) >>> 6).toNat = b.toNat / 64 ∧ (b &&& 0x3f).toNat = b.toNat % 64 :=
  forall_byte (by decide +kernel)

/-- What `Decode` takes of a value. -/
theorem toNat_decode_bits : ∀ v : UInt8,
    (v <<< 2).toNat = v.toNat % 64 * 4 ∧ ((v &&& 0x30) >>> 4).toNat = v.toNat / 16 % 4
      ∧ ((v &&& 0xf) <<< 4).toNat = v.toNat % 16 * 16
      ∧ ((v &&& 0x3c) >>> 2).toNat = v.toNat / 4 % 16
      ∧ ((v &&& 0x3) <<< 6).toNat = v.toNat % 4 * 64 :=
  forall_byte (by decide +kernel)

/-- The numbers that the bits of a byte spell, from its ends. -/
theorem ofBits_byte : ∀ b : UInt8,
    ofBits ([7, 6, 5, 4, 3, 2].map b.toNat.testBit) = b.toNat / 4
      ∧ ofBits ([1, 0].map b.toNat.testBit) = b.toNat % 4
      ∧ ofBits ([7, 6, 5, 4].map b.toNat.testBit) = b.toNat / 16
      ∧ ofBits ([3, 2, 1, 0].map b.toNat.testBit) = b.toNat % 16
      ∧ ofBits ([7, 6].map b.toNat.testBit) = b.toNat / 64
      ∧ ofBits ([5, 4, 3, 2, 1, 0].map b.toNat.testBit) = b.toNat % 64 :=
  forall_byte (by decide +kernel)

/-- **The values of a group**, six bits each. -/
theorem map_toNat_group (a b c : UInt8) :
    (group a b c).map UInt8.toNat
      = [a.toNat / 4, a.toNat % 4 * 16 + b.toNat / 16, b.toNat % 16 * 4 + c.toNat / 64,
        c.toNat % 64] := by
  have hb := b.toNat_lt
  have hc := c.toNat_lt
  obtain ⟨ha₁, ha₂, -⟩ := toNat_encode_bits a
  obtain ⟨-, -, hb₁, hb₂, -⟩ := toNat_encode_bits b
  obtain ⟨-, -, -, -, hc₁, hc₂⟩ := toNat_encode_bits c
  have hsecond : (((a &&& 0x03) <<< 4) + ((b &&& 0xf0) >>> 4)).toNat
      = a.toNat % 4 * 16 + b.toNat / 16 := by
    rw [UInt8.toNat_add, ha₂, hb₁]
    omega
  have hthird : (((b &&& 0x0f) <<< 2) + ((c &&& 0xc0) >>> 6)).toNat
      = b.toNat % 16 * 4 + c.toNat / 64 := by
    rw [UInt8.toNat_add, hb₂, hc₁]
    omega
  simp only [group, List.map_cons, List.map_nil, ha₁, hsecond, hthird, hc₂]

theorem ofBits_append (l m : List Bool) :
    ofBits (l ++ m) = ofBits l * 2 ^ m.length + ofBits m := by
  have hfold : ∀ (v : ℕ) (m : List Bool),
      m.foldl (fun v b => 2 * v + b.toNat) v = v * 2 ^ m.length + ofBits m := by
    intro v m
    unfold ofBits
    induction m generalizing v with
    | nil => simp
    | cons b m ih =>
      rw [List.foldl_cons, List.foldl_cons, ih, ih (2 * 0 + b.toNat), List.length_cons, pow_succ]
      ring
  rw [ofBits, List.foldl_append, hfold]
  rfl

/-! ## Encoding -/

theorem char_eq_alphabet : ∀ v : UInt8, v.toNat < 64 → char v = alphabet v.toNat :=
  forall_byte (by decide +kernel)

/-- The values of a group have six bits. -/
theorem lt_of_mem_group {a b c v : UInt8} (hv : v ∈ group a b c) : v.toNat < 64 := by
  have hmem := List.mem_map_of_mem (f := UInt8.toNat) hv
  have ha := a.toNat_lt
  have hb := b.toNat_lt
  have hc := c.toNat_lt
  rw [map_toNat_group] at hmem
  simp only [List.mem_cons, List.not_mem_nil, or_false] at hmem
  omega

/-- The characters of a group. -/
theorem map_char_group (a b c : UInt8) :
    (group a b c).map char
      = [a.toNat / 4, a.toNat % 4 * 16 + b.toNat / 16, b.toNat % 16 * 4 + c.toNat / 64,
        c.toNat % 64].map alphabet := by
  rw [← map_toNat_group, List.map_map]
  exact List.map_congr_left fun v hv => char_eq_alphabet v (lt_of_mem_group hv)

/-- A whole quantum of four characters needs no filling. -/
theorem padText_append {l : List UInt8} (hl : l.length = 4) (text : List UInt8) :
    padText (l ++ text) = l ++ padText text := by
  have hceil : (4 + text.length + 3) / 4 * 4 = 4 + (text.length + 3) / 4 * 4 := by omega
  rw [padText, padText, List.rightpad, List.rightpad, List.length_append, hl, hceil,
    Nat.add_sub_add_left, List.append_assoc]

/-- The groups of three bytes. -/
def bitGroups (a b c : UInt8) : List (List Bool) :=
  [[7, 6, 5, 4, 3, 2].map a.toNat.testBit,
    [1, 0].map a.toNat.testBit ++ [7, 6, 5, 4].map b.toNat.testBit,
    [3, 2, 1, 0].map b.toNat.testBit ++ [7, 6].map c.toNat.testBit,
    [5, 4, 3, 2, 1, 0].map c.toNat.testBit]

/-- **The values of `char_array_4` are the groups of bits.** -/
theorem map_groupChar (a b c : UInt8) :
    (bitGroups a b c).map groupChar = (group a b c).map char := by
  have hone : ∀ l : List Bool, l.length = 6 → groupChar l = alphabet (ofBits l) := by
    intro l hl
    rw [groupChar, List.rightpad, hl, Nat.sub_self, List.replicate_zero, List.append_nil]
  simp only [bitGroups, List.map_cons (f := groupChar), List.map_nil (f := groupChar)]
  obtain ⟨ha₁, ha₂, -⟩ := ofBits_byte a
  obtain ⟨-, -, hb₁, hb₂, -⟩ := ofBits_byte b
  obtain ⟨-, -, -, -, hc₁, hc₂⟩ := ofBits_byte c
  rw [hone _ rfl, hone _ rfl, hone _ rfl, hone _ rfl, ofBits_append, ofBits_append, ha₁, ha₂, hb₁,
    hb₂, hc₁, hc₂, map_char_group]
  rfl

/-- **Three bytes are four groups.** -/
theorem standard_cons (a b c : UInt8) (data : List UInt8) :
    standard (a :: b :: c :: data) = (group a b c).map char ++ standard data := by
  have hbits : (a :: b :: c :: data).flatMap byteBits
      = (bitGroups a b c).flatten ++ data.flatMap byteBits := rfl
  have hlen : ∀ g ∈ bitGroups a b c, g.length = 6 := by
    simp [bitGroups]
  unfold standard
  rw [hbits, chunks_flatten_append (by decide) hlen, List.map_append, map_groupChar]
  exact padText_append rfl _

/-- Zero bits at the end of the last group are the bits of a byte zero. -/
theorem groupChar_rightpad {l m : List Bool} (h : l.length + m.length = 6)
    (hm : ∀ b ∈ m, b = false) : groupChar l = groupChar (l ++ m) := by
  have hm' : m = List.replicate (6 - l.length) false := by
    rw [List.eq_replicate_iff]
    exact ⟨by omega, hm⟩
  have hlen : (l ++ m).length = 6 := by rw [List.length_append, h]
  rw [groupChar, groupChar, List.rightpad, List.rightpad, hlen, Nat.sub_self, List.replicate_zero,
    List.append_nil, ← hm']

/-- The characters that fill up a text of `n`. -/
theorem padText_of_length {text : List UInt8} {n : ℕ} (h : text.length = n) :
    padText text = text ++ List.replicate ((n + 3) / 4 * 4 - n) 61 := by
  rw [padText, List.rightpad, h]

/-- **`Encode` gives the standard text.** -/
theorem encode_eq_standard (data : List UInt8) : encode data = standard data := by
  induction data using encode.induct with
  | case1 a b c data ih => rw [encode, standard_cons, ih]
  | case2 a b =>
    -- the last group has four bits
    have hlast : groupChar ([3, 2, 1, 0].map b.toNat.testBit)
        = groupChar ([3, 2, 1, 0].map b.toNat.testBit ++ [7, 6].map (0 : UInt8).toNat.testBit) :=
      groupChar_rightpad rfl (by decide)
    have hthree : ((group a b 0).take 3).map char
        = ((bitGroups a b 0).take 2).map groupChar
          ++ [groupChar ([3, 2, 1, 0].map b.toNat.testBit)] := by
      rw [hlast, List.map_take, ← map_groupChar]
      rfl
    have hstandard : standard [a, b]
        = padText (((bitGroups a b 0).take 2).map groupChar
          ++ [groupChar ([3, 2, 1, 0].map b.toNat.testBit)]) := by
      rw [standard]
      rfl
    rw [encode, hstandard, padText_of_length (n := 3) rfl, ← hthree]
    rfl
  | case3 a =>
    -- and here two
    have hlast : groupChar ([1, 0].map a.toNat.testBit)
        = groupChar ([1, 0].map a.toNat.testBit ++ [7, 6, 5, 4].map (0 : UInt8).toNat.testBit) :=
      groupChar_rightpad rfl (by decide)
    have htwo : ((group a 0 0).take 2).map char
        = ((bitGroups a 0 0).take 1).map groupChar
          ++ [groupChar ([1, 0].map a.toNat.testBit)] := by
      rw [hlast, List.map_take, ← map_groupChar]
      rfl
    have hstandard : standard [a]
        = padText (((bitGroups a 0 0).take 1).map groupChar
          ++ [groupChar ([1, 0].map a.toNat.testBit)]) := by
      rw [standard]
      rfl
    rw [encode, hstandard, padText_of_length (n := 2) rfl, ← htwo]
    rfl
  | case4 => rfl

/-! ## Decoding -/

/-- **The values of a group make its bytes.** The first byte needs the first two values only,
the second byte the first three. -/
theorem ungroup_group {a b c v w x y : UInt8} (hg : group a b c = [v, w, x, y]) :
    (∀ x' y', (ungroup v w x' y').take 1 = [a]) ∧ (∀ y', (ungroup v w x y').take 2 = [a, b])
      ∧ ungroup v w x y = [a, b, c] := by
  have hvalues := map_toNat_group a b c
  rw [hg] at hvalues
  simp only [List.map_cons, List.map_nil, List.cons.injEq, and_true] at hvalues
  obtain ⟨hv, hw, hx, hy⟩ := hvalues
  have ha := a.toNat_lt
  have hb := b.toNat_lt
  have hc := c.toNat_lt
  obtain ⟨hv₁, -⟩ := toNat_decode_bits v
  obtain ⟨-, hw₁, hw₂, -⟩ := toNat_decode_bits w
  obtain ⟨-, -, -, hx₁, hx₂⟩ := toNat_decode_bits x
  have hfirst : (v <<< 2) + ((w &&& 0x30) >>> 4) = a := by
    rw [← UInt8.toNat_inj, UInt8.toNat_add, hv₁, hw₁]
    omega
  have hsecond : ((w &&& 0xf) <<< 4) + ((x &&& 0x3c) >>> 2) = b := by
    rw [← UInt8.toNat_inj, UInt8.toNat_add, hw₂, hx₁]
    omega
  have hthird : ((x &&& 0x3) <<< 6) + y = c := by
    rw [← UInt8.toNat_inj, UInt8.toNat_add, hx₂]
    omega
  refine ⟨fun x' y' => ?_, fun y' => ?_, ?_⟩
  · rw [ungroup, hfirst, List.take_succ_cons, List.take_zero]
  · rw [ungroup, hfirst, hsecond, List.take_succ_cons, List.take_succ_cons, List.take_zero]
  · rw [ungroup, hfirst, hsecond, hthird]

/-- A character of the alphabet is taken, and its value is found. -/
theorem index_char : ∀ v : UInt8, v.toNat < 64 →
    (char v ≠ 61 ∧ isBase64 (char v) = true) ∧ index (char v) = v :=
  forall_byte (by decide +kernel)

/-- The loop keeps up to three characters. -/
theorem decodeLoop_keep {arr : List UInt8} {v : UInt8} (hv : v.toNat < 64) (harr : arr.length ≠ 3)
    (t : List UInt8) : decodeLoop arr (char v :: t) = decodeLoop (arr ++ [char v]) t := by
  rw [decodeLoop, if_pos (index_char v hv).1, if_neg harr]

/-- With the fourth it appends three bytes. -/
theorem decodeLoop_group {v w x y : UInt8} (hg : ∀ z ∈ [v, w, x, y], z.toNat < 64)
    (t : List UInt8) :
    decodeLoop [] ([v, w, x, y].map char ++ t) = ungroup v w x y ++ decodeLoop [] t := by
  have hindex : ∀ z ∈ [v, w, x, y], index (char z) = z := fun z hz => (index_char z (hg z hz)).2
  have hgroup : decodeGroup ([] ++ [char v] ++ [char w] ++ [char x] ++ [char y])
      = ungroup v w x y := by
    change ungroup (index (char v)) (index (char w)) (index (char x)) (index (char y)) = _
    rw [hindex v (by simp), hindex w (by simp), hindex x (by simp), hindex y (by simp)]
  change decodeLoop [] (char v :: char w :: char x :: char y :: t) = _
  rw [decodeLoop_keep (hg v (by simp)) (by simp), decodeLoop_keep (hg w (by simp)) (by simp),
    decodeLoop_keep (hg x (by simp)) (by simp), decodeLoop,
    if_pos (index_char y (hg y (by simp))).1, if_pos (by simp), hgroup]

/-- The loop ends at `=`. -/
theorem decodeLoop_pad (arr t : List UInt8) : decodeLoop arr (61 :: t) = decodeRest arr := by
  rw [decodeLoop, if_neg (by simp)]

/-- **Three characters and the filling make two bytes.** The value 255 is that of no character. -/
theorem decodeLoop_three {v w x : UInt8} (hg : ∀ z ∈ [v, w, x], z.toNat < 64) (t : List UInt8) :
    decodeLoop [] ([v, w, x].map char ++ 61 :: t) = (ungroup v w x 255).take 2 := by
  have hindex : ∀ z ∈ [v, w, x], index (char z) = z := fun z hz => (index_char z (hg z hz)).2
  change decodeLoop [] (char v :: char w :: char x :: 61 :: t) = _
  rw [decodeLoop_keep (hg v (by simp)) (by simp), decodeLoop_keep (hg w (by simp)) (by simp),
    decodeLoop_keep (hg x (by simp)) (by simp), decodeLoop_pad]
  change (ungroup (index (char v)) (index (char w)) (index (char x)) 255).take 2 = _
  rw [hindex v (by simp), hindex w (by simp), hindex x (by simp)]

/-- **Two characters and the filling make one byte.** -/
theorem decodeLoop_two {v w : UInt8} (hg : ∀ z ∈ [v, w], z.toNat < 64) (t : List UInt8) :
    decodeLoop [] ([v, w].map char ++ 61 :: t) = (ungroup v w 255 255).take 1 := by
  have hindex : ∀ z ∈ [v, w], index (char z) = z := fun z hz => (index_char z (hg z hz)).2
  change decodeLoop [] (char v :: char w :: 61 :: t) = _
  rw [decodeLoop_keep (hg v (by simp)) (by simp), decodeLoop_keep (hg w (by simp)) (by simp),
    decodeLoop_pad]
  change (ungroup (index (char v)) (index (char w)) 255 255).take 1 = _
  rw [hindex v (by simp), hindex w (by simp)]

/-- `Decode` undoes `Encode`. -/
theorem decodeLoop_encode (data : List UInt8) : decodeLoop [] (encode data) = data := by
  induction data using encode.induct with
  | case1 a b c data ih =>
    obtain ⟨v, w, x, y, hg⟩ : ∃ v w x y, group a b c = [v, w, x, y] := ⟨_, _, _, _, rfl⟩
    have hlt : ∀ z ∈ [v, w, x, y], z.toNat < 64 := fun z hz => lt_of_mem_group (hg ▸ hz)
    rw [encode, hg, decodeLoop_group hlt, ih, (ungroup_group hg).2.2]
    rfl
  | case2 a b =>
    obtain ⟨v, w, x, y, hg⟩ : ∃ v w x y, group a b 0 = [v, w, x, y] := ⟨_, _, _, _, rfl⟩
    have hlt : ∀ z ∈ [v, w, x], z.toNat < 64 := fun z hz =>
      lt_of_mem_group (hg ▸ List.mem_append_left [y] hz : z ∈ group a b 0)
    rw [encode, hg, ← (ungroup_group hg).2.1 255]
    exact decodeLoop_three hlt []
  | case3 a =>
    obtain ⟨v, w, x, y, hg⟩ : ∃ v w x y, group a 0 0 = [v, w, x, y] := ⟨_, _, _, _, rfl⟩
    have hlt : ∀ z ∈ [v, w], z.toNat < 64 := fun z hz =>
      lt_of_mem_group (hg ▸ List.mem_append_left [x, y] hz : z ∈ group a 0 0)
    rw [encode, hg, ← (ungroup_group hg).1 255 255]
    exact decodeLoop_two hlt [61]
  | case4 => rfl

/-- **Base64 is correct.** `Encode` gives the standard text of every byte string, and `Decode` of
it the byte string again. -/
theorem decode_encode (data : List UInt8) :
    encode data = standard data ∧ decode (encode data) = data :=
  ⟨encode_eq_standard data, decodeLoop_encode data⟩

end Base64
