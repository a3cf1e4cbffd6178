import QService.ByteOrder
import QService.QString

/-!
# URL coding

`urlEncode` leaves letters, digits and four marks as they are, writes a blank as `+`
and any other byte as `%` and two hexadecimal digits. `urlDecode` goes through the
text, and at a `%` asserts that two more characters are there and that they are
digits.

A byte is encoded on its own, so decoding undoes it byte by byte
(`urlDecode_append`): the decoder stands at the start of what one byte was encoded
to, and moves behind it.
-/

namespace UrlCode

open ByteOrder QString

/-! ## The code -/

/-- `CEncrypt::toHex`. -/
def toHex (x : UInt8) : UInt8 := if x > 9 then x + 55 else x + 48

/-- `CEncrypt::fromHex`, with `none` if the assertion fails. -/
def fromHex (x : UInt8) : Option UInt8 :=
  if 65 ≤ x ∧ x ≤ 90 then some (x - 65 + 10)
  else if 97 ≤ x ∧ x ≤ 122 then some (x - 97 + 10)
  else if 48 ≤ x ∧ x ≤ 57 then some (x - 48)
  else none

/-- What a round of the loop of `urlEncode` appends: the byte itself, also for `-`, `_`, `.` and
`~`, or `+`, or `%` and the two halves of the byte. -/
def encodeChar (c : UInt8) : List UInt8 :=
  if isAlnum c ∨ c = 45 ∨ c = 95 ∨ c = 46 ∨ c = 126 then [c]
  else if c = 32 then [43]
  else [37, toHex (c >>> 4), toHex (c % 16)]

/-- `CEncrypt::urlEncode`. -/
def urlEncode (strVal : List UInt8) : List UInt8 := strVal.flatMap encodeChar

/-- `CEncrypt::urlDecode`, with `none` if an assertion fails: at a `%` two more characters are
needed, and both must be digits. -/
def urlDecode : List UInt8 → Option (List UInt8)
  | [] => some []
  | c :: strVal =>
    if c = 43 then (urlDecode strVal).map (32 :: ·)
    else if c = 37 then
      match strVal with
      | high :: low :: strVal => do
        let cHigh ← fromHex high
        let cLow ← fromHex low
        (urlDecode strVal).map ((cHigh * 16 + cLow) :: ·)
      | _ => none
    else (urlDecode strVal).map (c :: ·)

example : urlEncode (ascii "a b+" ++ [0xFC]) = ascii "a+b%2B%FC" := by decide

/-! ## The round trip -/

/-- The digit of a half of a byte is read back. -/
theorem fromHex_toHex : ∀ x : UInt8, x < 16 → fromHex (toHex x) = some x :=
  forall_byte (by decide +kernel)

/-- A byte is made of its halves. -/
theorem halves : ∀ c : UInt8, c >>> 4 < 16 ∧ c % 16 < 16 ∧ c >>> 4 * 16 + c % 16 = c :=
  forall_byte (by decide +kernel)

/-- What is left as it is does not stand for something else. -/
theorem ne_of_plain {c : UInt8} (hc : isAlnum c ∨ c = 45 ∨ c = 95 ∨ c = 46 ∨ c = 126) :
    c ≠ 43 ∧ c ≠ 37 := by
  constructor
  · rintro rfl
    revert hc
    decide
  · rintro rfl
    revert hc
    decide

/-- **The decoder reads back what one byte was encoded to**, and goes on behind it. -/
theorem urlDecode_append (c : UInt8) (strVal : List UInt8) :
    urlDecode (encodeChar c ++ strVal) = (urlDecode strVal).map (c :: ·) := by
  unfold encodeChar
  split_ifs with hplain hblank
  · obtain ⟨hplus, hpercent⟩ := ne_of_plain hplain
    rw [List.singleton_append, urlDecode.eq_def]
    dsimp only
    rw [if_neg hplus, if_neg hpercent]
  · rw [List.singleton_append, urlDecode.eq_def, hblank]
    dsimp only
    rw [if_pos rfl]
  · obtain ⟨hhigh, hlow, hsum⟩ := halves c
    rw [List.cons_append, List.cons_append, List.singleton_append, urlDecode.eq_def]
    dsimp only
    rw [if_neg (by decide), if_pos rfl, fromHex_toHex _ hhigh, fromHex_toHex _ hlow]
    show (urlDecode strVal).map ((c >>> 4 * 16 + c % 16) :: ·) = _
    rw [hsum]

/-- **URL coding loses nothing**: no assertion fails on what `urlEncode` gives, and `urlDecode`
gives back the string. -/
theorem urlDecode_urlEncode (strVal : List UInt8) : urlDecode (urlEncode strVal) = some strVal := by
  induction strVal with
  | nil => rfl
  | cons c strVal ih =>
    show urlDecode (encodeChar c ++ urlEncode strVal) = _
    rw [urlDecode_append, ih]
    rfl

end UrlCode
