import QService.ByteOrder

/-!
# The host: machine words and read buffers

The parsers depend on the machine they run on in three places: the width of
`size_t`, the sign of `char`, and the order of bytes in memory, which
`ntohl64` tests for itself.

`CEventBuffer` wraps the two buffers of a libevent connection. The parsers
see the read side only: how many bytes there are, a contiguous view of the
first `n` of them, and a way to drop them. A read buffer is the list of its
bytes.
-/

/-- The two widths of `size_t` the code is built for. -/
inductive Width
  | bits32
  | bits64
  deriving DecidableEq, Repr

namespace Width

/-- `sizeof(size_t)`. -/
def bytes : Width → ℕ
  | bits32 => 4
  | bits64 => 8

/-- The number of values a `size_t` has. -/
def modulus (w : Width) : ℕ := 256 ^ w.bytes

theorem four_le_bytes (w : Width) : 4 ≤ w.bytes := by
  cases w <;> decide

theorem two_pow_le_modulus (w : Width) : 2 ^ 32 ≤ w.modulus := by
  cases w <;> decide

theorem modulus_pos (w : Width) : 0 < w.modulus := Nat.pow_pos (by norm_num)

theorem lt_modulus (w : Width) {n : ℕ} (h : n < 2 ^ 32) : n < w.modulus :=
  h.trans_le w.two_pow_le_modulus

theorem modulus_le (w : Width) : w.modulus ≤ 256 ^ 8 := by
  cases w <;> decide

/-- Conversion of an integer to `size_t`. -/
def toSize (w : Width) (i : ℤ) : ℕ := (i % w.modulus).toNat

theorem toSize_natCast (w : Width) {n : ℕ} (h : n < 2 ^ 32) : w.toSize n = n := by
  have hm := w.two_pow_le_modulus
  rw [toSize, ← Int.natCast_mod, Int.toNat_natCast, Nat.mod_eq_of_lt (by omega)]

/-- A difference of two values of `size_t`. -/
def subSize (w : Width) (a b : ℕ) : ℕ := if b ≤ a then a - b else a + w.modulus - b

theorem subSize_of_le {w : Width} {a b : ℕ} (h : b ≤ a) : w.subSize a b = a - b := if_pos h

end Width

/-- The value of a byte read as a (signed) `char`. -/
def signedChar (b : UInt8) : ℤ := if b.toNat < 128 then b.toNat else b.toNat - 256

open ByteOrder in
/-- `ntohl64`: on a little-endian host the two halves are converted with
`ntohl` and exchanged. -/
def ntohl64 (e : Endian) (host : ℕ) : ℕ :=
  match e with
  | .little =>
    let ulLow := host % 2 ^ 32
    let ulHigh := host / 2 ^ 32 % 2 ^ 32
    ntoh .little 4 ulLow * 2 ^ 32 + ntoh .little 4 ulHigh
  | .big => host

open ByteOrder in
/-- **`ntohl64` of a loaded value reads eight big-endian bytes.** -/
theorem ntohl64_load (e : Endian) {bs : List UInt8} (h : bs.length = 8) :
    ntohl64 e (load e bs) = ofBE bs := by
  cases e with
  | big => rfl
  | little =>
    have hlo : (bs.take 4).length = 4 := by rw [List.length_take]; omega
    have hhi : (bs.drop 4).length = 4 := by rw [List.length_drop]; omega
    have hlt := ofLE_lt (bs.take 4)
    have hlt' := ofLE_lt (bs.drop 4)
    rw [hlo] at hlt
    rw [hhi] at hlt'
    have hsplit : ofLE bs = ofLE (bs.take 4) + 2 ^ 32 * ofLE (bs.drop 4) := by
      conv_lhs => rw [← List.take_append_drop 4 bs, ofLE_append, hlo]
      norm_num
    have h₁ := ntoh_load .little (bs.take 4)
    have h₂ := ntoh_load .little (bs.drop 4)
    rw [hlo] at h₁
    rw [hhi] at h₂
    have hlow : ofLE bs % 2 ^ 32 = load .little (bs.take 4) := by
      show _ = ofLE (bs.take 4)
      omega
    have hhigh : ofLE bs / 2 ^ 32 % 2 ^ 32 = load .little (bs.drop 4) := by
      show _ = ofLE (bs.drop 4)
      omega
    show ntoh .little 4 (ofLE bs % 2 ^ 32) * 2 ^ 32
      + ntoh .little 4 (ofLE bs / 2 ^ 32 % 2 ^ 32) = _
    rw [hlow, hhigh, h₁, h₂]
    conv_rhs => rw [← List.take_append_drop 4 bs, ofBE_append, hhi]
    norm_num

namespace EventBuffer

/-- `CEventBuffer::readBuffer`: `evbuffer_pullup` gives the first `iLens`
bytes in one piece, and NULL for none or for more than there are. -/
def readBuffer (buf : List UInt8) (iLens : ℕ) : Option (List UInt8) :=
  if iLens = 0 ∨ buf.length < iLens then none else some (buf.take iLens)

/-- `CEventBuffer::delBuffer`: `evbuffer_drain` drops the first `iLens` bytes,
all of them when there are fewer. -/
def delBuffer (buf : List UInt8) (iLens : ℕ) : List UInt8 := buf.drop iLens

theorem readBuffer_of_le {buf : List UInt8} {n : ℕ} (h₀ : n ≠ 0) (h : n ≤ buf.length) :
    readBuffer buf n = some (buf.take n) := by
  rw [readBuffer, if_neg (by omega)]

theorem readBuffer_eq_some {buf p : List UInt8} {n : ℕ} (h : readBuffer buf n = some p) :
    n ≠ 0 ∧ n ≤ buf.length ∧ p = buf.take n := by
  rw [readBuffer] at h
  split at h
  · cases h
  · rename_i hn
    cases h
    exact ⟨by omega, by omega, rfl⟩

end EventBuffer
