import QService.ByteOrder
import Mathlib.Data.Nat.Digits.Defs
import Mathlib.Data.List.TakeWhile

/-!
# C integers

An integer type of C has a width and is signed or not. A value of another
integer type is converted to it modulo the width, the same bits stand for it in
memory, and streams print it in decimal and read it back. A number that is too
large for the type is read as the largest or smallest value.

Nothing here is about one program. The law that matters is that reading a
decimal text of a value of the type gives the value (`read_of_isDecimal`), and
that the text which is printed is one (`isDecimal_print`).
-/

/-- An integer type. -/
structure CInt where
  signed : Bool
  bytes : ℕ
  bytes_pos : 0 < bytes

namespace CInt

/-- A signed `char`. -/
def char : CInt := ⟨true, 1, by decide⟩
/-- `unsigned char`. -/
def unsignedChar : CInt := ⟨false, 1, by decide⟩
/-- `short`. -/
def short : CInt := ⟨true, 2, by decide⟩
/-- `unsigned short`. -/
def unsignedShort : CInt := ⟨false, 2, by decide⟩
/-- `int`. -/
def int : CInt := ⟨true, 4, by decide⟩
/-- `unsigned int`. -/
def unsignedInt : CInt := ⟨false, 4, by decide⟩
/-- `int64_t`. -/
def int64 : CInt := ⟨true, 8, by decide⟩
/-- `uint64_t`. -/
def uint64 : CInt := ⟨false, 8, by decide⟩

/-- The number of values. -/
def modulus (T : CInt) : ℕ := 256 ^ T.bytes

/-- The smallest value. -/
def min (T : CInt) : ℤ := if T.signed then -(T.modulus / 2) else 0

/-- The largest value. -/
def max (T : CInt) : ℤ := if T.signed then T.modulus / 2 - 1 else T.modulus - 1

/-- The values of the type. -/
def Fits (T : CInt) (z : ℤ) : Prop := T.min ≤ z ∧ z ≤ T.max

instance (T : CInt) (z : ℤ) : Decidable (T.Fits z) := inferInstanceAs (Decidable (_ ∧ _))

/-- Conversion to the type. -/
def cast (T : CInt) (z : ℤ) : ℤ := if T.signed then z.bmod T.modulus else z % T.modulus

/-- The bits of a value, as an unsigned number. -/
def toBits (T : CInt) (z : ℤ) : ℕ := (z % T.modulus).toNat

/-- A number of values is even. -/
theorem exists_modulus_eq (T : CInt) : ∃ k : ℕ, 0 < k ∧ T.modulus = 2 * k := by
  obtain ⟨n, hn⟩ := Nat.exists_eq_succ_of_ne_zero T.bytes_pos.ne'
  refine ⟨128 * 256 ^ n, by positivity, ?_⟩
  rw [modulus, hn, pow_succ]
  ring

/-- **The values of the type are converted to themselves.** -/
theorem cast_of_fits {T : CInt} {z : ℤ} (h : T.Fits z) : T.cast z = z := by
  obtain ⟨k, hk, hmod⟩ := T.exists_modulus_eq
  obtain ⟨hmin, hmax⟩ := h
  unfold min at hmin
  unfold max at hmax
  unfold cast
  rw [hmod] at *
  push_cast at *
  split
  · rename_i hs
    rw [if_pos hs] at hmin hmax
    exact Int.bmod_eq_of_le (by omega) (by omega)
  · rename_i hs
    rw [if_neg hs] at hmin hmax
    exact Int.emod_eq_of_lt (by omega) (by omega)

/-- What is converted to the type is a value of it. -/
theorem fits_cast (T : CInt) (z : ℤ) : T.Fits (T.cast z) := by
  obtain ⟨k, hk, hmod⟩ := T.exists_modulus_eq
  unfold Fits min max cast
  rw [hmod]
  split
  · have hle := Int.le_bmod (x := z) (m := 2 * k) (by omega)
    have hlt := Int.bmod_lt (x := z) (m := 2 * k) (by omega)
    omega
  · have hle := Int.emod_nonneg z (b := ((2 * k : ℕ) : ℤ)) (by omega)
    have hlt := Int.emod_lt_of_pos z (b := ((2 * k : ℕ) : ℤ)) (by omega)
    omega

theorem toBits_lt (T : CInt) (z : ℤ) : T.toBits z < 256 ^ T.bytes := by
  obtain ⟨k, hk, hmod⟩ := T.exists_modulus_eq
  have hpos : (0 : ℤ) < T.modulus := by omega
  have hlt := Int.emod_lt_of_pos z hpos
  have hnonneg := Int.emod_nonneg z hpos.ne'
  have heq : 256 ^ T.bytes = T.modulus := rfl
  rw [heq]
  unfold toBits
  omega

/-- **The bits of a value stand for it.** -/
theorem cast_toBits (T : CInt) (z : ℤ) : T.cast (T.toBits z) = T.cast z := by
  obtain ⟨k, hk, hmod⟩ := T.exists_modulus_eq
  have hnonneg : 0 ≤ z % T.modulus := Int.emod_nonneg z (by omega)
  unfold cast toBits
  rw [Int.toNat_of_nonneg hnonneg]
  split
  · exact Int.emod_bmod z T.modulus
  · exact Int.emod_emod_of_dvd z dvd_rfl

theorem toBits_cast (T : CInt) (z : ℤ) : T.toBits (T.cast z) = T.toBits z := by
  unfold cast toBits
  split
  · rw [Int.bmod_emod]
  · rw [Int.emod_emod_of_dvd z dvd_rfl]

/-- **A value that is stored and loaded again is the same.** -/
theorem cast_load_store {T : CInt} {z : ℤ} (h : T.Fits z) (e : Endian) :
    T.cast (ByteOrder.load e (ByteOrder.store e T.bytes (T.toBits z))) = z := by
  rw [ByteOrder.load_store, Nat.mod_eq_of_lt (T.toBits_lt z), cast_toBits, cast_of_fits h]

theorem fits_zero (T : CInt) : T.Fits 0 := by
  obtain ⟨k, hk, hmod⟩ := T.exists_modulus_eq
  unfold Fits min max
  rw [hmod]
  split <;> omega

/-! ## Decimal text -/

/-- A decimal digit. -/
def isDigit (b : UInt8) : Bool := 48 ≤ b && b ≤ 57

/-- White space, which a stream skips. -/
def isSpace (b : UInt8) : Bool := b == 32 || (9 ≤ b && b ≤ 13)

/-- The number that digits spell. -/
def value (l : List UInt8) : ℕ := l.foldl (fun n b => 10 * n + (b.toNat - 48)) 0

/-- The digits of a number. -/
def digits (n : ℕ) : List UInt8 :=
  if n = 0 then [48] else (Nat.digits 10 n).reverse.map fun d => UInt8.ofNat (48 + d)

/-- The text that a stream prints. -/
def print (z : ℤ) : List UInt8 := if z < 0 then 45 :: digits z.natAbs else digits z.natAbs

/-- What a stream makes of a sign and the number after it. -/
def saturate (T : CInt) (neg : Bool) (n : ℕ) : ℤ :=
  if T.signed then if neg then Max.max T.min (-n) else Min.min T.max n
  else if n ≤ T.max then if neg then -n % T.modulus else n
  else T.max

/-- What a stream reads from a text. Without digits it is 0. -/
def read (T : CInt) (s : List UInt8) : ℤ :=
  let s := s.dropWhile isSpace
  let neg := s.head? == some 45
  let s := if neg || s.head? == some 43 then s.tail else s
  T.saturate neg (value (s.takeWhile isDigit))

/-- The text is a decimal text of the number. -/
def IsDecimal (s : List UInt8) (z : ℤ) : Prop :=
  ∃ l, l ≠ [] ∧ (∀ b ∈ l, isDigit b) ∧ ((s = l ∧ z = value l) ∨ (s = 45 :: l ∧ z = -value l))

theorem saturate_of_fits {T : CInt} {n : ℕ} (h : T.Fits n) : T.saturate false n = n := by
  unfold saturate
  split
  · exact min_eq_right h.2
  · rw [if_pos h.2]
    rfl

theorem saturate_neg_of_fits {T : CInt} {n : ℕ} (h : T.Fits (-n)) : T.saturate true n = -n := by
  unfold saturate
  split
  · exact max_eq_right h.1
  · rename_i hs
    have hmin := h.1
    unfold min at hmin
    rw [if_neg hs] at hmin
    have hn : n = 0 := by omega
    have hmax : (0 : ℤ) ≤ T.max := by
      have hle := h.2
      rw [hn] at hle
      exact hle
    rw [hn, if_pos (by exact_mod_cast hmax)]
    rfl

/-- **What a stream reads is a value of the type.** -/
theorem fits_read (T : CInt) (s : List UInt8) : T.Fits (T.read s) := by
  suffices h : ∀ neg n, T.Fits (T.saturate neg n) from h _ _
  intro neg n
  obtain ⟨k, hk, hmod⟩ := T.exists_modulus_eq
  have hnonneg := Int.emod_nonneg (-n : ℤ) (b := (T.modulus : ℤ)) (by omega)
  have hlt := Int.emod_lt_of_pos (-n : ℤ) (b := (T.modulus : ℤ)) (by omega)
  unfold Fits saturate min max
  rw [hmod] at *
  split
  · split <;> omega
  · split
    · split <;> omega
    · omega

/-- A digit is neither a sign nor white space. -/
theorem isDigit_ne {b : UInt8} (h : isDigit b) : b ≠ 45 ∧ b ≠ 43 ∧ b ≠ 0 ∧ isSpace b = false := by
  have hb : 48 ≤ b.toNat ∧ b.toNat ≤ 57 := by
    simpa [isDigit, UInt8.le_iff_toNat_le] using h
  have hne : ∀ c : UInt8, b = c → b.toNat = c.toNat := fun c hc => congrArg UInt8.toNat hc
  refine ⟨fun hc => ?_, fun hc => ?_, fun hc => ?_, ?_⟩
  · have heq : b.toNat = 45 := hne 45 hc
    omega
  · have heq : b.toNat = 43 := hne 43 hc
    omega
  · have heq : b.toNat = 0 := hne 0 hc
    omega
  · have h₃₂ : b ≠ 32 := fun hc => by
      have heq : b.toNat = 32 := hne 32 hc
      omega
    have h₁₃ : ¬ b ≤ 13 := by
      rw [UInt8.le_iff_toNat_le]
      show ¬ b.toNat ≤ 13
      omega
    simp [isSpace, h₃₂, h₁₃]

/-- **A stream reads a value of the type from a decimal text of it.** -/
theorem read_of_isDecimal {T : CInt} {s : List UInt8} {z : ℤ} (h : IsDecimal s z)
    (hz : T.Fits z) : T.read s = z := by
  obtain ⟨l, hne, hdig, ⟨rfl, rfl⟩ | ⟨rfl, rfl⟩⟩ := h
  · obtain ⟨b, l, rfl⟩ := List.exists_cons_of_ne_nil hne
    obtain ⟨h₁, h₂, -, h₃⟩ := isDigit_ne (hdig b List.mem_cons_self)
    unfold read
    rw [List.dropWhile_cons_of_neg (by rw [h₃]; decide)]
    simp only [List.head?_cons, Option.some_beq_some, beq_eq_false_iff_ne.mpr h₁,
      beq_eq_false_iff_ne.mpr h₂, Bool.or_false, Bool.false_eq_true, if_false]
    rw [List.takeWhile_eq_self_iff.mpr hdig, saturate_of_fits hz]
  · unfold read
    rw [List.dropWhile_cons_of_neg (by decide)]
    simp only [List.head?_cons, beq_self_eq_true, Bool.true_or, if_true, List.tail_cons]
    rw [List.takeWhile_eq_self_iff.mpr hdig, saturate_neg_of_fits hz]

theorem value_append (l : List UInt8) (b : UInt8) :
    value (l ++ [b]) = 10 * value l + (b.toNat - 48) := List.foldl_concat _ _ _ _

/-- Digits are read as they are written. -/
theorem value_digitChars (ds : List ℕ) (h : ∀ d ∈ ds, d < 10) :
    value (ds.reverse.map fun d => UInt8.ofNat (48 + d)) = Nat.ofDigits 10 ds := by
  induction ds with
  | nil => rfl
  | cons d ds ih =>
    have hd := h d List.mem_cons_self
    have hchar : (UInt8.ofNat (48 + d)).toNat = 48 + d := by
      rw [UInt8.toNat_ofNat']
      omega
    rw [List.reverse_cons, List.map_append, List.map_singleton, value_append,
      ih fun d' hd' => h d' (List.mem_cons_of_mem d hd'), hchar, Nat.ofDigits_cons]
    omega

theorem value_digits (n : ℕ) : value (digits n) = n := by
  unfold digits
  split
  · rename_i hn
    rw [hn]
    rfl
  · rw [value_digitChars _ fun d hd => Nat.digits_lt_base (by decide) hd, Nat.ofDigits_digits]

theorem isDigit_of_mem_digits {n : ℕ} {b : UInt8} (h : b ∈ digits n) : isDigit b := by
  unfold digits at h
  split at h
  · rw [List.mem_singleton.mp h]
    rfl
  · obtain ⟨d, hd, rfl⟩ := List.mem_map.mp h
    have hlt : d < 10 := Nat.digits_lt_base (by decide) (List.mem_reverse.mp hd)
    interval_cases d <;> rfl

theorem digits_ne_nil (n : ℕ) : digits n ≠ [] := by
  unfold digits
  split
  · exact List.cons_ne_nil _ _
  · rename_i hn
    rw [ne_eq, List.map_eq_nil_iff, List.reverse_eq_nil_iff]
    exact Nat.digits_ne_nil_iff_ne_zero.mpr hn

/-- **What a stream prints is a decimal text of the number.** -/
theorem isDecimal_print (z : ℤ) : IsDecimal (print z) z := by
  refine ⟨digits z.natAbs, digits_ne_nil _, fun b hb => isDigit_of_mem_digits hb, ?_⟩
  rw [value_digits]
  unfold print
  split
  · exact .inr ⟨rfl, by omega⟩
  · exact .inl ⟨rfl, by omega⟩

/-- A decimal text has no NUL in it. -/
theorem zero_notMem_of_isDecimal {s : List UInt8} {z : ℤ} (h : IsDecimal s z) : 0 ∉ s := by
  obtain ⟨l, -, hdig, ⟨rfl, -⟩ | ⟨rfl, -⟩⟩ := h
  · exact fun h₀ => (isDigit_ne (hdig 0 h₀)).2.2.1 rfl
  · intro h₀
    rcases List.mem_cons.mp h₀ with h₀ | h₀
    · cases h₀
    · exact (isDigit_ne (hdig 0 h₀)).2.2.1 rfl

end CInt
