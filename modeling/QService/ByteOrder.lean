import Mathlib.Tactic

/-!
# Byte strings and unsigned integers

A machine integer of `n` bytes and the `n` bytes it occupies in memory are
two spellings of one number below `256 ^ n`. This module has both spellings
in both byte orders, the conversion a host applies to network-order values
(`ntoh`), and the law that makes such a conversion useful: whatever the byte
order of the host, storing a converted value writes its big-endian bytes
(`store_ntoh`), and converting a loaded value reads them (`ntoh_load`).

Nothing here is about one program. Widths are arbitrary.
-/

/-- The byte order of a host. -/
inductive Endian
  | little
  | big
  deriving DecidableEq, Repr

namespace ByteOrder

/-- The `n` low bytes of `v`, least significant first. -/
def leBytes : ℕ → ℕ → List UInt8
  | 0, _ => []
  | n + 1, v => UInt8.ofNat (v % 256) :: leBytes n (v / 256)

/-- The number a byte string spells, least significant byte first. -/
def ofLE : List UInt8 → ℕ
  | [] => 0
  | b :: bs => b.toNat + 256 * ofLE bs

/-- The `n` low bytes of `v`, most significant first. -/
def beBytes (n v : ℕ) : List UInt8 := (leBytes n v).reverse

/-- The number a byte string spells, most significant byte first. -/
def ofBE (bs : List UInt8) : ℕ := ofLE bs.reverse

/-- The bits of a byte, the highest first. -/
def byteBits (b : UInt8) : List Bool := [7, 6, 5, 4, 3, 2, 1, 0].map b.toNat.testBit

/-- To check something for every byte, check it for 256 numbers. -/
theorem forall_byte {P : UInt8 → Prop} (h : ∀ n < 256, P (UInt8.ofNat n)) (b : UInt8) : P b := by
  have hb := h b.toNat b.toNat_lt
  rwa [UInt8.ofNat_toNat] at hb

@[simp] theorem length_leBytes (n v : ℕ) : (leBytes n v).length = n := by
  induction n generalizing v with
  | zero => rfl
  | succ n ih => simp only [leBytes, List.length_cons, ih]

@[simp] theorem length_beBytes (n v : ℕ) : (beBytes n v).length = n := by
  rw [beBytes, List.length_reverse, length_leBytes]

theorem toNat_ofNat_mod (v : ℕ) : (UInt8.ofNat (v % 256)).toNat = v % 256 := by
  rw [UInt8.toNat_ofNat']
  omega

/-- **Reading back the low bytes of a number gives it modulo the width.** -/
theorem ofLE_leBytes (n v : ℕ) : ofLE (leBytes n v) = v % 256 ^ n := by
  induction n generalizing v with
  | zero => simp only [leBytes, ofLE, pow_zero, Nat.mod_one]
  | succ n ih =>
    rw [leBytes, ofLE, ih, toNat_ofNat_mod, pow_succ, mul_comm (256 ^ n) 256,
      Nat.mod_mul]

theorem ofLE_lt (bs : List UInt8) : ofLE bs < 256 ^ bs.length := by
  induction bs with
  | nil => simp [ofLE]
  | cons b bs ih =>
    have hb := b.toNat_lt
    rw [ofLE, List.length_cons, pow_succ]
    omega

theorem ofLE_append (l₁ l₂ : List UInt8) :
    ofLE (l₁ ++ l₂) = ofLE l₁ + 256 ^ l₁.length * ofLE l₂ := by
  induction l₁ with
  | nil => simp [ofLE]
  | cons b l₁ ih =>
    rw [List.cons_append, ofLE, ofLE, ih, List.length_cons, pow_succ]
    ring

theorem ofBE_append (l₁ l₂ : List UInt8) :
    ofBE (l₁ ++ l₂) = ofBE l₁ * 256 ^ l₂.length + ofBE l₂ := by
  rw [ofBE, List.reverse_append, ofLE_append, List.length_reverse, ofBE, ofBE]
  ring

/-- **A byte string is the low bytes of the number it spells.** -/
theorem leBytes_ofLE (bs : List UInt8) : leBytes bs.length (ofLE bs) = bs := by
  induction bs with
  | nil => rfl
  | cons b bs ih =>
    have hb := b.toNat_lt
    have hlow : (b.toNat + 256 * ofLE bs) % 256 = b.toNat := by omega
    have hhigh : (b.toNat + 256 * ofLE bs) / 256 = ofLE bs := by omega
    rw [List.length_cons, leBytes, ofLE, hlow, hhigh, ih, UInt8.ofNat_toNat]

theorem ofBE_beBytes (n v : ℕ) : ofBE (beBytes n v) = v % 256 ^ n := by
  rw [ofBE, beBytes, List.reverse_reverse, ofLE_leBytes]

theorem ofBE_lt (bs : List UInt8) : ofBE bs < 256 ^ bs.length := by
  have h := ofLE_lt bs.reverse
  rwa [List.length_reverse] at h

theorem beBytes_ofBE (bs : List UInt8) : beBytes bs.length (ofBE bs) = bs := by
  have h := leBytes_ofLE bs.reverse
  rw [List.length_reverse] at h
  rw [beBytes, ofBE, h, List.reverse_reverse]

/-- Only the low bytes of a number matter to its byte string. -/
theorem leBytes_mod (n v : ℕ) : leBytes n (v % 256 ^ n) = leBytes n v := by
  have h := leBytes_ofLE (leBytes n v)
  rwa [length_leBytes, ofLE_leBytes] at h

/-- The low bytes of the number a long string spells are its first bytes. -/
theorem leBytes_ofLE_take (n : ℕ) (bs : List UInt8) (h : n ≤ bs.length) :
    leBytes n (ofLE bs) = bs.take n := by
  induction n generalizing bs with
  | zero => rfl
  | succ n ih =>
    cases bs with
    | nil => exact absurd h (Nat.not_succ_le_zero n)
    | cons b bs =>
      have hb := b.toNat_lt
      have hlow : (b.toNat + 256 * ofLE bs) % 256 = b.toNat := by omega
      have hhigh : (b.toNat + 256 * ofLE bs) / 256 = ofLE bs := by omega
      rw [leBytes, ofLE, hlow, hhigh, ih bs (Nat.le_of_succ_le_succ h),
        UInt8.ofNat_toNat, List.take_succ_cons]

/-- A number that fits `n` bytes has zeros in the bytes above. -/
theorem leBytes_add (n k v : ℕ) (h : v < 256 ^ n) :
    leBytes (n + k) v = leBytes n v ++ List.replicate k 0 := by
  induction n generalizing v with
  | zero =>
    have hv : v = 0 := by simpa using h
    subst hv
    induction k with
    | zero => rfl
    | succ k ih =>
      rw [Nat.zero_add] at ih ⊢
      simp only [leBytes, List.nil_append, Nat.zero_div] at ih ⊢
      rw [ih]
      rfl
  | succ n ih =>
    rw [Nat.add_right_comm, leBytes, leBytes, List.cons_append,
      ih (v / 256) (by rw [pow_succ] at h; omega)]

/-! ## Memory images and host order -/

/-- The bytes an `n`-byte unsigned integer occupies in memory. -/
def store (e : Endian) (n v : ℕ) : List UInt8 :=
  match e with
  | .little => leBytes n v
  | .big => beBytes n v

/-- The unsigned integer a memory block holds. -/
def load (e : Endian) (bs : List UInt8) : ℕ :=
  match e with
  | .little => ofLE bs
  | .big => ofBE bs

/-- Conversion of an `n`-byte integer between network and host order: a byte
swap on a little-endian host, nothing on a big-endian one. -/
def ntoh (e : Endian) (n v : ℕ) : ℕ :=
  match e with
  | .little => ofLE (leBytes n v).reverse
  | .big => v % 256 ^ n

@[simp] theorem length_store (e : Endian) (n v : ℕ) : (store e n v).length = n := by
  cases e with
  | little => exact length_leBytes n v
  | big => exact length_beBytes n v

theorem load_store (e : Endian) (n v : ℕ) : load e (store e n v) = v % 256 ^ n := by
  cases e with
  | little => exact ofLE_leBytes n v
  | big => exact ofBE_beBytes n v

theorem ntoh_lt (e : Endian) (n v : ℕ) : ntoh e n v < 256 ^ n := by
  cases e with
  | little =>
    have h := ofLE_lt (leBytes n v).reverse
    rwa [List.length_reverse, length_leBytes] at h
  | big => exact Nat.mod_lt _ (by positivity)

/-- **Storing a converted value writes its big-endian bytes**, whatever the
host's byte order. -/
theorem store_ntoh (e : Endian) (n v : ℕ) : store e n (ntoh e n v) = beBytes n v := by
  cases e with
  | little =>
    have h := leBytes_ofLE (leBytes n v).reverse
    rwa [List.length_reverse, length_leBytes] at h
  | big =>
    show beBytes n (v % 256 ^ n) = beBytes n v
    rw [beBytes, leBytes_mod, beBytes]

/-- **Converting a loaded value reads big-endian bytes**, whatever the host's
byte order. -/
theorem ntoh_load (e : Endian) (bs : List UInt8) :
    ntoh e bs.length (load e bs) = ofBE bs := by
  cases e with
  | little =>
    show ofLE (leBytes bs.length (ofLE bs)).reverse = ofBE bs
    rw [leBytes_ofLE, ofBE]
  | big => exact Nat.mod_eq_of_lt (ofBE_lt bs)

end ByteOrder
