import Mathlib.Algebra.Field.Basic
import Mathlib.Algebra.Group.Nat.Defs

/-!
# The field of 256 elements

Its elements are the polynomials over the field of two elements of a degree below 8,
as eight bits. They are added bit by bit, and multiplied modulo
`x^8 + x^4 + x^3 + x + 1`.

The laws of the multiplication are additive in each of the factors. So they need to be
tried for powers of `x` only (`GF256.induction_basis`).
-/

/-- Eight bits, as a polynomial. -/
structure GF256 where
  bits : BitVec 8
  deriving DecidableEq

namespace GF256

/-! ## The operations -/

instance : Add GF256 := ⟨fun a b => ⟨a.bits ^^^ b.bits⟩⟩

instance : Zero GF256 := ⟨⟨0⟩⟩

instance : One GF256 := ⟨⟨1⟩⟩

/-- The product with `x`. -/
def xtime (a : GF256) : GF256 :=
  ⟨(a.bits <<< 1) ^^^ if a.bits.getLsbD 7 then 0x1b else 0⟩

/-- A round of the multiplication: the next lower coefficient of the first factor. -/
def mulRound (a b acc : GF256) (i : ℕ) : GF256 :=
  acc.xtime + if a.bits.getLsbD i then b else 0

instance : Mul GF256 := ⟨fun a b => [7, 6, 5, 4, 3, 2, 1, 0].foldl (mulRound a b) 0⟩

theorem add_def (a b : GF256) : a + b = ⟨a.bits ^^^ b.bits⟩ := rfl

@[simp] theorem bits_add (a b : GF256) : (a + b).bits = a.bits ^^^ b.bits := rfl

@[simp] theorem bits_zero : (0 : GF256).bits = 0 := rfl

theorem mul_def (a b : GF256) : a * b = [7, 6, 5, 4, 3, 2, 1, 0].foldl (mulRound a b) 0 := rfl

/-! ## Addition -/

@[ext] theorem ext {a b : GF256} (h : a.bits = b.bits) : a = b := by
  cases a
  cases b
  exact congrArg mk h

/-- A polynomial is its own negative. -/
instance : Neg GF256 := ⟨id⟩

instance : AddCommGroup GF256 where
  add_assoc a b c := ext (BitVec.xor_assoc _ _ _)
  zero_add a := ext BitVec.zero_xor
  add_zero a := ext BitVec.xor_zero
  neg_add_cancel a := ext BitVec.xor_self
  add_comm a b := ext (BitVec.xor_comm _ _)
  nsmul := nsmulRec
  zsmul := zsmulRec

/-- Adding twice the same is adding nothing. -/
theorem add_self (a : GF256) : a + a = 0 := ext BitVec.xor_self

@[simp] theorem neg_eq (a : GF256) : -a = a := rfl

/-- All elements, by their number. -/
theorem forall_of_forall_lt {P : GF256 → Prop} (h : ∀ n < 256, P ⟨BitVec.ofNat 8 n⟩) (a : GF256) :
    P a := by
  have ha := h a.bits.toNat a.bits.isLt
  rwa [BitVec.ofNat_toNat, BitVec.setWidth_eq] at ha

/-- `x^i` for `i < 8`. -/
def power (i : ℕ) : GF256 := ⟨BitVec.ofNat 8 (2 ^ i)⟩

/-- **Induction by the bits**: what is so for the powers of `x` and for sums is so for all. -/
theorem induction_basis {P : GF256 → Prop} (zero : P 0) (add : ∀ a b, P a → P b → P (a + b))
    (basis : ∀ i < 8, P (power i)) (a : GF256) : P a := by
  have hsum : ∀ a : GF256, a
      = ((List.range 8).map fun i => if a.bits.getLsbD i then power i else 0).sum :=
    forall_of_forall_lt (by decide +kernel)
  have hlist : ∀ L : List ℕ, (∀ i ∈ L, i < 8) →
      P (L.map fun i => if a.bits.getLsbD i then power i else 0).sum := by
    intro L hL
    induction L with
    | nil => exact zero
    | cons i L ih =>
      rw [List.map_cons, List.sum_cons]
      refine add _ _ ?_ (ih fun j hj => hL j (List.mem_cons_of_mem _ hj))
      split_ifs
      · exact basis i (hL i List.mem_cons_self)
      · exact zero
  rw [hsum a]
  exact hlist _ fun i hi => List.mem_range.mp hi

/-! ## Multiplication -/

theorem xtime_add (a b : GF256) : (a + b).xtime = a.xtime + b.xtime := by
  have hshift : (a + b).bits <<< 1 = (a.bits <<< 1) ^^^ (b.bits <<< 1) :=
    BitVec.shiftLeft_xor_distrib a.bits b.bits 1
  have hcarry : (if (a + b).bits.getLsbD 7 then (0x1b : BitVec 8) else 0)
      = (if a.bits.getLsbD 7 then 0x1b else 0) ^^^ if b.bits.getLsbD 7 then 0x1b else 0 := by
    rw [bits_add, BitVec.getLsbD_xor]
    cases a.bits.getLsbD 7
    all_goals cases b.bits.getLsbD 7
    all_goals rfl
  refine ext ?_
  show ((a + b).bits <<< 1) ^^^ (if (a + b).bits.getLsbD 7 then 0x1b else 0) = _
  rw [hshift, hcarry]
  exact congrArg bits (add_add_add_comm (⟨a.bits <<< 1⟩ : GF256) ⟨b.bits <<< 1⟩
    ⟨if a.bits.getLsbD 7 then 0x1b else 0⟩ ⟨if b.bits.getLsbD 7 then 0x1b else 0⟩)

/-- The product is additive in the first factor. -/
protected theorem add_mul (a b c : GF256) : (a + b) * c = a * c + b * c := by
  have hfold : ∀ (L : List ℕ) (u v : GF256),
      L.foldl (mulRound (a + b) c) (u + v)
        = L.foldl (mulRound a c) u + L.foldl (mulRound b c) v := by
    intro L
    induction L with
    | nil => exact fun _ _ => rfl
    | cons i L ih =>
      intro u v
      rw [List.foldl_cons, List.foldl_cons, List.foldl_cons, ← ih]
      refine congrArg (L.foldl _) ?_
      have hbit : (if (a + b).bits.getLsbD i then c else 0)
          = (if a.bits.getLsbD i then c else 0) + if b.bits.getLsbD i then c else 0 := by
        rw [bits_add, BitVec.getLsbD_xor]
        cases a.bits.getLsbD i <;> cases b.bits.getLsbD i <;> simp [add_self]
      rw [mulRound, hbit, xtime_add]
      exact add_add_add_comm _ _ _ _
  exact hfold _ 0 0

/-- The product is additive in the second factor. -/
protected theorem mul_add (a b c : GF256) : a * (b + c) = a * b + a * c := by
  have hfold : ∀ (L : List ℕ) (u v : GF256),
      L.foldl (mulRound a (b + c)) (u + v)
        = L.foldl (mulRound a b) u + L.foldl (mulRound a c) v := by
    intro L
    induction L with
    | nil => exact fun _ _ => rfl
    | cons i L ih =>
      intro u v
      rw [List.foldl_cons, List.foldl_cons, List.foldl_cons, ← ih]
      refine congrArg (L.foldl _) ?_
      rw [mulRound, xtime_add, mulRound, mulRound]
      split_ifs
      · exact add_add_add_comm _ _ _ _
      · rw [add_zero, add_zero, add_zero]
  exact hfold _ 0 0

protected theorem zero_mul (a : GF256) : 0 * a = 0 := by
  have h := GF256.add_mul 0 0 a
  rwa [add_zero, left_eq_add] at h

protected theorem mul_zero (a : GF256) : a * 0 = 0 := by
  have h := GF256.mul_add a 0 0
  rwa [add_zero, left_eq_add] at h

protected theorem mul_comm (a b : GF256) : a * b = b * a := by
  induction a using induction_basis with
  | zero => rw [GF256.zero_mul, GF256.mul_zero]
  | add a a' iha iha' => rw [GF256.add_mul, GF256.mul_add, iha, iha']
  | basis i hi =>
    induction b using induction_basis with
    | zero => rw [GF256.zero_mul, GF256.mul_zero]
    | add b b' ihb ihb' => rw [GF256.add_mul, GF256.mul_add, ihb, ihb']
    | basis j hj =>
      revert i j
      decide +kernel

protected theorem mul_assoc (a b c : GF256) : a * b * c = a * (b * c) := by
  induction a using induction_basis with
  | zero => simp only [GF256.zero_mul]
  | add a a' iha iha' => simp only [GF256.add_mul, iha, iha']
  | basis i hi =>
    induction b using induction_basis with
    | zero => simp only [GF256.zero_mul, GF256.mul_zero]
    | add b b' ihb ihb' => simp only [GF256.add_mul, GF256.mul_add, ihb, ihb']
    | basis j hj =>
      induction c using induction_basis with
      | zero => simp only [GF256.mul_zero]
      | add c c' ihc ihc' => simp only [GF256.mul_add, ihc, ihc']
      | basis k hk =>
        revert i j k
        decide +kernel

protected theorem one_mul : ∀ a : GF256, 1 * a = a :=
  forall_of_forall_lt (by decide +kernel)

instance : CommRing GF256 where
  left_distrib := GF256.mul_add
  right_distrib := GF256.add_mul
  zero_mul := GF256.zero_mul
  mul_zero := GF256.mul_zero
  mul_assoc := GF256.mul_assoc
  mul_comm := GF256.mul_comm
  one_mul := GF256.one_mul
  mul_one a := (GF256.mul_comm a 1).trans (GF256.one_mul a)
  neg_add_cancel := add_self
  zsmul := zsmulRec

/-! ## Inverses -/

/-- Squares are additive, since a sum of two equal products is zero. -/
theorem sq_add (a b : GF256) : (a + b) ^ 2 = a ^ 2 + b ^ 2 := by
  rw [sq, sq, sq, add_mul, mul_add, mul_add, mul_comm b a, add_assoc, ← add_assoc (a * b),
    add_self, zero_add]

/-- `a^256 = a`. -/
theorem iterate_sq (a : GF256) : (fun b : GF256 => b ^ 2)^[8] a = a := by
  have hadd : ∀ (k : ℕ) (a b : GF256), (fun b : GF256 => b ^ 2)^[k] (a + b)
      = (fun b : GF256 => b ^ 2)^[k] a + (fun b : GF256 => b ^ 2)^[k] b := by
    intro k
    induction k with
    | zero => exact fun _ _ => rfl
    | succ k ih =>
      intro a b
      rw [Function.iterate_succ_apply, sq_add, ih]
      rfl
  induction a using induction_basis with
  | zero => decide +kernel
  | add a b iha ihb => rw [hadd, iha, ihb]
  | basis i hi =>
    revert i
    decide +kernel

/-- There are no idempotents but zero and one. -/
theorem eq_zero_or_one_of_mul_self : ∀ a : GF256, a * a = a → a = 0 ∨ a = 1 :=
  forall_of_forall_lt (by decide +kernel)

theorem pow_255 {a : GF256} (h : a ≠ 0) : a ^ 255 = 1 := by
  have hpow : a ^ 256 = a := by
    rw [show 256 = 2 ^ 8 from rfl, ← congrFun (pow_iterate 2 8) a]
    exact iterate_sq a
  have hsucc : a ^ 256 = a ^ 255 * a := pow_succ a 255
  have hself : a ^ 255 * a ^ 255 = a ^ 255 := by
    calc a ^ 255 * a ^ 255 = a ^ 254 * a ^ 256 := by rw [← pow_add, ← pow_add]
      _ = a ^ 255 := by rw [hpow, ← pow_succ]
  refine (eq_zero_or_one_of_mul_self _ hself).resolve_left fun hzero => h ?_
  rw [← hpow, hsucc, hzero, zero_mul]

instance : Field GF256 where
  inv a := a ^ 254
  exists_pair_ne := ⟨0, 1, by decide⟩
  mul_inv_cancel a h := by
    rw [← pow_succ']
    exact pow_255 h
  inv_zero := zero_pow (by decide)
  nnqsmul := _
  qsmul := _

end GF256
