import Mathlib.Algebra.Group.Equiv.Basic
import Mathlib.Algebra.Group.End
import Mathlib.Data.List.Induction

/-!
# Ciphers that add round keys

A state goes through rounds. Each of them substitutes it, moves its parts and mixes them,
and adds a round key; a key is added before the first round, and the last one does not
mix. Substitution is done part by part, so that it does not matter if the parts
are moved before or after it, and mixing is additive.

Then decryption is done by rounds of the same shape: those of the inverse operations, with
the round keys in inverse order, and those in the middle mixed back (`inverse_crypt`).
-/

/-- The operations of a round. -/
structure KeyAlternating (S : Type*) [AddCommGroup S] where
  sub : Equiv.Perm S
  shift : Equiv.Perm S
  mix : S ≃+ S
  sub_shift : ∀ s, sub (shift s) = shift (sub s)

namespace KeyAlternating

variable {S : Type*} [AddCommGroup S] (E : KeyAlternating S)

/-- A round with its key. -/
def round (s k : S) : S := E.mix (E.shift (E.sub s)) + k

/-- The last round. -/
def lastRound (s k : S) : S := E.shift (E.sub s) + k

/-- All rounds, with the key that is added first, those of the rounds in the middle and that of
the last one. -/
def crypt (first : S) (middle : List S) (last s : S) : S :=
  E.lastRound (middle.foldl E.round (s + first)) last

/-- The inverse operations. -/
def inverse : KeyAlternating S where
  sub := E.sub.symm
  shift := E.shift.symm
  mix := E.mix.symm
  sub_shift s := by
    rw [Equiv.symm_apply_eq, Equiv.symm_apply_eq, ← E.sub_shift, Equiv.apply_symm_apply,
      Equiv.apply_symm_apply]

/-- Substitution and moves are undone in either order. -/
theorem shift_symm_sub_symm (s : S) : E.shift.symm (E.sub.symm (E.shift (E.sub s))) = s := by
  rw [← E.sub_shift, Equiv.symm_apply_apply, Equiv.symm_apply_apply]

/-- A round of the inverse: it takes back the mixing and the key of a round, and the moves and the
substitution of the one before. -/
theorem inverse_round (s k : S) :
    E.inverse.round (E.shift (E.sub (E.round s k))) (-E.mix.symm k) = E.shift (E.sub s) := by
  show E.mix.symm (E.shift.symm (E.sub.symm (E.shift (E.sub (E.round s k))))) + -E.mix.symm k = _
  rw [shift_symm_sub_symm, round, map_add, AddEquiv.symm_apply_apply, add_neg_cancel_right]

/-- The rounds in the middle. -/
theorem foldl_inverse_round (middle : List S) (s : S) :
    (middle.reverse.map fun k => -E.mix.symm k).foldl E.inverse.round
      (E.shift (E.sub (middle.foldl E.round s))) = E.shift (E.sub s) := by
  induction middle using List.reverseRecOn with
  | nil => rfl
  | append_singleton middle k ih =>
    rw [List.foldl_append, List.foldl_cons, List.foldl_nil, List.reverse_append,
      List.reverse_singleton, List.singleton_append, List.map_cons, List.foldl_cons, inverse_round]
    exact ih

/-- **Decryption** with the round keys in inverse order. -/
theorem inverse_crypt (first : S) (middle : List S) (last s : S) :
    E.inverse.crypt (-last) (middle.reverse.map fun k => -E.mix.symm k) (-first)
      (E.crypt first middle last s) = s := by
  rw [crypt, lastRound, crypt, lastRound, add_neg_cancel_right, foldl_inverse_round]
  show E.shift.symm (E.sub.symm (E.shift (E.sub (s + first)))) + -first = s
  rw [shift_symm_sub_symm, add_neg_cancel_right]

end KeyAlternating
