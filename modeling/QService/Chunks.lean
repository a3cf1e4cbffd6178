import Mathlib.Tactic
import Mathlib.Algebra.Order.Floor.Div

/-!
# A list in pieces of one length

A loop that goes through a block of memory in steps of `n` sees the pieces
`chunks n l`: all of them have `n` elements, but for the last one, which has what is
left (`exists_full_chunks`). Nothing here is about one program. What a coder with
blocks rests on is that the pieces are the list again (`flatten_chunks`), and that pieces
of full length, written one behind the other, are the pieces of what was written
(`chunks_flatten`).
-/

namespace Chunks

variable {α β : Type*} {n : ℕ}

/-- The pieces of a list, for a number of rounds. -/
def chunksLoop (n : ℕ) : ℕ → List α → List (List α)
  | 0, _ => []
  | fuel + 1, l => if l = [] then [] else l.take n :: chunksLoop n fuel (l.drop n)

/-- The pieces of `n` elements of a list. -/
def chunks (n : ℕ) (l : List α) : List (List α) := chunksLoop n l.length l

@[simp] theorem chunks_nil : chunks n ([] : List α) = [] := rfl

theorem chunksLoop_eq_chunks (hn : 0 < n) {fuel : ℕ} {l : List α} (h : l.length ≤ fuel) :
    chunksLoop n fuel l = chunks n l := by
  unfold chunks
  suffices hall : ∀ (m k : ℕ) (l : List α), l.length ≤ m → l.length ≤ k →
      chunksLoop n m l = chunksLoop n k l from hall fuel l.length l h le_rfl
  intro m
  induction m with
  | zero =>
    intro k l hm _
    rw [List.eq_nil_of_length_eq_zero (Nat.le_zero.mp hm)]
    cases k <;> rfl
  | succ m ih =>
    intro k l hm hk
    cases k with
    | zero =>
      rw [List.eq_nil_of_length_eq_zero (Nat.le_zero.mp hk)]
      rfl
    | succ k =>
      unfold chunksLoop
      split_ifs with hl
      · rfl
      · have hlen := List.length_pos_of_ne_nil hl
        rw [ih k _ (by rw [List.length_drop]; omega) (by rw [List.length_drop]; omega)]

/-- The first piece and the others. -/
theorem chunks_of_ne_nil (hn : 0 < n) {l : List α} (hl : l ≠ []) :
    chunks n l = l.take n :: chunks n (l.drop n) := by
  have hlen := List.length_pos_of_ne_nil hl
  obtain ⟨m, hm⟩ : ∃ m, l.length = m + 1 := ⟨l.length - 1, by omega⟩
  rw [chunks, hm, chunksLoop, if_neg hl,
    chunksLoop_eq_chunks hn (by rw [List.length_drop]; omega)]

/-- To prove something of the pieces of a list, take off the first one. -/
theorem chunks_induction (hn : 0 < n) {P : List α → Prop} (hnil : P [])
    (hstep : ∀ l, l ≠ [] → P (l.drop n) → P l) (l : List α) : P l := by
  by_cases hl : l = []
  · rw [hl]
    exact hnil
  · exact hstep l hl (chunks_induction hn hnil hstep (l.drop n))
termination_by l.length
decreasing_by
  have hlen := List.length_pos_of_ne_nil hl
  rw [List.length_drop]
  omega

/-- **The pieces are the list.** -/
theorem flatten_chunks (hn : 0 < n) (l : List α) : (chunks n l).flatten = l := by
  induction l using chunks_induction hn with
  | hnil => rfl
  | hstep l hl ih => rw [chunks_of_ne_nil hn hl, List.flatten_cons, ih, List.take_append_drop]

/-- No piece is empty or too long. -/
theorem length_of_mem_chunks (hn : 0 < n) {l c : List α} (hc : c ∈ chunks n l) :
    c.length ≤ n ∧ c ≠ [] := by
  induction l using chunks_induction hn with
  | hnil => exact absurd hc List.not_mem_nil
  | hstep l hl ih =>
    rw [chunks_of_ne_nil hn hl] at hc
    rcases List.mem_cons.mp hc with rfl | hc
    · refine ⟨List.length_take_le _ _, fun h => ?_⟩
      rcases List.take_eq_nil_iff.mp h with h | h
      · exact hn.ne' h
      · exact hl h
    · exact ih hc

/-- **How many pieces there are.** -/
theorem length_chunks (hn : 0 < n) (l : List α) : (chunks n l).length = l.length ⌈/⌉ n := by
  rw [Nat.ceilDiv_eq_add_pred_div]
  induction l using chunks_induction hn with
  | hnil => exact (Nat.div_eq_of_lt (by simp; omega)).symm
  | hstep l hl ih =>
    have hlen := List.length_pos_of_ne_nil hl
    rw [chunks_of_ne_nil hn hl, List.length_cons, ih, List.length_drop]
    rcases Nat.lt_or_ge n l.length with hlt | hle
    · rw [show l.length + n - 1 = (l.length - n + n - 1) + n by omega, Nat.add_div_right _ hn]
    · rw [show l.length - n + n - 1 = n - 1 by omega,
        show l.length + n - 1 = (l.length - 1) + n by omega, Nat.add_div_right _ hn,
        Nat.div_eq_of_lt (by omega), Nat.div_eq_of_lt (by omega)]

/-- A piece of full length in front is the first piece. -/
theorem chunks_append (hn : 0 < n) {c : List α} (hc : c.length = n) (l : List α) :
    chunks n (c ++ l) = c :: chunks n l := by
  have hne : c ++ l ≠ [] := by
    intro h
    rw [(List.append_eq_nil_iff.mp h).1] at hc
    exact hn.ne hc
  rw [chunks_of_ne_nil hn hne, List.take_left' hc, List.drop_left' hc]

/-- **Pieces of full length are the pieces of the list they make**, with those of what follows. -/
theorem chunks_flatten_append (hn : 0 < n) {L : List (List α)} (hL : ∀ c ∈ L, c.length = n)
    (l : List α) : chunks n (L.flatten ++ l) = L ++ chunks n l := by
  induction L with
  | nil => rfl
  | cons c L ih =>
    rw [List.forall_mem_cons] at hL
    rw [List.flatten_cons, List.append_assoc, chunks_append hn hL.1, ih hL.2, List.cons_append]

theorem chunks_flatten (hn : 0 < n) {L : List (List α)} (hL : ∀ c ∈ L, c.length = n) :
    chunks n L.flatten = L := by
  have h := chunks_flatten_append hn hL []
  rwa [List.append_nil, chunks_nil, List.append_nil] at h

theorem length_flatten_of_length {L : List (List α)} (hL : ∀ c ∈ L, c.length = n) :
    L.flatten.length = L.length * n := by
  rw [List.length_flatten, List.map_congr_left hL, List.map_const', List.sum_replicate,
    smul_eq_mul]

/-- A list whose length is a number of pieces has only pieces of full length. -/
theorem length_eq_of_mem_chunks (hn : 0 < n) {l c : List α} (hl : n ∣ l.length)
    (hc : c ∈ chunks n l) : c.length = n := by
  induction l using chunks_induction hn with
  | hnil => exact absurd hc List.not_mem_nil
  | hstep l hne ih =>
    have hlen := List.length_pos_of_ne_nil hne
    have hle := Nat.le_of_dvd hlen hl
    rw [chunks_of_ne_nil hn hne] at hc
    rcases List.mem_cons.mp hc with rfl | hc
    · exact List.length_take_of_le hle
    · refine ih ?_ hc
      rw [List.length_drop]
      exact Nat.dvd_sub hl dvd_rfl

/-- The last piece of a list of whole pieces. -/
theorem getLast?_chunks (hn : 0 < n) {l : List α} (hl : n ∣ l.length) (hne : l ≠ []) :
    (chunks n l).getLast? = some (l.drop (l.length - n)) := by
  have hflat := flatten_chunks hn l
  have hfull : ∀ c ∈ chunks n l, c.length = n := fun c hc => length_eq_of_mem_chunks hn hl hc
  rcases List.eq_nil_or_concat (chunks n l) with hnil | ⟨L, c, hL⟩
  · rw [hnil] at hflat
    exact absurd hflat.symm hne
  · rw [List.concat_eq_append] at hL
    rw [hL, List.flatten_append, List.flatten_singleton] at hflat
    have hc : c.length = n := hfull c (hL ▸ List.mem_concat_self)
    rw [hL, List.getLast?_concat, ← hflat, List.length_append, hc, Nat.add_sub_cancel,
      List.drop_left' rfl]

/-- **The last piece**: there are pieces of full length, and what is left, if there is something
left, is a piece too. -/
theorem exists_full_chunks (hn : 0 < n) (l : List α) :
    ∃ (L : List (List α)) (rest : List α), (∀ c ∈ L, c.length = n) ∧ rest.length = l.length % n
      ∧ l = L.flatten ++ rest ∧ chunks n l = L ++ if rest = [] then [] else [rest] := by
  induction l using chunks_induction hn with
  | hnil => exact ⟨[], [], by simp, by simp, rfl, rfl⟩
  | hstep l hl ih =>
    rw [chunks_of_ne_nil hn hl]
    rcases Nat.lt_or_ge l.length n with hlt | hle
    · refine ⟨[], l, by simp, (Nat.mod_eq_of_lt hlt).symm, rfl, ?_⟩
      rw [List.take_of_length_le hlt.le, List.drop_of_length_le hlt.le, if_neg hl]
      rfl
    · obtain ⟨L, rest, hL, hrest, hl', hchunks⟩ := ih
      refine ⟨l.take n :: L, rest, ?_, ?_, ?_, ?_⟩
      · exact List.forall_mem_cons.mpr ⟨List.length_take_of_le hle, hL⟩
      · rw [hrest, List.length_drop, Nat.mod_eq_sub_mod hle]
      · rw [List.flatten_cons, List.append_assoc, ← hl', List.take_append_drop]
      · rw [hchunks, List.cons_append]

end Chunks
