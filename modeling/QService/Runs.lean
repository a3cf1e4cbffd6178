import Mathlib.Tactic

/-!
# Runs of a system under a condition on its steps

A system takes inputs one after the other. `Reach next ok s₀` is the set of
states it can be in when every input so far met `ok` in the state it was
given in: `ok` says which inputs can come (a socket is given out only when it
is free) or which ones a result is about.

A property of all of these states is proved by an invariant
(`Reach.invariant`). A concrete run is a list of inputs, checked step by step
(`Reach.of_list`).

A system may also write a log, whose entries are each about one key. What it
says of a key is `history`, and a law for the entries of every key is a
partial transition function that each history must follow (`follow`).
-/

/-- The states reachable from `s₀` by inputs that meet `ok`. -/
inductive Reach {σ ι : Type*} (next : σ → ι → σ) (ok : σ → ι → Prop) (s₀ : σ) : σ → Prop
  | start : Reach next ok s₀ s₀
  | step {s : σ} {i : ι} (hs : Reach next ok s₀ s) (hi : ok s i) : Reach next ok s₀ (next s i)

namespace Reach

variable {σ ι : Type*} {next : σ → ι → σ} {ok : σ → ι → Prop} {s₀ : σ}

/-- **The invariant rule.** -/
theorem invariant (I : σ → Prop) (hstart : I s₀)
    (hstep : ∀ s i, I s → ok s i → I (next s i)) {s : σ} (h : Reach next ok s₀ s) : I s := by
  induction h with
  | start => exact hstart
  | step _ hi ih => exact hstep _ _ ih hi

/-- Every input of a list meets `ok` in the state it is given in. -/
def AllOk (next : σ → ι → σ) (ok : σ → ι → Prop) : σ → List ι → Prop
  | _, [] => True
  | s, i :: is => ok s i ∧ AllOk next ok (next s i) is

instance AllOk.decidable [∀ s i, Decidable (ok s i)] :
    (s : σ) → (is : List ι) → Decidable (AllOk next ok s is)
  | _, [] => .isTrue trivial
  | s, i :: is =>
    have := AllOk.decidable (next s i) is
    inferInstanceAs (Decidable (ok s i ∧ AllOk next ok (next s i) is))

/-- **A list of inputs is a run.** -/
theorem of_list {s : σ} (hs : Reach next ok s₀ s) (is : List ι)
    (h : AllOk next ok s is) : Reach next ok s₀ (is.foldl next s) := by
  induction is generalizing s with
  | nil => exact hs
  | cons i is ih => exact ih (hs.step h.1) h.2

/-- **Two conditions on the inputs** that agree wherever an invariant holds, which inputs that
meet the first keep, are met by the same lists. -/
theorem AllOk.iff_of_invariant {ok' : σ → ι → Prop} (I : σ → Prop)
    (hiff : ∀ s i, I s → (ok s i ↔ ok' s i)) (hstep : ∀ s i, I s → ok s i → I (next s i)) {s : σ}
    (hs : I s) (is : List ι) : AllOk next ok s is ↔ AllOk next ok' s is := by
  induction is generalizing s with
  | nil => exact Iff.rfl
  | cons i is ih =>
    unfold AllOk
    rw [← hiff s i hs]
    exact and_congr_right fun h => ih (hstep s i hs h)

end Reach

/-! ## One of several parties moves -/

/-- A list of parties around the one that moves, before and after. -/
theorem exists_split_set {α : Type*} {l : List α} {p : ℕ} {a : α} (h : l[p]? = some a) :
    ∃ l₁ l₂, l = l₁ ++ a :: l₂ ∧ ∀ b, l.set p b = l₁ ++ b :: l₂ := by
  obtain ⟨hlt, hval⟩ := List.getElem?_eq_some_iff.mp h
  refine ⟨l.take p, l.drop (p + 1), ?_, fun b => ?_⟩
  · rw [← hval, List.cons_getElem_drop_succ, List.take_append_drop]
  · rw [List.set_eq_take_append_cons_drop, if_pos hlt]

/-! ## What a log says of one key -/

section History

variable {κ ε σ : Type*} [DecidableEq κ] {next : σ → ε → Option σ} {s₀ : σ}

/-- The entries of a log that are about a key, in order. -/
def history (log : List (κ × ε)) (k : κ) : List ε :=
  (log.filter fun e => e.1 = k).map Prod.snd

theorem history_append_same (log : List (κ × ε)) (k : κ) (es : List ε) :
    history (log ++ es.map (Prod.mk k)) k = history log k ++ es := by
  have hall : (es.map (Prod.mk k)).filter (fun e => e.1 = k) = es.map (Prod.mk k) := by
    refine List.filter_eq_self.mpr fun e he => ?_
    obtain ⟨_, -, rfl⟩ := List.mem_map.mp he
    exact decide_eq_true rfl
  rw [history, List.filter_append, hall, List.map_append, List.map_map, ← history]
  exact congrArg (history log k ++ ·) (List.map_id es)

theorem history_append_ne (log : List (κ × ε)) {k k' : κ} (h : k ≠ k') (es : List ε) :
    history (log ++ es.map (Prod.mk k')) k = history log k := by
  have hnone : (es.map (Prod.mk k')).filter (fun e => e.1 = k) = [] := by
    refine List.filter_eq_nil_iff.mpr fun e he => ?_
    obtain ⟨_, -, rfl⟩ := List.mem_map.mp he
    exact fun hk => h (of_decide_eq_true hk).symm
  rw [history, List.filter_append, hnone, List.append_nil, ← history]

/-- Where the history of a key leads, if it follows the law. -/
def follow (next : σ → ε → Option σ) (s₀ : σ) (log : List (κ × ε)) (k : κ) : Option σ :=
  (history log k).foldlM next s₀

theorem follow_append_same (log : List (κ × ε)) (k : κ) (es : List ε) {s : σ}
    (h : follow next s₀ log k = some s) :
    follow next s₀ (log ++ es.map (Prod.mk k)) k = es.foldlM next s := by
  unfold follow at h ⊢
  rw [history_append_same, List.foldlM_append, h]
  rfl

theorem follow_append_ne (log : List (κ × ε)) {k k' : κ} (h : k ≠ k') (es : List ε) :
    follow next s₀ (log ++ es.map (Prod.mk k')) k = follow next s₀ log k := by
  unfold follow
  rw [history_append_ne log h]

end History
