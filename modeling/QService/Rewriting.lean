import Mathlib.Tactic

/-!
# Rewriting

Two steps from one place may lead to two places. If these are never more than one
further step each from a common one (`Diamond`), then all ways from a place to an end are
of one length, and one way that ends is enough for every way to end (`Ends.acc`).

The steps of interest here replace a word `u` that occurs in another one by a word `v`,
at whatever place. When no beginning of `u` is an end of it, two occurrences do not
overlap, and the steps meet again (`diamond_rewrites`). Whether such steps come to an end is
hard to tell in general. They do when `v` is not longer than `u`, when no end of `v` begins
`u`, as the letters of `v` are then of no use for another occurrence but together with old
ones that it uses up, and when there is a `Scale` on which `v` is lighter than `u`
(`wellFounded_rewrites`). For a word of two letters this is all there is
(`lighter_pair`, `Grows.not_acc`).

Nothing here is about one program.
-/

namespace Rewriting

/-! ## Steps that meet again -/

section Descent

variable {α : Type*} {r : α → α → Prop} {x y z : α} {n : ℕ}

/-- Two steps from one place lead to one place, or meet after one more step each. -/
def Diamond (r : α → α → Prop) : Prop :=
  ∀ x y z, r x y → r x z → y = z ∨ ∃ t, r y t ∧ r z t

/-- Some way from here ends after so many steps. -/
inductive Ends (r : α → α → Prop) : ℕ → α → Prop
  | here {x : α} (h : ∀ y, ¬ r x y) : Ends r 0 x
  | step {n : ℕ} {x y : α} (hxy : r x y) (h : Ends r n y) : Ends r (n + 1) x

/-- **All ways that end have one length**: whatever the first step, a way that ends goes on
from there, and is shorter by this step. -/
theorem Ends.of_step (hr : Diamond r) (h : Ends r n x) (hz : r x z) :
    ∃ m, n = m + 1 ∧ Ends r m z := by
  induction h generalizing z with
  | here h => exact absurd hz (h z)
  | @step n x y hxy h ih =>
    refine ⟨n, rfl, ?_⟩
    obtain rfl | ⟨t, hyt, hzt⟩ := hr _ _ _ hxy hz
    · exact h
    · obtain ⟨m, rfl, ht⟩ := ih hyt
      exact .step hzt ht

/-- **If one way ends, all do.** -/
theorem Ends.acc (hr : Diamond r) (h : Ends r n x) : Acc (flip r) x := by
  induction n generalizing x with
  | zero =>
    refine ⟨x, fun y hy => ?_⟩
    obtain ⟨m, hm, -⟩ := h.of_step hr hy
    cases hm
  | succ n ih =>
    refine ⟨x, fun y hy => ?_⟩
    obtain ⟨m, hm, hends⟩ := h.of_step hr hy
    cases hm
    exact ih hends

end Descent

/-! ## One word for another -/

section Words

variable {α : Type*} {u v p q x y : List α} {k : ℕ}

/-- One occurrence of `u` is replaced by `v`. -/
def Rewrites (u v x y : List α) : Prop := ∃ p q, x = p ++ (u ++ q) ∧ y = p ++ (v ++ q)

/-- No beginning of a word is an end of it, but for the whole. -/
def Unbordered (u : List α) : Prop := ∀ w, w <+: u → w <:+ u → w = [] ∨ w = u

/-- No end of the first word is a beginning of the second. -/
def Apart (u v : List α) : Prop := ∀ w, w <:+ u → w <+: v → w = []

/-- An occurrence in front is the same as the one behind `d`, or ends before it. -/
theorem Unbordered.front (hu : Unbordered u) {d q' : List α}
    (h : u ++ q = d ++ (u ++ q')) :
    (d = [] ∧ q = q') ∨ ∃ m, d = u ++ m ∧ q = m ++ (u ++ q') := by
  rcases List.append_eq_append_iff.mp h with ⟨m, hd, hq⟩ | ⟨w, hw, hq⟩
  · exact Or.inr ⟨m, hd, hq⟩
  · -- what both occurrences share is an end of the one and a beginning of the other
    have hsuffix : w <:+ u := ⟨d, hw.symm⟩
    have hprefix : w <+: u :=
      List.prefix_of_prefix_length_le ⟨q, hq.symm⟩ (List.prefix_append u q')
        (hw ▸ by rw [List.length_append]; omega)
    rcases hu w hprefix hsuffix with rfl | rfl
    · rw [List.append_nil] at hw
      exact Or.inr ⟨[], by rw [List.append_nil, hw], hq.symm⟩
    · have hd : d = [] := List.append_left_eq_self.mp hw.symm
      exact Or.inl ⟨hd, (List.append_cancel_left hq).symm⟩

/-- The two steps at occurrences of which the first ends before the second. -/
theorem rewrites_apart (u v p m q : List α) :
    ∃ t, Rewrites u v (p ++ (v ++ (m ++ (u ++ q)))) t
      ∧ Rewrites u v (p ++ (u ++ (m ++ (v ++ q)))) t := by
  refine ⟨p ++ (v ++ (m ++ (v ++ q))), ⟨p ++ (v ++ m), q, ?_, ?_⟩, p, m ++ (v ++ q), rfl, rfl⟩
  · simp only [List.append_assoc]
  · simp only [List.append_assoc]

/-- **Occurrences of an unbordered word do not interfere.** -/
theorem diamond_rewrites (hu : Unbordered u) (v : List α) : Diamond (Rewrites u v) := by
  rintro x y z ⟨p, q, rfl, rfl⟩ ⟨p', q', hx, rfl⟩
  rcases List.append_eq_append_iff.mp hx with ⟨d, rfl, h⟩ | ⟨d, rfl, h⟩
  · rcases hu.front h with ⟨rfl, rfl⟩ | ⟨m, rfl, rfl⟩
    · exact Or.inl (by rw [List.append_nil])
    · simp only [List.append_assoc]
      exact Or.inr (rewrites_apart u v p m q')
  · rcases hu.front h with ⟨rfl, rfl⟩ | ⟨m, rfl, rfl⟩
    · exact Or.inl (by rw [List.append_nil])
    · obtain ⟨t, ht, ht'⟩ := rewrites_apart u v p' m q
      simp only [List.append_assoc]
      exact Or.inr ⟨t, ht', ht⟩

/-! ## Steps that come to an end -/

/-- A measure that every step makes smaller. -/
theorem wellFounded_of_lt (f : List α → ℕ)
    (hf : ∀ p q, f (p ++ (v ++ q)) < f (p ++ (u ++ q))) : WellFounded (flip (Rewrites u v)) := by
  refine Subrelation.wf ?_ (measure f).wf
  rintro y x ⟨p, q, rfl, rfl⟩
  exact hf p q

theorem wellFounded_of_length_lt (h : v.length < u.length) :
    WellFounded (flip (Rewrites u v)) := by
  refine wellFounded_of_lt List.length fun p q => ?_
  simp only [List.length_append]
  omega

section Value

variable [DecidableEq α]

/-- A word read as a binary number, in which one letter is the digit 1. -/
def value (a : α) : List α → ℕ
  | [] => 0
  | c :: x => (if c = a then 2 ^ x.length else 0) + value a x

theorem value_lt (a : α) (x : List α) : value a x < 2 ^ x.length := by
  induction x with
  | nil => exact Nat.one_pos
  | cons c x ih =>
    rw [value, List.length_cons, pow_succ]
    split_ifs <;> omega

theorem value_append_lt (a : α) (h : x.length = y.length) (hlt : value a x < value a y)
    (p : List α) : value a (p ++ x) < value a (p ++ y) := by
  induction p with
  | nil => exact hlt
  | cons c p ih =>
    rw [List.cons_append, List.cons_append, value, value, List.length_append,
      List.length_append, h]
    omega

/-- Two words of one length differ for the first time somewhere. -/
theorem exists_first_difference (hlen : u.length = v.length) (hne : u ≠ v) :
    ∃ (c : List α) (a b : α) (d e : List α),
      a ≠ b ∧ d.length = e.length ∧ u = c ++ a :: d ∧ v = c ++ b :: e := by
  induction u generalizing v with
  | nil => exact absurd (List.eq_nil_of_length_eq_zero hlen.symm).symm hne
  | cons a u ih =>
    cases v with
    | nil => cases hlen
    | cons b v =>
      have hlen' : u.length = v.length := Nat.succ.inj hlen
      by_cases hab : a = b
      · subst hab
        obtain ⟨c, a', b', d, e, hne', hde, rfl, rfl⟩ := ih hlen' fun h => hne (h ▸ rfl)
        exact ⟨a :: c, a', b', d, e, hne', hde, rfl, rfl⟩
      · exact ⟨[], a, b, u, v, hab, hlen', rfl, rfl⟩

/-- **A replacement of the same length** makes the number smaller in which the first letter of
`u` that is another in `v` is the digit 1. -/
theorem wellFounded_of_length_eq (hlen : v.length = u.length) (hne : u ≠ v) :
    WellFounded (flip (Rewrites u v)) := by
  obtain ⟨c, a, b, d, e, hab, hde, rfl, rfl⟩ := exists_first_difference hlen.symm hne
  refine wellFounded_of_lt (value a) fun p q => ?_
  rw [← List.append_assoc, ← List.append_assoc, ← List.append_assoc p, ← List.append_assoc p,
    List.append_assoc, List.append_assoc (p ++ c)]
  refine value_append_lt a (by simp [hde]) ?_ (p ++ c)
  rw [List.cons_append, List.cons_append, value, value, if_neg hab.symm, if_pos rfl]
  have hlt := value_lt a (e ++ q)
  have hlength : (d ++ q).length = (e ++ q).length := by
    rw [List.length_append, List.length_append, hde]
  rw [hlength]
  omega

end Value

/-- A word with so many old letters, and ends of `v` in between. -/
inductive Marked (v : List α) : ℕ → List α → Prop
  | nil : Marked v 0 []
  | old {k : ℕ} {x : List α} (c : α) (h : Marked v k x) : Marked v (k + 1) (c :: x)
  | new {k : ℕ} {w x : List α} (hw : w <:+ v) (h : Marked v k x) : Marked v k (w ++ x)

/-- At first all letters are old. -/
theorem Marked.self (v x : List α) : Marked v x.length x := by
  induction x with
  | nil => exact .nil
  | cons c x ih => exact .old c ih

/-- An end of the word has no more old letters. -/
theorem Marked.of_append (h : Marked v k (y ++ q)) : ∃ j, j ≤ k ∧ Marked v j q := by
  generalize hx : y ++ q = x at h
  induction h generalizing y with
  | nil =>
    obtain ⟨-, rfl⟩ := List.append_eq_nil_iff.mp hx
    exact ⟨0, le_rfl, .nil⟩
  | @old k x c h ih =>
    cases y with
    | nil =>
      rw [List.nil_append] at hx
      exact ⟨k + 1, le_rfl, hx ▸ .old c h⟩
    | cons b y =>
      obtain ⟨j, hj, hq⟩ := ih (List.cons.inj hx).2
      exact ⟨j, hj.trans (Nat.le_succ k), hq⟩
  | @new k w x hw h ih =>
    rcases List.append_eq_append_iff.mp hx with ⟨a, rfl, rfl⟩ | ⟨a, rfl, hxa⟩
    · exact ⟨k, le_rfl, .new ((List.suffix_append y a).trans hw) h⟩
    · exact ih hxa.symm

/-- **Each step uses up an old letter**: an occurrence of `u` does not begin in an end of `v`. -/
theorem Marked.rewrite (huv : ¬ u <:+: v) (hapart : Apart v u)
    (h : Marked v k (p ++ (u ++ q))) : ∃ j, j < k ∧ Marked v j (p ++ (v ++ q)) := by
  have hu : u ≠ [] := fun hu => huv (hu ▸ List.nil_infix)
  generalize hx : p ++ (u ++ q) = x at h
  induction h generalizing p with
  | nil => exact absurd (List.append_eq_nil_iff.mp (List.append_eq_nil_iff.mp hx).2).1 hu
  | @old k x c h ih =>
    cases p with
    | nil =>
      obtain ⟨b, u', rfl⟩ := List.exists_cons_of_ne_nil hu
      obtain ⟨-, rfl⟩ := List.cons.inj hx
      obtain ⟨j, hj, hq⟩ := h.of_append
      have hnew : Marked v j (v ++ q) := .new List.suffix_rfl hq
      exact ⟨j, Nat.lt_succ_of_le hj, hnew⟩
    | cons b p =>
      obtain ⟨rfl, hx'⟩ := List.cons.inj hx
      obtain ⟨j, hj, hq⟩ := ih hx'
      exact ⟨j + 1, Nat.succ_lt_succ hj, .old b hq⟩
  | @new k w x hw h ih =>
    rcases List.append_eq_append_iff.mp hx with ⟨a, rfl, ha⟩ | ⟨a, rfl, hxa⟩
    · have hav : a <:+ v := (List.suffix_append p a).trans hw
      rcases List.append_eq_append_iff.mp ha with ⟨b, rfl, -⟩ | ⟨b, hub, hxb⟩
      · exact absurd ((List.prefix_append u b).isInfix.trans hav.isInfix) huv
      · have hnil : a = [] := hapart a hav ⟨b, hub.symm⟩
        subst hnil
        rw [List.nil_append] at hub
        obtain ⟨j, hj, hq⟩ := ih (p := []) (by rw [hxb, hub]; rfl)
        rw [List.append_nil] at hw
        exact ⟨j, hj, .new hw hq⟩
    · obtain ⟨j, hj, hq⟩ := ih hxa.symm
      exact ⟨j, hj, List.append_assoc w a (v ++ q) ▸ .new hw hq⟩

/-- No end of `v` begins `u`. -/
theorem wellFounded_of_apart (huv : ¬ u <:+: v) (hapart : Apart v u) :
    WellFounded (flip (Rewrites u v)) := by
  have hacc : ∀ k x, Marked v k x → Acc (flip (Rewrites u v)) x := by
    intro k
    induction k using Nat.strongRecOn with
    | ind k ih =>
      intro x hx
      refine ⟨x, ?_⟩
      rintro y ⟨p, q, rfl, rfl⟩
      obtain ⟨j, hj, hy⟩ := hx.rewrite huv hapart
      exact ih j hj _ hy
  exact ⟨fun x => hacc _ x (Marked.self v x)⟩

theorem Rewrites.reverse (h : Rewrites u v x y) :
    Rewrites u.reverse v.reverse x.reverse y.reverse := by
  obtain ⟨p, q, rfl, rfl⟩ := h
  refine ⟨q.reverse, p.reverse, ?_, ?_⟩
  · simp only [List.reverse_append, List.append_assoc]
  · simp only [List.reverse_append, List.append_assoc]

/-- The same from the other side. -/
theorem wellFounded_of_reverse (h : WellFounded (flip (Rewrites u.reverse v.reverse))) :
    WellFounded (flip (Rewrites u v)) :=
  Subrelation.wf (fun h => Rewrites.reverse h) (InvImage.wf List.reverse h)

/-! ### Scales -/

/-- A way to weigh words. A word is read from its end: each letter leads from one state to the
next, and weighs so much in the state it is read in. From a higher state a letter leads to a
state as high, and weighs as much. -/
structure Scale (α : Type*) where
  step : α → ℕ → ℕ
  cost : α → ℕ → ℕ
  monotone_step : ∀ c, Monotone (step c)
  monotone_cost : ∀ c, Monotone (cost c)

namespace Scale

variable (S : Scale α)

/-- The state after a word. -/
def state (x : List α) (k : ℕ) : ℕ := x.foldr S.step k

/-- What a word weighs. -/
def weight : List α → ℕ → ℕ
  | [], _ => 0
  | c :: x, k => S.cost c (S.state x k) + weight x k

theorem state_cons (c : α) (x : List α) (k : ℕ) :
    S.state (c :: x) k = S.step c (S.state x k) := rfl

theorem state_append (x y : List α) (k : ℕ) : S.state (x ++ y) k = S.state x (S.state y k) :=
  List.foldr_append

theorem weight_append (x y : List α) (k : ℕ) :
    S.weight (x ++ y) k = S.weight x (S.state y k) + S.weight y k := by
  induction x with
  | nil => exact (Nat.zero_add _).symm
  | cons c x ih =>
    rw [List.cons_append, weight, weight, ih, state_append, Nat.add_assoc]

theorem monotone_state (x : List α) : Monotone (S.state x) := by
  induction x with
  | nil => exact monotone_id
  | cons c x ih => exact (S.monotone_step c).comp ih

theorem monotone_weight (x : List α) : Monotone (S.weight x) := by
  induction x with
  | nil => exact monotone_const
  | cons c x ih => exact ((S.monotone_cost c).comp (S.monotone_state x)).add ih

end Scale

/-- On some scale `v` is lighter than `u` in whatever state, and leads to no higher one. -/
def Lighter (u v : List α) : Prop :=
  ∃ S : Scale α, ∀ k, S.state v k ≤ S.state u k ∧ S.weight v k < S.weight u k

/-- What stands before and behind a lighter word is no heavier for it. -/
theorem wellFounded_of_lighter (h : Lighter u v) : WellFounded (flip (Rewrites u v)) := by
  obtain ⟨S, hS⟩ := h
  refine wellFounded_of_lt (S.weight · 0) fun p q => ?_
  obtain ⟨hstate, hweight⟩ := hS (S.state q 0)
  have hfront := S.monotone_weight p hstate
  simp only [S.weight_append, S.state_append]
  omega

/-- **When replacing a word comes to an end**, in whatever word and order. -/
theorem wellFounded_rewrites (huv : ¬ u <:+: v)
    (h : v.length ≤ u.length ∨ Apart v u ∨ Lighter u v ∨ Lighter u.reverse v.reverse) :
    WellFounded (flip (Rewrites u v)) := by
  classical
  rcases h with h | h | h | h
  · rcases h.lt_or_eq with hlt | heq
    · exact wellFounded_of_length_lt hlt
    · exact wellFounded_of_length_eq heq fun hne => huv (hne ▸ List.infix_rfl)
  · exact wellFounded_of_apart huv h
  · exact wellFounded_of_lighter h
  · exact wellFounded_of_reverse (wellFounded_of_lighter h)

end Words

/-! ## Words of two letters -/

section Pairs

variable {α : Type*} {x y : α} {v w s t p q : List α} {k : ℕ}

theorem pair_infix_append :
    [x, y] <:+: p ++ q ↔ [x, y] <:+: p ∨ [x, y] <:+: q ∨ [x] <:+ p ∧ [y] <+: q := by
  constructor
  · rintro ⟨a, b, h⟩
    rw [List.append_assoc] at h
    rcases List.append_eq_append_iff.mp h with ⟨m, rfl, hm⟩ | ⟨m, rfl, rfl⟩
    · rcases m with _ | ⟨c, _ | ⟨d, m⟩⟩
      · exact .inr (.inl ⟨[], b, hm⟩)
      · obtain ⟨rfl, rfl⟩ : x = c ∧ y :: b = q := by simpa using hm
        exact .inr (.inr ⟨List.suffix_append a [x], List.prefix_append [y] b⟩)
      · obtain ⟨rfl, rfl, -⟩ : x = c ∧ y = d ∧ b = m ++ q := by simpa using hm
        exact .inl ⟨a, m, by simp⟩
    · exact .inr (.inl ⟨m, b, by simp⟩)
  · rintro (h | h | ⟨⟨a, rfl⟩, ⟨b, rfl⟩⟩)
    · exact h.trans (List.prefix_append p q).isInfix
    · exact h.trans (List.suffix_append p q).isInfix
    · exact ⟨a, b, by simp⟩

section Scales

variable [DecidableEq α]

/-- What a letter `x` weighs in front of so many letters `y`, if each that passes it leaves so
many letters `x`. -/
def height (j : ℕ) : ℕ → ℕ
  | 0 => 0
  | k + 1 => 1 + (j + 1) * height j k

theorem monotone_height (j : ℕ) : Monotone (height j) := by
  refine monotone_nat_of_le_succ fun k => ?_
  rw [height, Nat.add_mul, Nat.one_mul]
  omega

/-- The letters `y` that stand in front are counted, up to one that is neither `x` nor
`y`. -/
def passing (x y : α) (j : ℕ) : Scale α where
  step c k := if c = y then k + 1 else if c = x then k else 0
  cost c k := if c = x then height j k else 0
  monotone_step c := by
    intro k l hkl
    dsimp only
    split_ifs <;> omega
  monotone_cost c := by
    intro k l hkl
    have := monotone_height j hkl
    dsimp only
    split_ifs <;> omega

/-- A word without `xy` that does not begin with `y` lets no more letters `y` pass. -/
theorem passing_le (hxy : x ≠ y) (j k : ℕ) (hw : ¬ [x, y] <:+: w) :
    (passing x y j).weight w k ≤ w.length * height j k
      ∧ ([y] <+: w ∨ (passing x y j).state w k ≤ k) := by
  induction w with
  | nil => exact ⟨Nat.zero_le _, .inr le_rfl⟩
  | cons c w ih =>
    obtain ⟨hweight, hstate⟩ := ih fun h => hw (List.infix_cons h)
    rw [Scale.weight, Scale.state_cons, List.length_cons, Nat.add_mul, Nat.one_mul]
    generalize (passing x y j).state w k = l at hstate ⊢
    by_cases hcy : c = y
    · subst hcy
      have hcost : (passing x c j).cost c l = 0 := if_neg hxy.symm
      exact ⟨by omega, .inl (List.prefix_append [c] w)⟩
    by_cases hcx : c = x
    · subst hcx
      -- here the next letter is no `y`
      have hle := hstate.resolve_left fun h =>
        hw (List.cons_prefix_cons.mpr ⟨rfl, h⟩ : [c, y] <+: c :: w).isInfix
      have hcost : (passing c y j).cost c l = height j l := if_pos rfl
      have hstep : (passing c y j).step c l = l := (if_neg hcy).trans (if_pos rfl)
      have := monotone_height j hle
      exact ⟨by omega, .inr (by omega)⟩
    · have hcost : (passing x y j).cost c l = 0 := if_neg hcx
      have hstep : (passing x y j).step c l = 0 := (if_neg hcy).trans (if_neg hcx)
      exact ⟨by omega, .inr (by omega)⟩

/-- **A word that begins with no two letters `y`** is lighter than `xy`. -/
theorem lighter_pair (hxy : x ≠ y) (huv : ¬ [x, y] <:+: v) (hv : ¬ [y, y] <+: v) :
    Lighter [x, y] v := by
  refine ⟨passing x y v.length, fun k => ?_⟩
  obtain ⟨hweight, hstate⟩ := passing_le hxy v.length k huv
  have hstate' : (passing x y v.length).state [x, y] k = k + 1 := by
    simp [Scale.state, passing, hxy]
  have hweight' : (passing x y v.length).weight [x, y] k
      = 1 + (v.length + 1) * height v.length k := by
    simp [Scale.weight, Scale.state, passing, hxy.symm, height]
  rw [hstate', hweight', Nat.add_mul, Nat.one_mul]
  refine ⟨?_, by omega⟩
  cases v with
  | nil => exact Nat.le_succ k
  | cons c v =>
    by_cases hcy : c = y
    · subst hcy
      obtain ⟨-, htail⟩ := passing_le hxy (c :: v).length k fun h => huv (List.infix_cons h)
      have hle := htail.resolve_left fun h => hv (List.cons_prefix_cons.mpr ⟨rfl, h⟩)
      rw [Scale.state_cons]
      exact (if_pos rfl).trans_le (Nat.succ_le_succ hle)
    · have hle := hstate.resolve_left fun h => hcy (List.cons_prefix_cons.mp h).1.symm
      exact hle.trans (Nat.le_succ k)

/-- The places are counted where `x` stands before `x`. -/
def adjacent (x : α) : Scale α where
  step c _ := if c = x then 1 else 0
  cost c k := if c = x then k else 0
  monotone_step _ := monotone_const
  monotone_cost c := by
    intro k l hkl
    dsimp only
    split_ifs <;> omega

theorem adjacent_le (hw : ¬ [x, x] <:+: w) (k : ℕ) : (adjacent x).weight w k ≤ k := by
  induction w with
  | nil => exact Nat.zero_le k
  | cons c w ih =>
    have hle := ih fun h => hw (List.infix_cons h)
    rw [Scale.weight]
    by_cases hcx : c = x
    · subst hcx
      cases w with
      | nil =>
        have hcost : (adjacent c).cost c ((adjacent c).state [] k) = k := if_pos rfl
        rw [hcost, Scale.weight, Nat.add_zero]
      | cons b w =>
        have hbc : b ≠ c := by
          rintro rfl
          exact hw (List.prefix_append [b, b] w).isInfix
        have hstate : (adjacent c).state (b :: w) k = 0 := if_neg hbc
        have hcost : (adjacent c).cost c 0 = 0 := if_pos rfl
        rwa [hstate, hcost, Nat.zero_add]
    · have hcost : (adjacent x).cost c ((adjacent x).state w k) = 0 := if_neg hcx
      rwa [hcost, Nat.zero_add]

/-- **A word without `xx`** is lighter than `xx`, if there is a letter in it. -/
theorem lighter_self (hv : v ≠ []) (huv : ¬ [x, x] <:+: v) : Lighter [x, x] v := by
  refine ⟨adjacent x, fun k => ⟨?_, ?_⟩⟩
  · obtain ⟨c, v, rfl⟩ := List.exists_cons_of_ne_nil hv
    have hstate : (adjacent x).state [x, x] k = 1 := if_pos rfl
    rw [hstate, Scale.state_cons]
    show (if c = x then 1 else 0) ≤ 1
    split_ifs <;> omega
  · have hweight : (adjacent x).weight [x, x] k = k + 1 := by
      simp [Scale.weight, Scale.state, adjacent, Nat.add_comm]
    rw [hweight]
    exact Nat.lt_succ_of_le (adjacent_le huv k)

end Scales

/-- The words from which `xy` comes back for ever, when what it is replaced by begins with two
letters `y` and ends with two letters `x`. -/
def Grows (x y : α) (s : List α) : Prop :=
  [x, x, y] <:+: s ∨ [x, y, y] <:+: s ∨ [x, y, x, y] <:+: s

theorem Grows.mono (h : Grows x y s) (hst : s <:+: t) : Grows x y t :=
  h.imp (·.trans hst) (Or.imp (·.trans hst) (·.trans hst))

/-- **Such a word leads to another one**, by replacing the `xy` that makes it one. -/
theorem Grows.rewrites (hy : [y, y] <+: v) (hx : [x, x] <:+ v) (h : Grows x y s) :
    ∃ t, Rewrites [x, y] v s t ∧ Grows x y t := by
  obtain ⟨m, hm⟩ := hy
  obtain ⟨m', hm'⟩ := hx
  rcases h with ⟨p, q, rfl⟩ | ⟨p, q, rfl⟩ | ⟨p, q, rfl⟩
  · refine ⟨_, ⟨p ++ [x], q, by simp, rfl⟩, .inr (.inl ⟨p, m ++ q, ?_⟩)⟩
    rw [← hm]
    simp
  · refine ⟨_, ⟨p, y :: q, by simp, rfl⟩, .inl ⟨p ++ m', q, ?_⟩⟩
    rw [← hm']
    simp
  · refine ⟨_, ⟨p, x :: y :: q, by simp, rfl⟩, .inl ⟨p ++ m' ++ [x], q, ?_⟩⟩
    rw [← hm']
    simp

theorem Grows.not_acc (hy : [y, y] <+: v) (hx : [x, x] <:+ v) (h : Grows x y s) :
    ¬ Acc (flip (Rewrites [x, y] v)) s := by
  intro hacc
  induction hacc with
  | intro s _ ih =>
    obtain ⟨t, hst, ht⟩ := h.rewrites hy hx
    exact ih t hst ht

theorem unbordered_pair (hxy : x ≠ y) : Unbordered [x, y] := by
  rintro w ⟨a, ha⟩ ⟨b, hb⟩
  rcases w with _ | ⟨c, _ | ⟨d, w⟩⟩
  · exact .inl rfl
  · obtain ⟨rfl, -⟩ : c = x ∧ a = [y] := by simpa using ha
    have hlast := congrArg List.getLast? hb
    simp at hlast
    exact absurd hlast hxy
  · obtain ⟨rfl, rfl, rfl, -⟩ : c = x ∧ d = y ∧ w = [] ∧ a = [] := by simpa using ha
    exact .inr rfl

end Pairs

end Rewriting
