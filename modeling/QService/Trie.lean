import Mathlib.Tactic

/-!
# Tries and scans without failure links

A trie holds a set of words as the tree of their prefixes; a node is the map
from the next letter to the node behind it. There is a node for every prefix of
a word and no other (`walk_ofWords`), and the nodes without a child are those of
the words that no other word goes on from.

`scan` reads a text with a trie the simple way: it follows the letters down the
trie, starts again at the root with the letter that does not fit, and reports a
hit at a node without a child. The hits can be told from the words alone
(`mem_scan`). The scan starts at the beginning, and after each start again behind
the longest piece of text that begins a word (`reach`, `scanStart`); what it
finds are the words that begin at a start and that no other word goes on from
(`Hit`).
-/

/-- A trie: the map of a node, entry by entry. -/
inductive Trie (α : Type*)
  | empty
  | cons (a : α) (child rest : Trie α)
  deriving DecidableEq, Repr

namespace Trie

variable {α : Type*}

/-- The node has no child. -/
def isEmpty : Trie α → Bool
  | empty => true
  | cons _ _ _ => false

variable [DecidableEq α]

/-- The child at a letter. -/
def find : Trie α → α → Option (Trie α)
  | empty, _ => none
  | cons a child rest, b => if a = b then some child else rest.find b

/-- Put a child at a letter. -/
def set : Trie α → α → Trie α → Trie α
  | empty, b, x => cons b x empty
  | cons a child rest, b, x => if a = b then cons a x rest else cons a child (rest.set b x)

@[simp] theorem find_empty (a : α) : (empty : Trie α).find a = none := rfl

theorem find_set (m : Trie α) (a b : α) (x : Trie α) :
    (m.set a x).find b = if b = a then some x else m.find b := by
  induction m with
  | empty =>
    show (if a = b then some x else none) = _
    simp only [eq_comm, find_empty]
  | cons c child rest _ ih =>
    unfold set
    by_cases hca : c = a
    · subst hca
      rw [if_pos rfl]
      unfold find
      simp only [eq_comm]
      split <;> rfl
    · rw [if_neg hca]
      unfold find
      rw [ih]
      by_cases hcb : c = b
      · rw [if_pos hcb, if_pos hcb, if_neg fun h => hca (hcb.trans h)]
      · rw [if_neg hcb, if_neg hcb]

theorem isEmpty_iff {m : Trie α} : m.isEmpty = true ↔ ∀ a, m.find a = none := by
  cases m with
  | empty => exact iff_of_true rfl fun _ => rfl
  | cons a child rest =>
    refine iff_of_false Bool.false_ne_true fun h => ?_
    have hfind : (cons a child rest).find a = some child := if_pos rfl
    rw [h a] at hfind
    cases hfind

theorem isEmpty_of_find {m q : Trie α} {a : α} (h : m.find a = some q) : m.isEmpty = false := by
  refine Bool.eq_false_iff.mpr fun he => ?_
  rw [isEmpty_iff.mp he a] at h
  cases h

/-! ## Words -/

/-- Add a word. -/
def insert : Trie α → List α → Trie α
  | m, [] => m
  | m, a :: w =>
    match m.find a with
    | none => m.set a (insert empty w)
    | some q => m.set a (q.insert w)

/-- The node behind some letters. -/
def walk : Trie α → List α → Option (Trie α)
  | m, [] => some m
  | m, a :: u => (m.find a).bind fun q => q.walk u

/-- The trie of some words. -/
def ofWords (W : List (List α)) : Trie α := W.foldl insert empty

@[simp] theorem walk_nil (m : Trie α) : m.walk [] = some m := rfl

theorem walk_cons (m : Trie α) (a : α) (u : List α) :
    m.walk (a :: u) = (m.find a).bind fun q => q.walk u := rfl

theorem walk_empty {u : List α} : ((empty : Trie α).walk u).isSome ↔ u = [] := by
  cases u with
  | nil => exact iff_of_true rfl rfl
  | cons a u => exact iff_of_false Bool.false_ne_true (List.cons_ne_nil a u)

theorem walk_append (m : Trie α) (u v : List α) :
    m.walk (u ++ v) = (m.walk u).bind fun q => q.walk v := by
  induction u generalizing m with
  | nil => rfl
  | cons a u ih =>
    rw [List.cons_append, walk_cons, walk_cons, Option.bind_assoc]
    exact Option.bind_congr fun q _ => ih q

theorem insert_cons (m : Trie α) (a : α) (w : List α) :
    m.insert (a :: w) = m.set a (((m.find a).getD empty).insert w) := by
  rw [insert]
  cases m.find a <;> rfl

/-- **The nodes of a word that is added** are its prefixes. -/
theorem walk_insert (m : Trie α) (w u : List α) :
    ((m.insert w).walk u).isSome ↔ u <+: w ∨ (m.walk u).isSome := by
  induction w generalizing m u with
  | nil =>
    refine ⟨.inr, ?_⟩
    rintro (hu | h)
    · rw [List.prefix_nil.mp hu]
      rfl
    · exact h
  | cons a w ih =>
    cases u with
    | nil => exact iff_of_true rfl (.inr rfl)
    | cons b u =>
      -- the child that the word goes on in
      obtain ⟨q, hq, hwalk⟩ : ∃ q : Trie α, m.insert (a :: w) = m.set a (q.insert w)
          ∧ ((q.walk u).isSome ↔ u = [] ∨ ((m.find a).bind fun q => q.walk u).isSome) := by
        rw [insert_cons]
        cases m.find a with
        | none => exact ⟨empty, rfl, walk_empty.trans (by simp)⟩
        | some q =>
          refine ⟨q, rfl, ⟨.inr, ?_⟩⟩
          rintro (rfl | h)
          · rfl
          · exact h
      rw [hq, walk_cons, walk_cons, find_set, List.cons_prefix_cons]
      by_cases hba : b = a
      · subst hba
        rw [if_pos rfl, Option.bind_some, ih, hwalk]
        simp only [true_and]
        refine ⟨?_, Or.imp_right .inr⟩
        rintro (h | rfl | h)
        · exact .inl h
        · exact .inl (List.nil_prefix)
        · exact .inr h
      · rw [if_neg hba]
        simp only [hba, false_and, false_or]

/-- The letters begin a word. -/
def Begins (W : List (List α)) (u : List α) : Prop := ∃ w ∈ W, u <+: w

instance (W : List (List α)) (u : List α) : Decidable (Begins W u) :=
  inferInstanceAs (Decidable (∃ w ∈ W, u <+: w))

omit [DecidableEq α] in
theorem Begins.of_prefix {W : List (List α)} {u v : List α} (h : Begins W v) (hu : u <+: v) :
    Begins W u := by
  obtain ⟨w, hw, hv⟩ := h
  exact ⟨w, hw, hu.trans hv⟩

/-- **A trie has a node for every prefix of a word**, and the root. -/
theorem walk_ofWords (W : List (List α)) (u : List α) :
    ((ofWords W).walk u).isSome ↔ u = [] ∨ Begins W u := by
  suffices h : ∀ m : Trie α, ((W.foldl insert m).walk u).isSome
      ↔ (m.walk u).isSome ∨ Begins W u by
    exact (h empty).trans (or_congr walk_empty Iff.rfl)
  induction W with
  | nil => exact fun m => ⟨.inl, fun h => h.resolve_right fun ⟨w, hw, _⟩ => List.not_mem_nil hw⟩
  | cons w W ih =>
    intro m
    rw [List.foldl_cons, ih, walk_insert]
    simp only [Begins, List.mem_cons, exists_eq_or_imp]
    tauto

/-- **A node has no child** if and only if no word goes on from it. -/
theorem isEmpty_walk {W : List (List α)} {u : List α} {q : Trie α}
    (hq : (ofWords W).walk u = some q) :
    q.isEmpty = true ↔ ∀ a, ¬ Begins W (u ++ [a]) := by
  rw [isEmpty_iff]
  refine forall_congr' fun a => ?_
  have hnode := walk_ofWords W (u ++ [a])
  rw [walk_append, hq, Option.bind_some, walk_cons] at hnode
  cases hfind : q.find a with
  | none =>
    rw [hfind] at hnode
    exact iff_of_true rfl fun h => Bool.false_ne_true (hnode.mpr (.inr h))
  | some q' =>
    rw [hfind] at hnode
    refine iff_of_false nofun fun h => ?_
    exact (hnode.mp rfl).elim (List.append_ne_nil_of_right_ne_nil _ (List.cons_ne_nil _ _)) h

/-! ## What a scan finds -/

/-- How far a text begins a word. -/
def reach (W : List (List α)) (t : List α) : ℕ :=
  Nat.findGreatest (fun k => Begins W (t.take k)) t.length

/-- The text begins with a word that no other word goes on from. -/
def Hit (W : List (List α)) (t : List α) : Prop :=
  ∃ w ∈ W, w <+: t ∧ ∀ w' ∈ W, w <+: w' → w' = w

instance (W : List (List α)) (t : List α) : Decidable (Hit W t) :=
  inferInstanceAs (Decidable (∃ w ∈ W, w <+: t ∧ ∀ w' ∈ W, w <+: w' → w' = w))

/-- How far the scan goes from a start to the next. -/
def stride (W : List (List α)) (t : List α) : ℕ := max 1 (reach W t)

/-- The starts of the scan. -/
def scanStart (W : List (List α)) : List α → ℕ → ℕ
  | _, 0 => 0
  | t, k + 1 => stride W t + scanStart W (t.drop (stride W t)) k

section Reach

variable {W : List (List α)} {t : List α}

theorem reach_le : reach W t ≤ t.length := Nat.findGreatest_le _

/-- The text begins a word as far as `reach` says and no further. -/
theorem begins_take_iff {k : ℕ} (hk : 0 < k) (hk' : k ≤ t.length) :
    Begins W (t.take k) ↔ k ≤ reach W t := by
  refine ⟨fun h => Nat.le_findGreatest hk' h, fun h => ?_⟩
  have hreach : Begins W (t.take (reach W t)) :=
    Nat.findGreatest_of_ne_zero (m := reach W t) rfl (by omega)
  exact hreach.of_prefix (List.take_prefix_take_left h)

/-- **A hit is as long as the text begins a word.** -/
theorem Hit.take_reach (h : Hit W t) :
    t.take (reach W t) ∈ W ∧ ∀ w' ∈ W, t.take (reach W t) <+: w' → w' = t.take (reach W t) := by
  obtain ⟨w, hw, hwt, hmax⟩ := h
  have hw' : w = t.take w.length := List.prefix_iff_eq_take.mp hwt
  have hle : w.length ≤ reach W t := by
    refine Nat.le_findGreatest hwt.length_le ?_
    rw [← hw']
    exact ⟨w, hw, List.prefix_rfl⟩
  have hge : reach W t ≤ w.length := by
    rcases Nat.eq_zero_or_pos (reach W t) with hz | hpos
    · omega
    · obtain ⟨w', hw₁, hw₂⟩ := (begins_take_iff hpos reach_le).mpr le_rfl
      have hpre : w <+: w' := by
        rw [hw']
        exact (List.take_prefix_take_left hle).trans hw₂
      have hlen := hw₂.length_le
      rw [hmax w' hw₁ hpre, List.length_take, min_eq_left reach_le] at hlen
      exact hlen
  rw [le_antisymm hge hle, ← hw']
  exact ⟨hw, hmax⟩

theorem not_hit_of_reach (hW : ∀ w ∈ W, w ≠ []) (h : reach W t = 0) : ¬ Hit W t := by
  intro hhit
  have hmem := hhit.take_reach.1
  rw [h] at hmem
  exact hW _ hmem rfl

/-- A letter that is in no word begins none. -/
theorem reach_of_not_mem {a : α} (h : ∀ w ∈ W, a ∉ w) (t : List α) : reach W (a :: t) = 0 := by
  by_contra hne
  obtain ⟨w, hw, hpre⟩ := (begins_take_iff (Nat.pos_of_ne_zero hne) reach_le).mpr le_rfl
  refine h w hw (hpre.subset ?_)
  obtain ⟨n, hn⟩ := Nat.exists_eq_succ_of_ne_zero hne
  rw [hn]
  exact List.mem_cons_self

/-- The scan goes letter by letter over a letter that begins no word. -/
theorem scanStart_replicate {a : α} (h : ∀ t, reach W (a :: t) = 0) (n : ℕ) (t : List α) :
    scanStart W (List.replicate n a ++ t) n = n := by
  induction n with
  | zero => rfl
  | succ n ih =>
    rw [List.replicate_succ, List.cons_append, scanStart, stride, h, Nat.max_zero,
      List.drop_one, List.tail_cons, ih, Nat.add_comm]

/-- The next start from the one before. -/
theorem scanStart_succ (W : List (List α)) (t : List α) (k : ℕ) :
    scanStart W t (k + 1) = scanStart W t k + stride W (t.drop (scanStart W t k)) := by
  induction k generalizing t with
  | zero =>
    show stride W t + 0 = 0 + stride W t
    omega
  | succ k ih =>
    rw [scanStart, ih, List.drop_drop, ← Nat.add_assoc]
    rfl

/-- Later starts are behind the strides of earlier ones. -/
theorem scanStart_add_stride_le {k l : ℕ} (h : k < l) :
    scanStart W t k + stride W (t.drop (scanStart W t k)) ≤ scanStart W t l := by
  rw [← scanStart_succ]
  refine monotone_nat_of_le_succ (fun n => ?_) (Nat.succ_le_of_lt h)
  rw [scanStart_succ]
  exact Nat.le_add_right _ _

end Reach

/-! ## The scan -/

/-- Read a text from the position `i` on, at the node behind the letters since the
start `b`. A letter that does not fit is tried again at the root. The hits are given
by their starts and ends. -/
def scan (root : Trie α) : List α → ℕ → ℕ → Trie α → List (ℕ × ℕ)
  | [], _, _, _ => []
  | a :: t, i, b, m =>
    match m.find a with
    | some q =>
      if q.isEmpty then (b, i + 1) :: scan root t (i + 1) (i + 1) root
      else scan root t (i + 1) b q
    | none =>
      match root.find a with
      | some q =>
        if q.isEmpty then (i, i + 1) :: scan root t (i + 1) (i + 1) root
        else scan root t (i + 1) i q
      | none => scan root t (i + 1) (i + 1) root

section Scan

variable {root m q : Trie α} {a : α} {t : List α} {i b : ℕ}

theorem scan_cons_of_find (h : m.find a = some q) :
    scan root (a :: t) i b m
      = if q.isEmpty then (b, i + 1) :: scan root t (i + 1) (i + 1) root
        else scan root t (i + 1) b q := by
  rw [scan, h]

/-- **A letter that does not fit is read at the root.** -/
theorem scan_restart (h : m.find a = none) :
    scan root (a :: t) i b m = scan root (a :: t) i i root := by
  rw [scan, scan, h]
  dsimp only
  cases root.find a <;> rfl

theorem scan_cons_of_root_none (h : root.find a = none) :
    scan root (a :: t) i b root = scan root t (i + 1) (i + 1) root := by
  rw [scan, h]

/-- Letters that lead to a node with a child are followed. -/
theorem scan_walk {u : List α} (h : m.walk u = some q) (hq : q.isEmpty = false) :
    scan root (u ++ t) i b m = scan root t (i + u.length) b q := by
  induction u generalizing m i with
  | nil =>
    cases h
    rfl
  | cons a u ih =>
    rw [walk_cons, Option.bind_eq_some_iff] at h
    obtain ⟨m', hm', hu⟩ := h
    have hne : m'.isEmpty = false := by
      cases u with
      | nil =>
        cases hu
        exact hq
      | cons a' u =>
        rw [walk_cons, Option.bind_eq_some_iff] at hu
        obtain ⟨_, hm'', -⟩ := hu
        exact isEmpty_of_find hm''
    rw [List.cons_append, scan_cons_of_find hm', hne, if_neg Bool.false_ne_true, ih hu,
      List.length_cons, Nat.add_assoc, Nat.add_comm 1]

end Scan

section Words

variable {W : List (List α)} {t : List α}

/-- At the end of what begins a word nothing fits. -/
theorem find_reach {q : Trie α} {a : α} {t' : List α}
    (hq : (ofWords W).walk (t.take (reach W t)) = some q) (ht : t.drop (reach W t) = a :: t') :
    q.find a = none := by
  have hlt : reach W t < t.length := by
    by_contra hge
    rw [List.drop_eq_nil_of_le (not_lt.mp hge)] at ht
    cases ht
  have htake : t.take (reach W t + 1) = t.take (reach W t) ++ [a] := by
    have ha : t[reach W t]? = some a := by
      rw [← List.head?_drop, ht]
      rfl
    rw [List.take_add_one, ha]
    rfl
  have hno : ¬ Begins W (t.take (reach W t + 1)) := by
    rw [begins_take_iff (Nat.succ_pos _) hlt]
    exact Nat.not_succ_le_self _
  rw [htake] at hno
  by_contra hsome
  obtain ⟨q', hq'⟩ := Option.ne_none_iff_exists'.mp hsome
  have hwalk : ((ofWords W).walk (t.take (reach W t) ++ [a])).isSome := by
    rw [walk_append, hq, Option.bind_some, walk_cons, hq']
    rfl
  refine ((walk_ofWords W _).mp hwalk).elim ?_ hno
  exact List.append_ne_nil_of_right_ne_nil _ (List.cons_ne_nil _ _)

/-- A word ends where nothing goes on. -/
theorem hit_iff (hpos : 0 < reach W t) :
    Hit W t ↔ ∀ a, ¬ Begins W (t.take (reach W t) ++ [a]) := by
  constructor
  · rintro h a ⟨w', hw', hpre⟩
    have heq := h.take_reach.2 w' hw' ((List.prefix_append _ _).trans hpre)
    have hlen := hpre.length_le
    rw [heq, List.length_append] at hlen
    exact Nat.not_succ_le_self _ hlen
  · intro h
    have hmax : ∀ w' ∈ W, t.take (reach W t) <+: w' → w' = t.take (reach W t) := by
      rintro w' hw' ⟨r, rfl⟩
      cases r with
      | nil => exact List.append_nil _
      | cons a r => exact absurd ⟨_, hw', r, by simp⟩ (h a)
    obtain ⟨w, hw, hpre⟩ := (begins_take_iff hpos reach_le).mpr le_rfl
    have heq := hmax w hw hpre
    refine ⟨w, hw, ?_, ?_⟩
    · rw [heq]
      exact List.take_prefix _ _
    · rw [heq]
      exact hmax

/-- **From a start the scan goes on to the next**, with a hit if a word begins at the
start that no other word goes on from. -/
theorem scan_stride (hW : ∀ w ∈ W, w ≠ []) (ht : t ≠ []) (i : ℕ) :
    scan (ofWords W) t i i (ofWords W)
      = (if Hit W t then [(i, i + reach W t)] else [])
        ++ scan (ofWords W) (t.drop (stride W t)) (i + stride W t) (i + stride W t)
            (ofWords W) := by
  set root := ofWords W with hroot
  rcases Nat.eq_zero_or_pos (reach W t) with hz | hpos
  · -- the first letter begins no word
    obtain ⟨a, t', rfl⟩ := List.exists_cons_of_ne_nil ht
    have htake : root.walk ((a :: t').take (reach W (a :: t'))) = some root := by
      rw [hz]
      rfl
    have hdrop : (a :: t').drop (reach W (a :: t')) = a :: t' := by
      rw [hz]
      rfl
    have hnone : root.find a = none := find_reach htake hdrop
    have hstride : stride W (a :: t') = 1 := by rw [stride, hz]; rfl
    rw [scan_cons_of_root_none hnone, if_neg (not_hit_of_reach hW hz), hstride]
    rfl
  · have hstride : stride W t = reach W t := max_eq_right hpos
    obtain ⟨q, hq⟩ := Option.isSome_iff_exists.mp
      ((walk_ofWords W (t.take (reach W t))).mpr
        (.inr ((begins_take_iff hpos reach_le).mpr le_rfl)))
    have hlen : (t.take (reach W t)).length = reach W t := List.length_take_of_le reach_le
    have hsplit : t.take (reach W t) ++ t.drop (reach W t) = t := List.take_append_drop _ _
    have hleaf : q.isEmpty = true ↔ Hit W t := (isEmpty_walk hq).trans (hit_iff hpos).symm
    rw [hstride]
    by_cases hhit : Hit W t
    · -- the last letter of the word leads to a node without a child
      obtain ⟨u, a, hu⟩ : ∃ u a, t.take (reach W t) = u ++ [a] := by
        rcases List.eq_nil_or_concat' (t.take (reach W t)) with hnil | hc
        · rw [hnil] at hlen
          exact absurd hlen hpos.ne
        · exact hc
      rw [hu, walk_append, Option.bind_eq_some_iff] at hq
      obtain ⟨m, hm, hma⟩ := hq
      rw [walk_cons, Option.bind_eq_some_iff] at hma
      obtain ⟨q', hfind, hq'⟩ := hma
      cases hq'
      rw [hu, List.length_append] at hlen
      rw [if_pos hhit]
      conv_lhs => rw [← hsplit, hu, List.append_assoc]
      rw [scan_walk hm (isEmpty_of_find hfind), List.singleton_append, scan_cons_of_find hfind,
        if_pos (hleaf.mpr hhit), Nat.add_assoc, show u.length + 1 = reach W t from hlen]
      rfl
    · have hne : q.isEmpty = false := Bool.eq_false_iff.mpr fun h => hhit (hleaf.mp h)
      rw [if_neg hhit, List.nil_append]
      conv_lhs => rw [← hsplit, scan_walk hq hne, hlen]
      cases hd : t.drop (reach W t) with
      | nil => rfl
      | cons a t' => rw [scan_restart (find_reach hq hd)]

/-- **The hits of a scan**, told from the words. -/
theorem mem_scan (hW : ∀ w ∈ W, w ≠ []) (t : List α) (i : ℕ) {x y : ℕ} :
    (x, y) ∈ scan (ofWords W) t i i (ofWords W)
      ↔ ∃ k, Hit W (t.drop (scanStart W t k)) ∧ x = i + scanStart W t k
        ∧ y = x + reach W (t.drop (scanStart W t k)) := by
  induction hn : t.length using Nat.strong_induction_on generalizing t i with
  | _ n ih =>
    by_cases ht : t = []
    · subst ht
      refine iff_of_false List.not_mem_nil ?_
      rintro ⟨k, ⟨w, hw, hpre, -⟩, -⟩
      rw [List.drop_nil, List.prefix_nil] at hpre
      exact hW w hw hpre
    · have hlt : (t.drop (stride W t)).length < n := by
        have hpos : 0 < t.length := List.length_pos_of_ne_nil ht
        have hone : 1 ≤ stride W t := le_max_left _ _
        rw [List.length_drop]
        omega
      rw [scan_stride hW ht, List.mem_append, ih _ hlt _ _ rfl]
      constructor
      · rintro (h | ⟨k, hhit, hx, hy⟩)
        · split_ifs at h with hhit
          · cases List.mem_singleton.mp h
            exact ⟨0, hhit, rfl, rfl⟩
          · cases h
        · rw [List.drop_drop] at hhit hy
          exact ⟨k + 1, hhit, hx.trans (Nat.add_assoc _ _ _), hy⟩
      · rintro ⟨k, hhit, hx, hy⟩
        cases k with
        | zero =>
          left
          have hhit' : Hit W t := hhit
          rw [if_pos hhit', hy, hx]
          exact List.mem_singleton.mpr rfl
        | succ k =>
          right
          refine ⟨k, ?_, hx.trans (Nat.add_assoc _ _ _).symm, ?_⟩
          · rw [List.drop_drop]
            exact hhit
          · rw [List.drop_drop]
            exact hy

end Words

end Trie
