import Mathlib.Tactic

/-!
# Lists that are searched from the front

A list can serve as a map when each of its elements has a key: what is asked of
a key is asked of the first element that has it. `upsert` changes that element,
or adds one at the end; `List.eraseP` takes it out; `List.find?` gives it.

The three fit together as the operations of a map do, as long as no two
elements have the same key. A search that goes on behind the first match
(`findSome?_of_nodup`) finds nothing more then.
-/

variable {α β κ : Type*} [DecidableEq κ] (key : α → κ)

/-- The first element with the key is changed, or a new one is added at the end. -/
def upsert (k : κ) (f : α → α) (new : α) : List α → List α
  | [] => [new]
  | a :: l => if key a = k then f a :: l else a :: upsert k f new l

/-- The change keeps the key of an element, and the new element has the key. -/
structure KeepsKey (k : κ) (f : α → α) (new : α) : Prop where
  change : ∀ a, key (f a) = key a
  new : key new = k

section Upsert

variable {key} {k : κ} {f : α → α} {new : α}

theorem find?_upsert_same (h : KeepsKey key k f new) (l : List α) :
    (upsert key k f new l).find? (key · = k) = some ((l.find? (key · = k)).elim new f) := by
  induction l with
  | nil => simp [upsert, h.new]
  | cons a l ih =>
    unfold upsert
    by_cases ha : key a = k
    · simp [ha, h.change]
    · simp [ha, ih]

theorem find?_upsert_ne (h : KeepsKey key k f new) {k' : κ} (hk : k' ≠ k) (l : List α) :
    (upsert key k f new l).find? (key · = k') = l.find? (key · = k') := by
  induction l with
  | nil => simp [upsert, h.new, hk.symm]
  | cons a l ih =>
    unfold upsert
    by_cases ha : key a = k
    · simp [ha, h.change, hk.symm]
    · rw [if_neg ha, List.find?_cons, List.find?_cons, ih]

/-- The keys stay as they are, or the new one comes last. -/
theorem map_upsert (h : KeepsKey key k f new) (l : List α) :
    (upsert key k f new l).map key = if k ∈ l.map key then l.map key else l.map key ++ [k] := by
  induction l with
  | nil => simp [upsert, h.new]
  | cons a l ih =>
    unfold upsert
    by_cases ha : key a = k
    · simp [ha, h.change]
    · rw [if_neg ha, List.map_cons, List.map_cons, ih]
      by_cases hk : k ∈ l.map key
      · rw [if_pos hk, if_pos (List.mem_cons_of_mem _ hk)]
      · rw [if_neg hk, if_neg (List.not_mem_cons_of_ne_of_not_mem (Ne.symm ha) hk)]
        rfl

theorem nodup_upsert (h : KeepsKey key k f new) {l : List α}
    (hl : (l.map key).Nodup) : ((upsert key k f new l).map key).Nodup := by
  rw [map_upsert h]
  split_ifs with hk
  · exact hl
  · exact List.nodup_append.mpr ⟨hl, List.nodup_singleton k, by
      rintro a ha b hb rfl
      exact hk (List.mem_singleton.mp hb ▸ ha)⟩

/-- Nothing is lost: an element of the result is new, or was changed, or was there. -/
theorem mem_upsert {a : α} {l : List α} (h : a ∈ upsert key k f new l) :
    a = new ∨ (∃ b ∈ l, a = f b) ∨ a ∈ l := by
  induction l with
  | nil => exact .inl (List.mem_singleton.mp h)
  | cons b l ih =>
    unfold upsert at h
    split_ifs at h
    · rcases List.mem_cons.mp h with rfl | h
      · exact .inr (.inl ⟨b, List.mem_cons_self, rfl⟩)
      · exact .inr (.inr (List.mem_cons_of_mem _ h))
    · rcases List.mem_cons.mp h with rfl | h
      · exact .inr (.inr List.mem_cons_self)
      · rcases ih h with h | ⟨c, hc, h⟩ | h
        · exact .inl h
        · exact .inr (.inl ⟨c, List.mem_cons_of_mem _ hc, h⟩)
        · exact .inr (.inr (List.mem_cons_of_mem _ h))

/-- A key that is new is added at the end. -/
theorem upsert_of_notMem {l : List α} (h : k ∉ l.map key) : upsert key k f new l = l ++ [new] := by
  induction l with
  | nil => rfl
  | cons a l ih =>
    rw [List.map_cons, List.mem_cons, not_or] at h
    unfold upsert
    rw [if_neg (Ne.symm h.1), ih h.2]
    rfl

/-- The key is that of the last element. -/
theorem upsert_append_singleton {l : List α} {a : α} (h : k ∉ l.map key) (ha : key a = k) :
    upsert key k f new (l ++ [a]) = l ++ [f a] := by
  induction l with
  | nil => simp [upsert, ha]
  | cons b l ih =>
    rw [List.map_cons, List.mem_cons, not_or] at h
    rw [List.cons_append]
    unfold upsert
    rw [if_neg (Ne.symm h.1), ih h.2]
    rfl

end Upsert

section Search

variable {key} {k : κ} {l : List α}

theorem find?_eq_none_of_notMem (h : k ∉ l.map key) : l.find? (key · = k) = none := by
  refine List.find?_eq_none.mpr fun a ha hk => h ?_
  rw [← of_decide_eq_true hk]
  exact List.mem_map_of_mem ha

/-- Each element is the one that is found under its key. -/
theorem find?_of_mem {a : α} (h : (l.map key).Nodup) (ha : a ∈ l) :
    l.find? (key · = key a) = some a := by
  induction l with
  | nil => exact absurd ha List.not_mem_nil
  | cons b l ih =>
    rw [List.map_cons, List.nodup_cons] at h
    rcases List.mem_cons.mp ha with rfl | ha
    · exact List.find?_cons_of_pos (by simp)
    · have hb : key b ≠ key a := fun he => h.1 (he ▸ List.mem_map_of_mem ha)
      rw [List.find?_cons_of_neg (by simpa using hb), ih h.2 ha]

theorem find?_eraseP_same (h : (l.map key).Nodup) :
    (l.eraseP (key · = k)).find? (key · = k) = none := by
  induction l with
  | nil => rfl
  | cons a l ih =>
    rw [List.map_cons, List.nodup_cons] at h
    by_cases ha : key a = k
    · rw [List.eraseP_cons_of_pos (by simpa using ha)]
      exact find?_eq_none_of_notMem (ha ▸ h.1)
    · rw [List.eraseP_cons_of_neg (by simpa using ha), List.find?_cons_of_neg (by simpa using ha)]
      exact ih h.2

theorem find?_eraseP_ne {k' : κ} (h : k' ≠ k) :
    (l.eraseP (key · = k)).find? (key · = k') = l.find? (key · = k') := by
  induction l with
  | nil => rfl
  | cons a l ih =>
    by_cases ha : key a = k
    · rw [List.eraseP_cons_of_pos (by simpa using ha),
        List.find?_cons_of_neg (by simpa [ha] using h.symm)]
    · rw [List.eraseP_cons_of_neg (by simpa using ha), List.find?_cons, List.find?_cons, ih]

omit [DecidableEq κ] in
theorem nodup_eraseP (p : α → Bool) (h : (l.map key).Nodup) : ((l.eraseP p).map key).Nodup :=
  h.sublist ((List.eraseP_sublist).map key)

/-- **A search that goes on finds nothing more.** -/
theorem findSome?_of_nodup (g : α → Option β) (h : (l.map key).Nodup) :
    l.findSome? (fun a => if key a = k then g a else none) = (l.find? (key · = k)).bind g := by
  induction l with
  | nil => rfl
  | cons a l ih =>
    rw [List.map_cons, List.nodup_cons] at h
    by_cases ha : key a = k
    · rw [List.findSome?_cons, if_pos ha, List.find?_cons_of_pos (by simpa using ha),
        ih h.2, find?_eq_none_of_notMem (ha ▸ h.1), Option.bind_some]
      cases g a <;> rfl
    · rw [List.findSome?_cons, if_neg ha, List.find?_cons_of_neg (by simpa using ha)]
      exact ih h.2

end Search
