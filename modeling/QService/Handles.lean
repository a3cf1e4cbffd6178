import Mathlib.Tactic

/-!
# Handles that are handed out again

A system hands out handles, such as the numbers of sockets, and takes them
back; whoever asks next may get the same handle. Each time it is for a new
connection, and the connections are numbered.

A connection is held (in a queue, or in somebody's hands) or has an entry in a
table that is searched by the handle, but not both. `Handles` says so, and that
it has its handle for itself while it is there. There is one lemma for each
thing that can happen to a connection.
-/

/-- What is found after something was stored. -/
theorem update_some_cases {κ β : Type*} [DecidableEq κ] {f : κ → Option β} {k k' : κ} {b b' : β}
    (h : Function.update f k (some b) k' = some b') :
    (k' = k ∧ b' = b) ∨ (k' ≠ k ∧ f k' = some b') := by
  rcases eq_or_ne k' k with rfl | hk
  · rw [Function.update_self, Option.some.injEq] at h
    exact .inl ⟨rfl, h.symm⟩
  · rw [Function.update_of_ne hk] at h
    exact .inr ⟨hk, h⟩

/-- What is found after something was taken out. -/
theorem update_none_cases {κ β : Type*} [DecidableEq κ] {f : κ → Option β} {k k' : κ} {b' : β}
    (h : Function.update f k none k' = some b') : k' ≠ k ∧ f k' = some b' := by
  rcases eq_or_ne k' k with rfl | hk
  · rw [Function.update_self] at h
    cases h
  · rw [Function.update_of_ne hk] at h
    exact ⟨hk, h⟩

/-- The connections that are held, a table of others, which connection has a handle, and
the number of connections so far. -/
structure Handles {κ τ : Type*} (held : List (κ × ℕ)) (table : κ → Option (ℕ × τ))
    (owner : κ → Option ℕ) (conns : ℕ) : Prop where
  nodup : held.Nodup
  held_owner : ∀ fd c, (fd, c) ∈ held → owner fd = some c
  table_owner : ∀ fd c t, table fd = some (c, t) → owner fd = some c
  apart : ∀ fd c t, table fd = some (c, t) → (fd, c) ∉ held
  unique : ∀ fd fd' c, owner fd = some c → owner fd' = some c → fd = fd'
  lt : ∀ fd c, owner fd = some c → c < conns

namespace Handles

variable {κ τ : Type*} {held held' : List (κ × ℕ)} {table : κ → Option (ℕ × τ)}
  {owner : κ → Option ℕ} {conns : ℕ} {fd : κ} {c : ℕ} {t : τ}

/-- Before the first connection. -/
theorem nil : Handles ([] : List (κ × ℕ)) (fun _ => (none : Option (ℕ × τ))) (fun _ => none) 0 where
  nodup := List.nodup_nil
  held_owner _ _ hm := absurd hm List.not_mem_nil
  table_owner _ _ _ ht := absurd ht (by simp)
  apart _ _ _ ht := absurd ht (by simp)
  unique _ _ _ h := absurd h (by simp)
  lt _ _ h := absurd h (by simp)

/-- A connection goes from hand to hand. -/
theorem perm (h : Handles held table owner conns) (hp : held'.Perm held) :
    Handles held' table owner conns where
  nodup := hp.nodup_iff.mpr h.nodup
  held_owner fd c hm := h.held_owner fd c (hp.mem_iff.mp hm)
  table_owner := h.table_owner
  apart fd c t ht hm := h.apart fd c t ht (hp.mem_iff.mp hm)
  unique := h.unique
  lt := h.lt

/-- The handle of a connection that is held finds nothing in the table. -/
theorem table_eq_none (h : Handles held table owner conns) (hm : (fd, c) ∈ held) :
    table fd = none := by
  cases ht : table fd with
  | none => rfl
  | some e =>
    -- whatever is found has the handle, and so is the connection itself
    have ho : some e.1 = some c := (h.table_owner fd e.1 e.2 ht).symm.trans (h.held_owner fd c hm)
    obtain rfl := Option.some.inj ho
    exact absurd hm (h.apart fd e.1 e.2 ht)

/-- A connection that is held and then let go, with its handle still taken. -/
theorem drop (h : Handles ((fd, c) :: held) table owner conns) :
    Handles held table owner conns where
  nodup := h.nodup.of_cons
  held_owner fd' c' hm := h.held_owner fd' c' (List.mem_cons_of_mem _ hm)
  table_owner := h.table_owner
  apart fd' c' t' ht hm := h.apart fd' c' t' ht (List.mem_cons_of_mem _ hm)
  unique := h.unique
  lt := h.lt

variable [DecidableEq κ]

/-- A free handle is handed out. -/
theorem take (h : Handles held table owner conns) (hfree : owner fd = none) :
    Handles ((fd, conns) :: held) table (Function.update owner fd (some conns)) (conns + 1) := by
  have hne : ∀ fd' c', owner fd' = some c' → fd' ≠ fd := by
    rintro fd' c' ho rfl
    simp [hfree] at ho
  have hkeep : ∀ fd' c', owner fd' = some c' →
      Function.update owner fd (some conns) fd' = some c' := fun fd' c' ho => by
    rw [Function.update_of_ne (hne fd' c' ho), ho]
  refine ⟨?_, ?_, ?_, ?_, ?_, ?_⟩
  · refine List.nodup_cons.mpr ⟨fun hm => ?_, h.nodup⟩
    exact hne _ _ (h.held_owner _ _ hm) rfl
  · intro fd' c' hm
    rcases List.mem_cons.mp hm with he | hm
    · obtain ⟨rfl, rfl⟩ := Prod.mk.inj he
      exact Function.update_self ..
    · exact hkeep fd' c' (h.held_owner fd' c' hm)
  · exact fun fd' c' t' ht => hkeep fd' c' (h.table_owner fd' c' t' ht)
  · intro fd' c' t' ht hm
    rcases List.mem_cons.mp hm with he | hm
    · exact hne _ _ (h.table_owner fd' c' t' ht) (Prod.mk.inj he).1
    · exact h.apart fd' c' t' ht hm
  · -- the new connection has a number of its own
    intro fd₁ fd₂ c' h₁ h₂
    rcases update_some_cases h₁ with ⟨rfl, hc₁⟩ | ⟨-, ho₁⟩
    · rcases update_some_cases h₂ with ⟨rfl, -⟩ | ⟨-, ho₂⟩
      · rfl
      · exact absurd hc₁ (h.lt _ _ ho₂).ne
    · rcases update_some_cases h₂ with ⟨rfl, hc₂⟩ | ⟨-, ho₂⟩
      · exact absurd hc₂ (h.lt _ _ ho₁).ne
      · exact h.unique fd₁ fd₂ c' ho₁ ho₂
  · intro fd' c' ho
    rcases update_some_cases ho with ⟨-, rfl⟩ | ⟨-, ho⟩
    · exact Nat.lt_succ_self _
    · exact (h.lt fd' c' ho).trans (Nat.lt_succ_self _)

/-- A connection that is held gets an entry in the table. -/
theorem store (h : Handles ((fd, c) :: held) table owner conns) (t : τ) :
    Handles held (Function.update table fd (some (c, t))) owner conns := by
  refine { h.drop with table_owner := fun fd' c' t' ht => ?_, apart := fun fd' c' t' ht hm => ?_ }
  · rcases update_some_cases ht with ⟨rfl, he⟩ | ⟨-, ht⟩
    · rw [(Prod.mk.inj he).1]
      exact h.held_owner _ _ List.mem_cons_self
    · exact h.table_owner fd' c' t' ht
  · rcases update_some_cases ht with ⟨rfl, he⟩ | ⟨-, ht⟩
    · rw [(Prod.mk.inj he).1] at hm
      exact (List.nodup_cons.mp h.nodup).1 hm
    · exact h.drop.apart fd' c' t' ht hm

/-- A connection is taken out of the table. -/
theorem unstore (h : Handles held table owner conns) (ht : table fd = some (c, t)) :
    Handles ((fd, c) :: held) (Function.update table fd none) owner conns where
  nodup := List.nodup_cons.mpr ⟨h.apart fd c t ht, h.nodup⟩
  held_owner fd' c' hm := by
    rcases List.mem_cons.mp hm with he | hm
    · obtain ⟨rfl, rfl⟩ := Prod.mk.inj he
      exact h.table_owner _ _ t ht
    · exact h.held_owner fd' c' hm
  table_owner fd' c' t' ht' := h.table_owner fd' c' t' (update_none_cases ht').2
  apart fd' c' t' ht' hm := by
    obtain ⟨hfd, ht'⟩ := update_none_cases ht'
    rcases List.mem_cons.mp hm with he | hm
    · exact hfd (Prod.mk.inj he).1
    · exact h.apart fd' c' t' ht' hm
  unique := h.unique
  lt := h.lt

/-- A connection that is held ends, and its handle is free again. -/
theorem free (h : Handles ((fd, c) :: held) table owner conns) :
    Handles held table (Function.update owner fd none) conns := by
  have ho : owner fd = some c := h.held_owner fd c List.mem_cons_self
  -- the handle was the connection's own, so nobody else loses it
  have hkeep : ∀ fd' c', c' ≠ c → owner fd' = some c' →
      Function.update owner fd none fd' = some c' := by
    intro fd' c' hc ho'
    rw [Function.update_of_ne, ho']
    rintro rfl
    exact hc (Option.some.inj (ho'.symm.trans ho))
  refine ⟨h.drop.nodup, fun fd' c' hm => ?_, fun fd' c' t' ht => ?_, h.drop.apart,
    fun fd₁ fd₂ c' h₁ h₂ => ?_, fun fd' c' ho' => h.lt fd' c' (update_none_cases ho').2⟩
  · have ho' := h.drop.held_owner fd' c' hm
    refine hkeep fd' c' ?_ ho'
    rintro rfl
    obtain rfl := h.unique fd' fd c' ho' ho
    exact (List.nodup_cons.mp h.nodup).1 hm
  · have ho' := h.table_owner fd' c' t' ht
    refine hkeep fd' c' ?_ ho'
    rintro rfl
    obtain rfl := h.unique fd' fd c' ho' ho
    exact h.apart fd' c' t' ht List.mem_cons_self
  · exact h.unique fd₁ fd₂ c' (update_none_cases h₁).2 (update_none_cases h₂).2

end Handles
