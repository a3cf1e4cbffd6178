import QService.TimeWheel.Invariant

/-!
# Callbacks keep the invariant

A callback adds and removes timers, between two ticks or while a slot is
worked off. `Remove` takes a waiting timer out of a slot that nobody works on
and renumbers those behind it (`Inv.remove`). `addTimer` makes a timer and puts
it into its slot, calls it at once, or refuses it (`Inv.addTimer`). From the
two, every callback that the policy allows keeps the invariant
(`Inv.runScript`). The only error that it can run into is that of a timeout
that is too long, which ends it.
-/

namespace WheelMgr

open WheelId

variable {P : Policy} {hot : Option Turn} {M : WheelMgr}

/-! ## `Remove` -/

section Renumber

/-- The renumbering changes positions only. -/
theorem renumber_frame (M : WheelMgr) (l : List TimerId) (k : ℕ) :
    (M.renumber l k).slot = M.slot ∧ (M.renumber l k).curWheel = M.curWheel
      ∧ (M.renumber l k).tick = M.tick ∧ (M.renumber l k).next = M.next
      ∧ (M.renumber l k).log = M.log := by
  induction l generalizing M k with
  | nil => exact ⟨rfl, rfl, rfl, rfl, rfl⟩
  | cons x l ih => exact ih _ (k + 1)

theorem timers_renumber_of_notMem (M : WheelMgr) {l : List TimerId} (k : ℕ) {id : TimerId}
    (h : id ∉ l) : (M.renumber l k).timers id = M.timers id := by
  induction l generalizing M k with
  | nil => rfl
  | cons x l ih =>
    rw [List.mem_cons, not_or] at h
    unfold renumber
    rw [ih _ (k + 1) h.2]
    exact timers_updTimer_of_ne _ h.1 _

/-- **The timers behind the removed one get the positions from `k` on.** -/
theorem timers_renumber (M : WheelMgr) {l : List TimerId} (k : ℕ) {p : ℕ} {id : TimerId}
    (hl : l.Nodup) (h : l[p]? = some id) :
    (M.renumber l k).timers id = { M.timers id with regIndex := k + p } := by
  induction l generalizing M k p with
  | nil => cases h
  | cons x l ih =>
    rw [List.nodup_cons] at hl
    unfold renumber
    cases p with
    | zero =>
      obtain rfl : x = id := Option.some.inj h
      rw [timers_renumber_of_notMem _ (k + 1) hl.1]
      exact timers_updTimer_self _ _ _
    | succ p =>
      have hp : l[p]? = some id := h
      have hne : id ≠ x := fun he => hl.1 (he ▸ List.mem_of_getElem? hp)
      rw [ih _ (k + 1) hl.2 hp]
      rw [timers_updTimer_of_ne _ hne, show k + 1 + p = k + (p + 1) by omega]

end Renumber

/-- The wheel after the timer `v` between `l₁` and `l₂` is removed. -/
def removed (M : WheelMgr) (v : TimerId) (w : WheelId) (i : ℕ) (l₁ l₂ : List TimerId) :
    WheelMgr :=
  (((M.setSlot w i (l₁ ++ l₂)).clearRegInfo v).emit (.removed v)).renumber l₂ (l₁.length + 1)

/-- `Remove` of a timer whose recorded position is right. -/
theorem remove_eq {v : TimerId} {w : WheelId} {i : ℕ} {l₁ l₂ : List TimerId}
    (hi : 1 ≤ i ∧ i ≤ w.count) (hslot : M.slot w i = l₁ ++ v :: l₂)
    (hw : (M.timers v).regWheel = some w) (hs : (M.timers v).regSlot = i)
    (hp : (M.timers v).regIndex = l₁.length + 1) :
    M.remove v = .ok (M.removed v w i l₁ l₂) := by
  have hrem : tableRemove (l₁ ++ v :: l₂) (l₁.length + 1) = some (l₁ ++ l₂) := by
    rw [tableRemove, if_pos (by right; simp)]
    simp [List.eraseIdx_append_of_length_le]
  unfold remove removed
  dsimp only
  rw [hw, hs, hp]
  dsimp only
  rw [if_neg (by omega), get_of_mem M hi, hslot]
  dsimp only
  rw [hrem]
  dsimp only
  split
  · rename_i hlast
    have hnil : l₂ = [] := by
      rw [List.length_append, List.length_cons] at hlast
      exact List.eq_nil_of_length_eq_zero (by omega)
    rw [hnil]
    rfl
  · rw [Nat.add_sub_cancel, List.drop_left]

section Removed

variable {v : TimerId} {w : WheelId} {i : ℕ} {l₁ l₂ : List TimerId}

theorem slot_removed (M : WheelMgr) (v : TimerId) (w : WheelId) (i : ℕ) (l₁ l₂ : List TimerId) :
    (M.removed v w i l₁ l₂).slot = (M.setSlot w i (l₁ ++ l₂)).slot :=
  (renumber_frame _ l₂ _).1

theorem log_removed (M : WheelMgr) (v : TimerId) (w : WheelId) (i : ℕ) (l₁ l₂ : List TimerId) :
    (M.removed v w i l₁ l₂).log = M.log ++ [.removed v] := (renumber_frame _ l₂ _).2.2.2.2

theorem timers_removed_self (h : v ∉ l₂) :
    ((M.removed v w i l₁ l₂).timers v).regWheel = none := by
  unfold removed
  rw [timers_renumber_of_notMem _ _ h]
  show ((M.setSlot w i (l₁ ++ l₂)).clearRegInfo v |>.timers v).regWheel = none
  rw [clearRegInfo, timers_updTimer_self]

theorem timers_removed_of_notMem {id : TimerId} (hv : id ≠ v) (h : id ∉ l₂) :
    (M.removed v w i l₁ l₂).timers id = M.timers id := by
  unfold removed
  rw [timers_renumber_of_notMem _ _ h]
  exact timers_clearRegInfo_of_ne (M.setSlot w i (l₁ ++ l₂)) hv

theorem timers_removed_of_mem {id : TimerId} {p : ℕ} (hl : l₂.Nodup) (hv : id ≠ v)
    (h : l₂[p]? = some id) :
    (M.removed v w i l₁ l₂).timers id
      = { M.timers id with regIndex := l₁.length + 1 + p } := by
  unfold removed
  rw [timers_renumber _ _ hl h]
  have hold : (((M.setSlot w i (l₁ ++ l₂)).clearRegInfo v).emit (.removed v)).timers id
      = M.timers id := timers_clearRegInfo_of_ne (M.setSlot w i (l₁ ++ l₂)) hv
  rw [hold]

/-- The other timers keep all but their position. -/
theorem timers_removed_ne (M : WheelMgr) (w : WheelId) (i : ℕ) (l₁ : List TimerId)
    {id : TimerId} (hl : l₂.Nodup) (hv : id ≠ v) :
    ∃ n, (M.removed v w i l₁ l₂).timers id = { M.timers id with regIndex := n } := by
  by_cases hid : id ∈ l₂
  · obtain ⟨p, hp⟩ := List.mem_iff_getElem?.mp hid
    exact ⟨_, timers_removed_of_mem hl hv hp⟩
  · exact ⟨(M.timers id).regIndex, timers_removed_of_notMem hv hid⟩

theorem due_removed {id : TimerId} (hl : l₂.Nodup) (hv : id ≠ v) :
    (M.removed v w i l₁ l₂).due id = M.due id := by
  obtain ⟨n, hn⟩ := timers_removed_ne M w i l₁ hl hv
  rw [due, hn]
  rfl

end Removed

/-- A waiting timer that may be removed: its slot is not worked on, and its
position is right. -/
theorem Slots.cold_of_pending (h : Slots P hot M) (hb : P.index = true) {v : TimerId}
    {w : WheelId} {i : ℕ} (hv : v ∈ pendingAt hot M w i)
    (hfree : ∀ t, hot = some t → v ∉ t.todo) :
    ∀ t, hot = some t → ¬ (w = t.wheel ∧ i = M.curWheel w) := by
  rintro t rfl ⟨rfl, rfl⟩
  rw [pendingAt_turn ⟨rfl, rfl⟩, (h.index hb).1 t rfl, List.drop_length, List.append_nil] at hv
  exact hfree t rfl hv

section Removed

variable {v : TimerId} {w : WheelId} {i : ℕ} {l₁ l₂ : List TimerId}

theorem pendingAt_removed (hcold : ∀ t, hot = some t → ¬ (w = t.wheel ∧ i = M.curWheel w)) :
    pendingAt hot (M.removed v w i l₁ l₂) w i = l₁ ++ l₂ := by
  have hcur : (M.removed v w i l₁ l₂).curWheel = M.curWheel := (renumber_frame _ l₂ _).2.1
  rw [pendingAt_other (by rw [hcur]; exact hcold), slot_removed, slot_setSlot_same]

theorem pendingAt_removed_ne {w' : WheelId} {i' : ℕ} (hne : ¬ (w' = w ∧ i' = i)) :
    pendingAt hot (M.removed v w i l₁ l₂) w' i' = pendingAt hot M w' i' := by
  have hcur : (M.removed v w i l₁ l₂).curWheel = M.curWheel := (renumber_frame _ l₂ _).2.1
  unfold pendingAt
  rw [slot_removed, slot_setSlot_ne M _ hne, hcur]

/-- What waits after a removal waited before. -/
theorem mem_pendingAt_removed (hcold : ∀ t, hot = some t → ¬ (w = t.wheel ∧ i = M.curWheel w))
    (hslot : M.slot w i = l₁ ++ v :: l₂) {w' : WheelId} {i' : ℕ} :
    (pendingAt hot (M.removed v w i l₁ l₂) w' i').Sublist (pendingAt hot M w' i') := by
  by_cases hwi : w' = w ∧ i' = i
  · rw [hwi.1, hwi.2, pendingAt_removed hcold, pendingAt_other hcold, hslot]
    simp
  · rw [pendingAt_removed_ne hwi]

/-- **`Remove` takes out the timer and no other.** -/
theorem Slots.pending_removed (h : Slots P hot M)
    (hcold : ∀ t, hot = some t → ¬ (w = t.wheel ∧ i = M.curWheel w))
    (hslot : M.slot w i = l₁ ++ v :: l₂) (id : TimerId) :
    Pending hot (M.removed v w i l₁ l₂) id ↔ Pending hot M id ∧ id ≠ v := by
  have hp : pendingAt hot M w i = l₁ ++ v :: l₂ := (pendingAt_other hcold).trans hslot
  have hnodup := h.nodup w i
  rw [hp, List.nodup_middle, List.nodup_cons] at hnodup
  have hv : v ∈ pendingAt hot M w i := by
    rw [hp]
    simp
  constructor
  · rintro ⟨w', i', hid⟩
    refine ⟨⟨w', i', (mem_pendingAt_removed hcold hslot).subset hid⟩, ?_⟩
    rintro rfl
    obtain ⟨rfl, rfl⟩ := h.mem_unique ((mem_pendingAt_removed hcold hslot).subset hid) hv
    rw [pendingAt_removed hcold] at hid
    exact hnodup.1 hid
  · rintro ⟨⟨w', i', hid⟩, hne⟩
    refine ⟨w', i', ?_⟩
    by_cases hwi : w' = w ∧ i' = i
    · rw [hwi.1, hwi.2] at hid ⊢
      rw [hp] at hid
      rw [pendingAt_removed hcold]
      simp only [List.mem_append, List.mem_cons] at hid ⊢
      tauto
    · rwa [pendingAt_removed_ne hwi]

/-- **The positions after a removal**: those behind the removed timer are one less, and
that is what they are told. -/
theorem Slots.regIndex_removed (h : Slots P hot M)
    (hcold : ∀ t, hot = some t → ¬ (w = t.wheel ∧ i = M.curWheel w))
    (hslot : M.slot w i = l₁ ++ v :: l₂)
    (hpos : ∀ w i p id, (pendingAt hot M w i)[p]? = some id → (M.timers id).regIndex = p + 1)
    {w' : WheelId} {i' p : ℕ} {id : TimerId}
    (hid : (pendingAt hot (M.removed v w i l₁ l₂) w' i')[p]? = some id) :
    ((M.removed v w i l₁ l₂).timers id).regIndex = p + 1 := by
  have hp : pendingAt hot M w i = l₁ ++ v :: l₂ := (pendingAt_other hcold).trans hslot
  have hnodup := h.nodup w i
  rw [hp] at hnodup
  have hidv : id ≠ v :=
    ((h.pending_removed hcold hslot id).mp ⟨w', i', List.mem_of_getElem? hid⟩).2
  by_cases hwi : w' = w ∧ i' = i
  · rw [hwi.1, hwi.2, pendingAt_removed hcold] at hid
    rcases lt_or_ge p l₁.length with hlt | hge
    · rw [List.getElem?_append_left hlt] at hid
      have hnot : id ∉ l₂ := fun hc =>
        (List.disjoint_of_nodup_append hnodup) (List.mem_of_getElem? hid)
          (List.mem_cons_of_mem v hc)
      rw [timers_removed_of_notMem hidv hnot]
      refine hpos w i p id ?_
      rw [hp, List.getElem?_append_left hlt]
      exact hid
    · rw [List.getElem?_append_right hge] at hid
      rw [timers_removed_of_mem (List.nodup_cons.mp hnodup.of_append_right).2 hidv hid]
      show l₁.length + 1 + (p - l₁.length) = p + 1
      omega
  · -- another slot keeps its positions
    rw [pendingAt_removed_ne hwi] at hid
    have hnot : id ∉ l₂ := by
      intro hc
      have hmem : id ∈ pendingAt hot M w i := by
        rw [hp]
        simp [hc]
      exact hwi (h.mem_unique (List.mem_of_getElem? hid) hmem)
    rw [timers_removed_of_notMem hidv hnot]
    exact hpos w' i' p id hid

/-- The slots after a removal. -/
theorem Slots.remove (h : Slots P hot M)
    (hcold : ∀ t, hot = some t → ¬ (w = t.wheel ∧ i = M.curWheel w))
    (hslot : M.slot w i = l₁ ++ v :: l₂) : Slots P hot (M.removed v w i l₁ l₂) := by
  obtain ⟨-, hcur, htick, -, -⟩ : (M.removed v w i l₁ l₂).slot = (M.setSlot w i (l₁ ++ l₂)).slot
      ∧ (M.removed v w i l₁ l₂).curWheel = M.curWheel ∧ (M.removed v w i l₁ l₂).tick = M.tick
      ∧ _ := renumber_frame _ l₂ _
  have hp : pendingAt hot M w i = l₁ ++ v :: l₂ := (pendingAt_other hcold).trans hslot
  have hnodup := h.nodup w i
  rw [hp] at hnodup
  have hl₂ : l₂.Nodup := (List.nodup_cons.mp hnodup.of_append_right).2
  have hsub : ∀ w' i', (pendingAt hot (M.removed v w i l₁ l₂) w' i').Sublist
      (pendingAt hot M w' i') := fun w' i' => mem_pendingAt_removed hcold hslot
  have hne : ∀ w' i' id, id ∈ pendingAt hot (M.removed v w i l₁ l₂) w' i' → id ≠ v :=
    fun w' i' id hid => ((h.pending_removed hcold hslot id).mp ⟨w', i', hid⟩).2
  constructor
  · rw [hcur]
    exact h.cursor
  · intro t ht
    rw [slot_removed, hcur, slot_setSlot_cold _ hcold ht]
    exact h.front t ht
  · intro w' i' id hid
    rw [slot_removed] at hid
    by_cases hwi : w' = w ∧ i' = i
    · rw [hwi.1, hwi.2]
      refine h.bound w i v ?_
      rw [hslot]
      simp
    · rw [slot_setSlot_ne M _ hwi] at hid
      exact h.bound w' i' id hid
  · intro w' i'
    exact (h.nodup w' i').sublist (hsub w' i')
  · intro w' i' id hid
    obtain ⟨n, hn⟩ := timers_removed_ne M w i l₁ hl₂ (hne w' i' id hid)
    have harr : arrival hot (M.removed v w i l₁ l₂) w' i' id = arrival hot M w' i' id := by
      unfold arrival
      rw [hcur, htick]
    obtain ⟨k₁, k₂, k₃, k₄, k₅, k₆⟩ := h.reg w' i' id ((hsub w' i').subset hid)
    rw [hn, harr]
    exact ⟨k₁, k₂, k₃, k₄, k₅, k₆⟩
  · intro hh w' i' m₁ id m₂ hm hdue
    have hid : id ∈ pendingAt hot (M.removed v w i l₁ l₂) w' i' := by
      rw [hm]
      simp
    rw [due_removed hl₂ (hne w' i' id hid), htick] at hdue
    obtain ⟨n, hn⟩ := timers_removed_ne M w i l₁ hl₂ (hne w' i' id hid)
    rw [hn]
    show P.turn w' m₁ (M.timers id).func
    by_cases hwi : w' = w ∧ i' = i
    · rw [hwi.1, hwi.2, pendingAt_removed hcold] at hm
      rw [hwi.1]
      have hturn := h.turn hh w i
      rw [hp] at hturn
      exact P.turn_erase hturn m₁ id m₂ hm hdue
    · rw [pendingAt_removed_ne hwi] at hm
      exact h.turn hh w' i' m₁ id m₂ hm hdue
  · intro hb
    obtain ⟨hfront, hpos⟩ := h.index hb
    refine ⟨fun t ht => ?_, fun w' i' p id hid => ?_⟩
    · rw [slot_removed, hcur, slot_setSlot_cold _ hcold ht]
      exact hfront t ht
    · exact h.regIndex_removed hcold hslot hpos hid

/-- The book after a removal. -/
theorem Inv.book_removed (h : Inv P hot none M) (hb : P.index = true)
    (hcold : ∀ t, hot = some t → ¬ (w = t.wheel ∧ i = M.curWheel w))
    (hslot : M.slot w i = l₁ ++ v :: l₂) (hvp : Pending hot M v) :
    Book P hot none (M.removed v w i l₁ l₂) := by
  obtain ⟨-, -, htick, hnext, -⟩ : (M.removed v w i l₁ l₂).slot
      = (M.setSlot w i (l₁ ++ l₂)).slot ∧ (M.removed v w i l₁ l₂).curWheel = M.curWheel
      ∧ (M.removed v w i l₁ l₂).tick = M.tick ∧ (M.removed v w i l₁ l₂).next = M.next
      ∧ _ := renumber_frame _ l₂ _
  have hnodup := h.slots.nodup w i
  rw [pendingAt_other hcold, hslot, List.nodup_middle, List.nodup_cons] at hnodup
  have hl₂ : l₂.Nodup := hnodup.2.of_append_right
  have hvl₂ : v ∉ l₂ := fun hc => hnodup.1 (List.mem_append_right l₁ hc)
  have hpiff := h.slots.pending_removed hcold hslot
  have hlog := log_removed M v w i l₁ l₂
  have hcall : ∀ id, calls id (M.removed v w i l₁ l₂).log = calls id M.log := by
    intro id
    rw [hlog, calls_append]
    exact List.append_nil _
  have hrem : ∀ id, id ≠ v → (.removed id ∈ (M.removed v w i l₁ l₂).log ↔ .removed id ∈ M.log) := by
    intro id hne
    rw [hlog]
    simp [hne]
  have hadd : ∀ id T t, .added id T t ∈ (M.removed v w i l₁ l₂).log → .added id T t ∈ M.log := by
    intro id T t hm
    rw [hlog] at hm
    simpa using hm
  constructor
  · intro id hnew
    rw [hnext] at hnew
    have hne : id ≠ v := by
      rintro rfl
      exact absurd (h.pending_lt hvp) (not_lt.mpr hnew)
    obtain ⟨k₁, k₂, k₃, k₄⟩ := h.book.known id hnew
    obtain ⟨n, hn⟩ := timers_removed_ne M w i l₁ hl₂ hne
    rw [hn, hcall id, hrem id hne]
    exact ⟨k₁, k₂, k₃, fun T t hm => k₄ T t (hadd id T t hm)⟩
  · intro id hnp _
    by_cases hne : id = v
    · rw [hne]
      exact .inr (timers_removed_self hvl₂)
    · obtain ⟨n, hn⟩ := timers_removed_ne M w i l₁ hl₂ hne
      rw [hn]
      exact h.book.idle id (fun hc => hnp ((hpiff id).mpr ⟨hc, hne⟩)) nofun
  · intro id d hd
    cases hd
  · intro id
    by_cases hne : id = v
    · rw [hne]
      unfold removed
      rw [timers_renumber_of_notMem _ _ hvl₂]
      show P.script (Function.update M.timers v _ v).func
      rw [Function.update_self]
      exact h.book.script v
    · obtain ⟨n, hn⟩ := timers_removed_ne M w i l₁ hl₂ hne
      rw [hn]
      exact h.book.script id
  · intro id T t hm hle
    have hfate := h.book.fate id T t (hadd id T t hm) hle
    by_cases hne : id = v
    · -- a timer that was waiting has not been called, and now it is removed
      subst hne
      rcases hfate with ⟨k₁, -, -⟩ | ⟨-, -, -, k, -⟩ | ⟨-, -, k, -⟩
      · refine .inr (.inr ⟨(hcall id).trans k₁, ?_, fun hc => ((hpiff id).mp hc).2 rfl, nofun⟩)
        rw [hlog]
        simp
      · exact absurd hvp k
      · exact absurd hvp k
    · exact hfate.frame (hcall id) (hrem id hne) htick.ge ((hpiff id).trans (and_iff_left hne))
        (fun _ => due_removed hl₂ hne) (fun _ => Iff.rfl)
  · intro m₁ id T t m₂ hm ht
    rw [hlog] at hm
    rcases append_singleton_eq hm with ⟨-, he⟩ | ⟨m₃, rfl, hm'⟩
    · cases he
    · rcases h.book.prompt m₁ id T t m₃ hm' ht with ⟨m₄, rfl⟩ | ⟨-, hd⟩
      · exact .inl ⟨m₄ ++ _, rfl⟩
      · cases hd
  · intro e he
    rw [hlog] at he
    exact h.book.noError e (by simpa using he)
  · intro hf
    rw [hb] at hf
    cases hf

/-- Between two ticks a removal takes the timer out of every slot. -/
theorem Slots.slot_removed_filter (h : Slots P none M) (hslot : M.slot w i = l₁ ++ v :: l₂)
    (w' : WheelId) (i' : ℕ) :
    (M.removed v w i l₁ l₂).slot w' i' = (M.slot w' i').filter (· ≠ v) := by
  have hp : pendingAt none M w i = M.slot w i := pendingAt_other fun _ ht => nomatch ht
  have hnodup := h.nodup w i
  rw [hp, hslot, List.nodup_middle, List.nodup_cons] at hnodup
  rw [slot_removed]
  by_cases hwi : w' = w ∧ i' = i
  · rw [hwi.1, hwi.2, slot_setSlot_same, hslot, List.filter_append,
      List.filter_cons_of_neg (by simp), ← List.filter_append]
    refine (List.filter_eq_self.mpr fun a ha => decide_eq_true ?_).symm
    rintro rfl
    exact hnodup.1 ha
  · rw [slot_setSlot_ne M _ hwi]
    refine (List.filter_eq_self.mpr fun a ha => decide_eq_true ?_).symm
    rintro rfl
    have hmem : a ∈ M.slot w i := by
      rw [hslot]
      simp
    exact hwi (h.mem_unique ha hmem)

end Removed

/-- A list around one of its positions. -/
theorem exists_split_of_getElem? {α : Type*} {l : List α} {p : ℕ} {a : α} (h : l[p]? = some a) :
    ∃ l₁ l₂, l = l₁ ++ a :: l₂ ∧ l₁.length = p := by
  obtain ⟨hlt, hval⟩ := List.getElem?_eq_some_iff.mp h
  refine ⟨l.take p, l.drop (p + 1), ?_, ?_⟩
  · rw [← hval, List.cons_getElem_drop_succ, List.take_append_drop]
  · rw [List.length_take]
    omega

/-- **`Remove` of a waiting timer** whose slot is not worked on. It ends well, takes
the timer out of its slot and keeps the invariant; between two ticks it changes
nothing else. -/
theorem Inv.remove (h : Inv P hot none M) (hb : P.index = true) {v : TimerId}
    (hv : Pending hot M v) (hfree : ∀ t, hot = some t → v ∉ t.todo) :
    ∃ M', M.remove v = .ok M' ∧ Inv P hot none M'
      ∧ (M'.curWheel = M.curWheel ∧ M'.tick = M.tick ∧ M'.log = M.log ++ [.removed v])
      ∧ (hot = none → ∀ w i, M'.slot w i = (M.slot w i).filter (· ≠ v)) := by
  obtain ⟨w, i, hid⟩ := hv
  have hcold := h.slots.cold_of_pending hb hid hfree
  have hreg := h.slots.reg w i v hid
  have hp : pendingAt hot M w i = M.slot w i := pendingAt_other hcold
  obtain ⟨p, hget⟩ := List.mem_iff_getElem?.mp hid
  have hpos := (h.slots.index hb).2 w i p v hget
  have hvp : Pending hot M v := ⟨w, i, hid⟩
  rw [hp] at hid hget
  obtain ⟨l₁, l₂, hslot, hlen⟩ := exists_split_of_getElem? hget
  obtain ⟨-, hcur, htick, -⟩ : (M.removed v w i l₁ l₂).slot
      = (M.setSlot w i (l₁ ++ l₂)).slot ∧ (M.removed v w i l₁ l₂).curWheel = M.curWheel
      ∧ (M.removed v w i l₁ l₂).tick = M.tick ∧ _ := renumber_frame _ l₂ _
  refine ⟨_, remove_eq (h.slots.bound w i v hid) hslot hreg.wheel hreg.slot (by rw [hpos, hlen]),
    ⟨h.slots.remove hcold hslot, h.book_removed hb hcold hslot hvp⟩,
    ⟨hcur, htick, log_removed M v w i l₁ l₂⟩, ?_⟩
  rintro rfl w' i'
  exact h.slots.slot_removed_filter hslot w' i'

/-! ## `addTimer` -/

/-- The error of a timeout that is too long is noted. -/
theorem Inv.emit_timeOut (h : Inv P hot none M) : Inv P hot none (M.emit (.error .timeOut)) := by
  have hcall : ∀ id, calls id (M.log ++ [.error .timeOut]) = calls id M.log := by
    intro id
    rw [calls_append]
    exact List.append_nil _
  have hrem : ∀ id, .removed id ∈ M.log ++ [.error .timeOut] ↔ .removed id ∈ M.log := by
    intro id
    simp
  have hadd : ∀ id T t, .added id T t ∈ M.log ++ [.error .timeOut] → .added id T t ∈ M.log := by
    intro id T t hm
    simpa using hm
  constructor
  · exact h.slots.congr_timers rfl rfl rfl fun _ _ => rfl
  · constructor
    · intro id hid
      obtain ⟨k₁, k₂, k₃, k₄⟩ := h.book.known id hid
      exact ⟨k₁, (hcall id).trans k₂, (hrem id).not.mpr k₃, fun T t hm => k₄ T t (hadd id T t hm)⟩
    · exact h.book.idle
    · exact h.book.held
    · exact h.book.script
    · intro id T t hm hle
      exact (h.book.fate id T t (hadd id T t hm) hle).frame (hcall id) (hrem id) le_rfl Iff.rfl
        (fun _ => rfl) (fun _ => Iff.rfl)
    · intro l₁ id T t l₂ hl ht
      rcases append_singleton_eq hl with ⟨-, he⟩ | ⟨l₃, rfl, hl'⟩
      · cases he
      · rcases h.book.prompt l₁ id T t l₃ hl' ht with ⟨l₄, rfl⟩ | ⟨-, hd⟩
        · exact .inl ⟨l₄ ++ _, rfl⟩
        · cases hd
    · intro e he
      rcases List.mem_append.mp he with hm | hm
      · exact h.book.noError e hm
      · cases List.mem_singleton.mp hm
        rfl
    · intro hf id
      exact (hrem id).not.mpr (h.book.kept hf id)

/-- **A timer with too long a timeout is made and forgotten.** -/
theorem Inv.refuse (h : Inv P hot none M) {func : Script} (hfunc : P.script func) {t : ℤ}
    (ht : ¬ t ≤ mon.range) : Inv P hot none (M.newTimer func t) := by
  have h' := h.newTimer hfunc t
  obtain ⟨-, -, -, hadd⟩ := h.book.known M.next le_rfl
  have hother : ∀ id T (t' : ℤ), .added id T t' ∈ (M.newTimer func t).log → t' ≤ mon.range →
      id ≠ M.next := by
    rintro id T t' hm hle rfl
    rcases List.mem_append.mp hm with hm | hm
    · exact hadd T t' hm
    · cases List.mem_singleton.mp hm
      exact ht hle
  refine ⟨h'.slots, ?_⟩
  constructor
  · exact h'.book.known
  · intro id hp _
    by_cases hid : id = M.next
    · right
      rw [hid]
      show (Function.update M.timers M.next (.new func t) M.next).regWheel = none
      rw [Function.update_self]
      rfl
    · refine h'.book.idle id hp fun d hd => hid ?_
      cases hd
      rfl
  · intro id d hd
    cases hd
  · exact h'.book.script
  · intro id T t' hm hle
    refine (h'.book.fate id T t' hm hle).frame rfl Iff.rfl le_rfl Iff.rfl (fun _ => rfl)
      fun d => ⟨fun hd => (by cases hd), fun hd => ?_⟩
    cases hd
    exact absurd rfl (hother _ T t' hm hle)
  · intro l₁ id T t' l₂ hl ht'
    rcases h'.book.prompt l₁ id T t' l₂ hl ht' with hc | ⟨-, hd⟩
    · exact .inl hc
    · refine absurd (congrArg Prod.fst (Option.some.inj hd)).symm
        (hother id T t' ?_ (ht'.trans (by decide)))
      rw [hl]
      simp
  · exact h'.book.noError
  · exact h'.book.kept

/-- The code ends well or with the error of a timeout that is too long, and in a
good state. -/
def Ends (I : WheelMgr → Prop) (o : Outcome WheelMgr) : Prop :=
  ∃ M', (o = .ok M' ∨ o = .error .timeOut M') ∧ I M'

theorem Ends.bind {I : WheelMgr → Prop} {o : Outcome WheelMgr} {f : WheelMgr → Outcome WheelMgr}
    (h : Ends I o) (hf : ∀ M, I M → Ends I (f M)) : Ends I (o.bind f) := by
  obtain ⟨M, rfl | rfl, hM⟩ := h
  · exact hf M hM
  · exact ⟨M, .inr rfl, hM⟩

/-- **A timer in hand whose tick has come is called**, and the callback may end
with an error. -/
theorem Inv.callWith {x : TimerId} {body : WheelMgr → Outcome WheelMgr}
    (h : Inv P hot (some (x, M.tick)) M)
    (hbody : ∀ M, Inv P hot none M → Ends (Inv P hot none) (body M)) :
    Inv P hot none (WheelMgr.callWith body x M) := by
  obtain ⟨M', hrun, h'⟩ := hbody _ h.called
  unfold WheelMgr.callWith
  dsimp only
  rcases hrun with hrun | hrun
  · rw [hrun]
    exact h'
  · rw [hrun]
    exact h'.emit_timeOut

/-- **`addTimer`** refuses the timer, calls it at once or puts it into its slot.
Where positions matter, that is not the slot that is worked off. -/
theorem Inv.addWith {func : Script} {t : ℤ} {c : WheelMgr → WheelMgr}
    (h : Inv P hot none M) (hfunc : P.script func)
    (hcall : t ≤ 0 → ∀ M', Inv P hot (some (M.next, M'.tick)) M' → Inv P hot none (c M'))
    (hidx : t ≤ mon.range → P.index = true → ∀ r, hot = some r → t ≠ r.wheel.range) :
    Ends (Inv P hot none) (WheelMgr.addWith c (M.newTimer func t) M.next t) := by
  by_cases hle : t ≤ mon.range
  · have hnew := h.newTimer hfunc t
    have htimer : ((M.newTimer func t).timers M.next).timeOut = t := by
      rw [timers_newTimer_self]
      rfl
    by_cases hpos : t ≤ 0
    · rw [fire, if_pos hpos] at hnew
      have hrun := hnew.updHand (f := fun y => { y with run := false }) rfl
      refine ⟨_, .inl ?_, hcall hpos ((M.newTimer func t).updTimer M.next _) hrun⟩
      unfold WheelMgr.addWith
      rw [if_neg (not_not.mpr hle)]
      exact if_pos hpos
    · rw [fire, if_neg hpos] at hnew
      refine ⟨_, .inl (addWith_place _ _ _ hnew.slots.cursor.le_count (by omega) hle), ?_⟩
      refine Inv.place (M := M.newTimer func t) hnew (by omega) hle htimer fun hb r hr hc => ?_
      refine hidx hle hb r hr ?_
      rw [← hc.1]
      exact slotFor_eq_cur _ hnew.slots.cursor (by omega) hle hc.2
  · refine ⟨_, .inr ?_, h.refuse hfunc hle⟩
    unfold WheelMgr.addWith
    exact if_pos hle

/-! ## Callbacks -/

/-- **A cancelled timer is removed if it waits, and left alone otherwise.** -/
theorem Inv.cancel (h : Inv P hot none M) (hb : P.index = true) {v : TimerId}
    (hfree : ∀ t, hot = some t → v ∉ t.todo) :
    ∃ M', (if (M.timers v).run then .ok M else M.remove v) = .ok M' ∧ Inv P hot none M' := by
  by_cases hv : Pending hot M v
  · obtain ⟨M', hrem, h', -⟩ := h.remove hb hv hfree
    obtain ⟨w, i, hid⟩ := hv
    refine ⟨M', ?_, h'⟩
    rw [(h.slots.reg w i v hid).run]
    exact hrem
  · refine ⟨M, ?_, h⟩
    rcases h.book.idle v hv nofun with hrun | hreg
    · rw [hrun]
      rfl
    · split
      · rfl
      · unfold WheelMgr.remove
        dsimp only
        rw [hreg]

/-- **Every callback that the policy allows keeps the invariant**, between two ticks
and while a slot is worked off. -/
theorem Inv.runScript (s : Script) (M : WheelMgr) (hs : P.script s)
    (hturn : ∀ t, hot = some t → P.turn t.wheel t.todo s) (h : Inv P hot none M) :
    Ends (Inv P hot none) (WheelMgr.runScript s M) := by
  induction s generalizing M with
  | done => exact ⟨M, .inl rfl, h⟩
  | addTimer t func rest ihf ihr =>
    obtain ⟨hsf, hsr⟩ := P.script_addTimer hs
    by_cases hle : t ≤ mon.range
    · refine (h.addWith hsf (fun hpos M₁ hM₁ => hM₁.callWith fun M' hM' =>
        ihf M' hsf (fun r hr => ?_) hM') fun _ hb r hr => ?_).bind
          fun M' hM' => ihr M' hsr (fun r hr => ?_) hM'
      · exact (P.turn_addTimer (hturn r hr) hle).2.1 hpos
      · exact (P.turn_addTimer (hturn r hr) hle).1 hb
      · exact (P.turn_addTimer (hturn r hr) hle).2.2
    · -- the callback ends here
      refine ⟨_, .inr ?_, h.refuse hsf hle⟩
      unfold WheelMgr.runScript WheelMgr.addWith
      rw [if_pos hle]
      rfl
  | remove id rest ih => exact absurd hs P.script_remove
  | cancel id rest ih =>
    obtain ⟨hb, hsr⟩ := P.script_cancel hs
    obtain ⟨M', hrem, h'⟩ := h.cancel hb fun t ht => (P.turn_cancel (hturn t ht)).1
    have hrest := ih M' hsr (fun t ht => (P.turn_cancel (hturn t ht)).2) h'
    unfold WheelMgr.runScript
    split at hrem
    · rw [if_pos ‹_›]
      cases hrem
      exact hrest
    · rw [if_neg ‹_›, hrem]
      exact hrest

/-- **A timer in hand whose tick has come is called.** -/
theorem Inv.call {x : TimerId} (h : Inv P hot (some (x, M.tick)) M)
    (hturn : ∀ t, hot = some t → P.turn t.wheel t.todo (M.timers x).func) :
    Inv P hot none (M.call x) :=
  h.callWith fun M' hM' => hM'.runScript _ M' (h.book.script x) hturn

end WheelMgr
