import QService.TimeWheel.Firing

/-!
# Timers stay removable

A timer can be removed because it records its wheel, its slot and its place in
the slot. Between two ticks `Add` and `Remove` keep these right. A callback can
spoil them, since the loops of `onTime` and `cashData` close up the slot they
work off without renumbering what stands behind: by adding a timer to that slot,
whose timeout is then the range of the wheel, or by removing a timer that waits
before its own in the slot. Callbacks that do neither are `careful`, and in
every run with careful callbacks each waiting timer is where it says it is.
-/

namespace Script

/-- The callback removes timers only where they have not been called. -/
def Guarded : Script → Prop
  | done => True
  | addTimer _ func rest => func.Guarded ∧ rest.Guarded
  | remove _ _ => False
  | cancel _ rest => rest.Guarded

/-- The callback adds a timer with timeout `t`, itself or in a callback that it
makes run at once. It ends where a timeout is too long. -/
def Adds (t : ℤ) : Script → Prop
  | done => False
  | addTimer t' func rest =>
    t' ≤ WheelId.mon.range ∧ (t' = t ∨ (t' ≤ 0 ∧ func.Adds t) ∨ rest.Adds t)
  | remove _ rest => rest.Adds t
  | cancel _ rest => rest.Adds t

/-- The callback cancels the timer `v`. -/
def Cancels (v : TimerId) : Script → Prop
  | done => False
  | addTimer t' func rest =>
    t' ≤ WheelId.mon.range ∧ ((t' ≤ 0 ∧ func.Cancels v) ∨ rest.Cancels v)
  | remove _ rest => rest.Cancels v
  | cancel id rest => id = v ∨ rest.Cancels v

theorem AddOnly.not_cancels {s : Script} (h : s.AddOnly) (v : TimerId) : ¬ s.Cancels v := by
  induction s with
  | done => exact id
  | addTimer t func rest ihf ihr =>
    rintro ⟨-, ⟨-, hc⟩ | hc⟩
    · exact ihf h.1 hc
    · exact ihr h.2 hc
  | remove id rest ih => exact h.elim
  | cancel id rest ih => exact h.elim

theorem remove_ne_done {id : TimerId} {rest : Script} : remove id rest ≠ done := by
  intro h
  cases h

end Script

namespace WheelMgr

open WheelId

variable {M : WheelMgr}

/-- The callbacks that are due at the next tick neither add to the slot they are
called from nor cancel a timer that waits before their own. -/
def CarefulTick (M : WheelMgr) : Prop :=
  ∀ w i l₁ id l₂, M.slot w i = l₁ ++ id :: l₂ → M.due id = M.tick + 1 →
    ¬ (M.timers id).func.Adds w.range ∧ ∀ v ∈ l₁, ¬ (M.timers id).func.Cancels v

/-- A kind of callbacks, as long as they are careful. -/
def careful (S : Script → Prop) (hdone : S .done)
    (hadd : ∀ {t func rest}, S (.addTimer t func rest) → S func ∧ S rest)
    (hremove : ∀ {id rest}, ¬ S (.remove id rest))
    (hcancel : ∀ {id rest}, S (.cancel id rest) → S rest) : Policy where
  index := true
  script := S
  turn := fun w l s => ¬ s.Adds w.range ∧ ∀ v ∈ l, ¬ s.Cancels v
  script_done := hdone
  script_addTimer := hadd
  script_remove := hremove
  script_cancel := fun h => ⟨rfl, hcancel h⟩
  turn_addTimer := fun ⟨ha, hc⟩ hle =>
    ⟨fun _ ht => ha ⟨hle, .inl ht⟩,
      fun hz => ⟨fun h => ha ⟨hle, .inr (.inl ⟨hz, h⟩)⟩, fun v hv h => hc v hv ⟨hle, .inl ⟨hz, h⟩⟩⟩,
      fun h => ha ⟨hle, .inr (.inr h)⟩, fun v hv h => hc v hv ⟨hle, .inr h⟩⟩
  turn_cancel := fun ⟨ha, hc⟩ =>
    ⟨fun hv => hc _ hv (.inl rfl), ha, fun v hv h => hc v hv (.inr h)⟩
  turn_sublist := fun hl h => ⟨h.1, fun v hv => h.2 v (hl.subset hv)⟩

/-- Callbacks that leave the wheel alone. -/
def quiet : Policy := careful (· = .done) rfl nofun @Script.remove_ne_done nofun

/-- Careful callbacks that only add timers. -/
def carefulAdding : Policy :=
  careful Script.AddOnly trivial (fun h => h) (fun h => h) fun h => h.elim

/-- Careful callbacks that add and cancel timers. -/
def carefulGuarded : Policy :=
  careful Script.Guarded trivial (fun h => h) (fun h => h) fun h => h

/-! ## Where a timer says it is -/

/-- The timer was added and has neither been called nor removed. -/
def Waiting (M : WheelMgr) (id : TimerId) : Prop :=
  (∃ T, ∃ t : ℤ, t ≤ mon.range ∧ .added id T t ∈ M.log)
    ∧ calls id M.log = [] ∧ .removed id ∉ M.log

/-- `x.RegWheel.Slot[x.RegSlot][x.RegIndex] == x`. -/
def Located (M : WheelMgr) (id : TimerId) : Prop :=
  ∃ w l, (M.timers id).regWheel = some w ∧ M.get w (M.timers id).regSlot = some l
    ∧ 1 ≤ (M.timers id).regIndex ∧ l[(M.timers id).regIndex - 1]? = some id

/-- `Remove` takes the timer out of its slot, and nothing else changes in the wheels. -/
def Removable (M : WheelMgr) (id : TimerId) : Prop :=
  ∃ M', M.remove id = .ok M' ∧ (∀ w i, M'.slot w i = (M.slot w i).filter (· ≠ id))
    ∧ M'.curWheel = M.curWheel ∧ M'.tick = M.tick ∧ M'.log = M.log ++ [.removed id]

theorem Inv.pending_of_waiting {P : Policy} (h : Inv P none none M) {id : TimerId}
    (hw : M.Waiting id) : Pending none M id := by
  obtain ⟨⟨T, t, ht, hadd⟩, hcalls, hrem⟩ := hw
  rcases h.book.fate id T t hadd ht with ⟨-, -, hw | hw⟩ | ⟨k, -⟩ | ⟨-, k, -⟩
  · exact hw.1
  · cases hw
  · rw [hcalls] at k
    cases k
  · exact absurd k hrem

/-- **A waiting timer is where it says it is.** -/
theorem Inv.located {P : Policy} (h : Inv P none none M) (hb : P.index = true) {id : TimerId}
    (hw : M.Waiting id) : M.Located id := by
  obtain ⟨w, i, hid⟩ := h.pending_of_waiting hw
  have hreg := h.slots.reg w i id hid
  obtain ⟨p, hp⟩ := List.mem_iff_getElem?.mp hid
  have hpos := (h.slots.index hb).2 w i p id hp
  refine ⟨w, M.slot w i, hreg.wheel, ?_, ?_, ?_⟩
  · rw [hreg.slot, get_of_mem M (h.slots.bound w i id hid)]
  · rw [hpos]
    exact Nat.succ_pos p
  · rw [hpos]
    exact hp

/-- **A waiting timer can be removed.** -/
theorem Inv.removable {P : Policy} (h : Inv P none none M) (hb : P.index = true) {id : TimerId}
    (hw : M.Waiting id) : M.Removable id := by
  obtain ⟨M', hrem, -, ⟨hcur, htick, hlog⟩, hslot⟩ := h.remove hb (h.pending_of_waiting hw) nofun
  exact ⟨M', hrem, hslot rfl, hcur, htick, hlog⟩

/-! ## Removing between two ticks -/

/-- Timers whose callbacks leave the wheel alone are added, waiting timers are
removed, and the clock ticks. -/
def RemoveOps (M : WheelMgr) : Op → Prop
  | .addTimer t func => (1 ≤ t ∧ t ≤ 12 * 30 * 86400) ∧ func = .done
  | .remove id => M.Waiting id
  | .onTime => True

theorem inv_of_removeOps (h : Reach WheelMgr.step RemoveOps new M) : Inv quiet none none M := by
  refine Inv.of_reach (fun M op hM hop => ?_) h
  cases op with
  | addTimer t func => exact hop.2
  | remove id => exact ⟨rfl, hM.pending_of_waiting hop⟩
  | onTime =>
    intro w i l₁ id l₂ _ _
    have hdone : (M.timers id).func = .done := hM.book.script id
    rw [hdone]
    exact ⟨fun h => h, fun _ _ h => h⟩

/-- **Removing timers between ticks disturbs nothing else.** In every run of `addTimer`,
`Remove` of waiting timers and `onTime`, with callbacks that leave the wheel alone: a
removed timer is not called, every other timer is called exactly once, at its due
tick, and every waiting timer is where it says it is and can be removed. -/
theorem remove_disturbs_nothing (h : Reach WheelMgr.step RemoveOps new M) :
    (∀ id (T : ℕ) (t : ℤ), .added id T t ∈ M.log → 1 ≤ t → t ≤ 12 * 30 * 86400 →
        calls id M.log = if .removed id ∉ M.log ∧ T + t ≤ M.tick then [T + t] else [])
      ∧ ∀ id, M.Waiting id → M.Located id ∧ M.Removable id := by
  have hinv := inv_of_removeOps h
  refine ⟨fun id T t hadd ht ht' => ?_, fun id hw => ⟨hinv.located rfl hw, hinv.removable rfl hw⟩⟩
  have hfire : fire T t = T + t := if_neg (by omega)
  rw [hinv.calls_eq hadd ht', hfire]

/-- Of two timers in a slot the first is removed. -/
def removeFirst : List Op := [.addTimer 2 .done, .addTimer 2 .done, .remove 0, .onTime, .onTime]

theorem remove_disturbs_nothing_removeFirst :
    Reach WheelMgr.step RemoveOps new (removeFirst.foldl WheelMgr.step new)
      ∧ calls 0 (removeFirst.foldl WheelMgr.step new).log = []
      ∧ calls 1 (removeFirst.foldl WheelMgr.step new).log = [2] := by
  have hrun : Reach WheelMgr.step RemoveOps new (removeFirst.foldl WheelMgr.step new) :=
    Reach.start.of_list removeFirst ⟨⟨by decide, rfl⟩, ⟨by decide, rfl⟩,
      ⟨⟨0, 2, by decide, by decide⟩, by decide, by decide⟩, trivial, trivial, trivial⟩
  refine ⟨hrun, ?_, ?_⟩
  · exact (remove_disturbs_nothing hrun).1 0 0 2 (by decide) (by decide) (by decide)
  · exact (remove_disturbs_nothing hrun).1 1 0 2 (by decide) (by decide) (by decide)

/-! ## Adding in callbacks -/

/-- Timers are added, with callbacks that only add timers, and the clock ticks when
no callback that is due adds a timer to the slot it is called from: one whose
timeout is the range of the wheel. -/
def CarefulAddOps (M : WheelMgr) : Op → Prop
  | .addTimer _ func => func.AddOnly
  | .remove _ => False
  | .onTime => ∀ w i id, id ∈ M.slot w i → M.due id = M.tick + 1 →
      ¬ (M.timers id).func.Adds w.range

theorem inv_of_carefulAddOps (h : Reach WheelMgr.step CarefulAddOps new M) :
    Inv carefulAdding none none M := by
  refine Inv.of_reach (fun M op hM hop => ?_) h
  cases op with
  | addTimer t func => exact hop
  | remove id => exact hop.elim
  | onTime =>
    intro w i l₁ id l₂ hl hdue
    have hadd : (M.timers id).func.AddOnly := hM.book.script id
    refine ⟨hop w i id ?_ hdue, fun v _ => hadd.not_cancels v⟩
    rw [hl]
    simp

/-- **Timers registered from callbacks stay removable**, as long as no callback adds a
timer to the slot it is called from. -/
theorem removable_of_carefulAdds (h : Reach WheelMgr.step CarefulAddOps new M) {id : TimerId}
    (hw : M.Waiting id) : M.Located id ∧ M.Removable id :=
  ⟨(inv_of_carefulAddOps h).located rfl hw, (inv_of_carefulAddOps h).removable rfl hw⟩

/-- A timer whose callback adds a timer of `t` seconds, after a tick. -/
def addAfterOne (t : ℤ) : List Op := [.addTimer 1 (.addTimer t .done .done), .onTime]

theorem removable_of_carefulAdds_five :
    ((addAfterOne 5).foldl WheelMgr.step new).Waiting 1
      ∧ ((addAfterOne 5).foldl WheelMgr.step new).Located 1 := by
  have hwait : ((addAfterOne 5).foldl WheelMgr.step new).Waiting 1 :=
    ⟨⟨1, 5, by decide, by decide⟩, by decide, by decide⟩
  have hadd : Reach WheelMgr.step CarefulAddOps new
      (new.step (.addTimer 1 (.addTimer 5 .done .done))) := Reach.start.step ⟨trivial, trivial⟩
  have hrun : Reach WheelMgr.step CarefulAddOps new ((addAfterOne 5).foldl WheelMgr.step new) := by
    refine hadd.step (i := Op.onTime) fun w i id hid _ => ?_
    have hlt : id < 1 := (inv_of_carefulAddOps hadd).pending_lt ⟨w, i, hid⟩
    obtain rfl : id = 0 := Nat.lt_one_iff.mp hlt
    show ¬ Script.Adds w.range (.addTimer 5 .done .done)
    cases w <;> simp [Script.Adds, range, count, param]
  exact ⟨hwait, (removable_of_carefulAdds hrun hwait).1⟩

/-- A callback that adds a timer of 60 seconds from the second wheel, as `onLogLuaMemory`
does, adds it to its own slot. The timer waits, but not where it says it is, and
`Remove` leaves it in its slot. -/
theorem not_removable_after_own_slot :
    ((addAfterOne 60).foldl WheelMgr.step new).Waiting 1
      ∧ ¬ ((addAfterOne 60).foldl WheelMgr.step new).Located 1
      ∧ ¬ ((addAfterOne 60).foldl WheelMgr.step new).Removable 1 := by
  refine ⟨⟨⟨1, 60, by decide, by decide⟩, by decide, by decide⟩, ?_, ?_⟩
  · rintro ⟨w, l, hw, hl, -, hget⟩
    have htimer : ((addAfterOne 60).foldl WheelMgr.step new).timers 1
        = ⟨.done, 60, 0, false, some sec, 1, 2, 1⟩ := by decide
    have hslot : ((addAfterOne 60).foldl WheelMgr.step new).get sec 1 = some [1] := by decide
    rw [htimer] at hw hl hget
    cases hw
    cases hslot.symm.trans hl
    cases hget
  · rintro ⟨M', hrem, hslot, -⟩
    have hleft :
        (((addAfterOne 60).foldl WheelMgr.step new).step (.remove 1)).slot sec 1 = [1] := by
      decide
    have hstep : ((addAfterOne 60).foldl WheelMgr.step new).step (.remove 1) = M' := by
      simp only [WheelMgr.step.eq_def _ (.remove 1), hrem]
    rw [hstep] at hleft
    have hgone : M'.slot sec 1 = [] := (hslot sec 1).trans (by decide)
    cases hleft.symm.trans hgone

/-! ## Cancelling in callbacks -/

/-- Timers are added, with callbacks that add and cancel timers, waiting timers are
removed, and the clock ticks when the callbacks that are due are careful. -/
def CarefulOps (M : WheelMgr) : Op → Prop
  | .addTimer _ func => func.Guarded
  | .remove id => M.Waiting id
  | .onTime => M.CarefulTick

theorem inv_of_carefulOps (h : Reach WheelMgr.step CarefulOps new M) :
    Inv carefulGuarded none none M := by
  refine Inv.of_reach (fun M op hM hop => ?_) h
  cases op with
  | addTimer t func => exact hop
  | remove id => exact ⟨rfl, hM.pending_of_waiting hop⟩
  | onTime => exact hop

/-- **Callbacks may cancel other timers**, if they are careful: `onTime` ends without an
error, a cancelled timer is not called, and every other timer is called exactly
once, at its due tick. -/
theorem cancel_of_carefulTicks (h : Reach WheelMgr.step CarefulOps new M) :
    (∀ e, .error e ∈ M.log → e = .timeOut)
      ∧ (M.CarefulTick → ∃ M', M.onTime = .ok M')
      ∧ ∀ id (T : ℕ) (t : ℤ), .added id T t ∈ M.log → t ≤ 12 * 30 * 86400 →
          calls id M.log
            = if .removed id ∉ M.log ∧ fire T t ≤ M.tick then [fire T t] else [] := by
  have hinv := inv_of_carefulOps h
  refine ⟨hinv.book.noError, fun htick => ?_, fun id T t hadd ht => hinv.calls_eq hadd ht⟩
  obtain ⟨M', hrun, -⟩ := hinv.onTime htick
  exact ⟨M', hrun⟩

/-- A timer cancels one of another wheel. -/
def cancelOther : List Op := [.addTimer 1 (.cancel 1 .done), .addTimer 70 .done, .onTime]

theorem cancel_of_carefulTicks_other :
    calls 0 (cancelOther.foldl WheelMgr.step new).log = [1]
      ∧ calls 1 (cancelOther.foldl WheelMgr.step new).log = [] := by
  have hadd : Reach WheelMgr.step CarefulOps new
      ((new.step (.addTimer 1 (.cancel 1 .done))).step (.addTimer 70 .done)) :=
    (Reach.start.step (i := Op.addTimer 1 (.cancel 1 .done)) trivial).step
      (i := Op.addTimer 70 .done) trivial
  have hrun : Reach WheelMgr.step CarefulOps new (cancelOther.foldl WheelMgr.step new) := by
    refine hadd.step (i := Op.onTime) fun w i l₁ id l₂ hl _ => ?_
    have hinv := inv_of_carefulOps hadd
    have hid : id ∈ pendingAt none ((new.step (.addTimer 1 (.cancel 1 .done))).step
        (.addTimer 70 .done)) w i := by
      rw [show pendingAt none _ w i = _ from hl]
      simp
    have hlt : id < 2 := hinv.pending_lt ⟨w, i, hid⟩
    interval_cases id
    · refine ⟨fun h => h, fun v hv hc => ?_⟩
      obtain rfl : 1 = v := hc.resolve_right fun h => h
      have hw₀ := (hinv.slots.reg w i 0 hid).wheel
      have hw₁ := (hinv.slots.reg w i 1 (by
        rw [show pendingAt none _ w i = _ from hl]
        simp [hv])).wheel
      -- the first is on the second wheel, the other on the minute wheel
      have hsec : some sec = some w := hw₀
      have hmin : some min = some w := hw₁
      cases hsec.trans hmin.symm
    · exact ⟨fun h => h, fun _ _ h => h⟩
  have hcalls := (cancel_of_carefulTicks hrun).2.2
  exact ⟨hcalls 0 0 1 (by decide) (by decide), hcalls 1 0 70 (by decide) (by decide)⟩

/-- The third timer of a slot cancels the first. -/
def cancelBefore : List Op :=
  [.addTimer 1 .done, .addTimer 1 .done, .addTimer 1 (.cancel 0 .done), .onTime]

/-- A callback that cancels a timer that waits before its own is called again. -/
theorem cancel_before_calls_twice :
    calls 2 (cancelBefore.foldl WheelMgr.step new).log = [1, 1] := by decide

end WheelMgr
