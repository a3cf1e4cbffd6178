import QService.Runs
import QService.TimeWheel.Callbacks

/-!
# Removing a timer that is finished

A timer that is called keeps the wheel, the slot and the position of its last
registration, since `onTime` and `cashData` take it out of the slot and leave
its fields alone. `Remove` goes by these fields. For a timer that has been
called it takes out whoever has come to that position since, raises an error
when the slot has become too short, and does nothing only if the position is
the one just behind the last timer of the slot (`remove_finished_iff`).

What is needed for this, and holds in every run with any callbacks, is that a
recorded slot is one of its wheel (`Bound`). `addTimer` and its callbacks are made
of few steps, so what these keep is kept by all of it (`Closed`).
-/

/-- The state at the end, whether it ends well or in an error. -/
def Outcome.All {σ : Type*} (I : σ → Prop) : Outcome σ → Prop
  | .ok s => I s
  | .error _ s => I s

theorem Outcome.All.bind {σ : Type*} {I : σ → Prop} {o : Outcome σ} {f : σ → Outcome σ}
    (h : o.All I) (hf : ∀ s, I s → (f s).All I) : (o.bind f).All I := by
  cases o with
  | ok s => exact hf s h
  | error e s => exact h

theorem Outcome.All.mono {σ : Type*} {I J : σ → Prop} {o : Outcome σ} (h : o.All I)
    (hIJ : ∀ s, I s → J s) : o.All J := by
  cases o with
  | ok s => exact hIJ s h
  | error e s => exact hIJ s h

theorem Outcome.All.and {σ : Type*} {I J : σ → Prop} {o : Outcome σ} (h : o.All I)
    (h' : o.All J) : o.All fun s => I s ∧ J s := by
  cases o with
  | ok s => exact ⟨h, h'⟩
  | error e s => exact ⟨h, h'⟩

namespace WheelMgr

open WheelId

variable {M : WheelMgr}

/-! ## What callbacks keep -/

/-- The timer that is written is registered for the slot that it was registered for, or
for another one of its wheel. -/
def Settled (f : TvecBase → TvecBase) (x : TvecBase) : Prop :=
  ∀ w, (f x).regWheel = some w → (x.regWheel = some w ∧ (f x).regSlot = x.regSlot)
    ∨ (1 ≤ (f x).regSlot ∧ (f x).regSlot ≤ w.count)

/-- **A property that the single steps of `addTimer` keep**: timers in `ok` are written,
and the new ones are among them. -/
structure Closed (ok : TimerId → Prop) (I : WheelMgr → Prop) : Prop where
  updTimer : ∀ {M id f}, I M → ok id → Settled f (M.timers id) → I (M.updTimer id f)
  setSlot : ∀ {M w i l}, I M → I (M.setSlot w i l)
  emit : ∀ {M e}, I M → I (M.emit e)
  newTimer : ∀ {M func iTimeOut}, I M → ok M.next ∧ I (M.newTimer func iTimeOut)

section Closed

variable {ok : TimerId → Prop} {I : WheelMgr → Prop} {id : TimerId}

/-- What does not touch the wheel and the slot of a timer. -/
theorem Closed.updOther (hI : Closed ok I) (h : I M) (hid : ok id) {f : TvecBase → TvecBase}
    (hwheel : (f (M.timers id)).regWheel = (M.timers id).regWheel)
    (hslot : (f (M.timers id)).regSlot = (M.timers id).regSlot) : I (M.updTimer id f) :=
  hI.updTimer h hid fun _ hw => .inl ⟨hwheel.symm.trans hw, hslot⟩

theorem slotAfter_bound (M : WheelMgr) (w : WheelId) (n : ℤ) :
    1 ≤ M.slotAfter w n ∧ M.slotAfter w n ≤ w.count := by
  have hcount : (0 : ℤ) < w.count := by cases w <;> decide
  have hlow := Int.emod_nonneg (n + M.curWheel w - 1) hcount.ne'
  have hhigh := Int.emod_lt_of_pos (n + M.curWheel w - 1) hcount
  unfold slotAfter
  omega

/-- A timer goes into a slot of the wheel. -/
theorem Closed.register (hI : Closed ok I) (h : I M) (hid : ok id) {w : WheelId} {iIndex : ℕ}
    (hi : 1 ≤ iIndex ∧ iIndex ≤ w.count) :
    ((M.setRegInfo id w iIndex).bind fun M => M.wheelAdd w iIndex id).All I := by
  have hreg : (M.setRegInfo id w iIndex).All I := by
    unfold setRegInfo
    dsimp only
    have hset : I (M.updTimer id fun x => { x with regWheel := some w, regSlot := iIndex }) :=
      hI.updTimer h hid fun w' hw' => by
        cases hw'
        exact .inr hi
    split
    · exact hset
    · exact hI.updOther hset hid rfl rfl
  refine hreg.bind fun M' h' => ?_
  unfold wheelAdd
  split
  · exact h'
  · exact hI.setSlot h'

theorem Closed.addWheel (hI : Closed ok I) (h : I M) (hid : ok id) (iTimeOut : ℤ) (w v : WheelId)
    (getCompTime : ℕ → ℤ) : (M.addWheel id iTimeOut w v getCompTime).All I := by
  unfold WheelMgr.addWheel
  dsimp only
  exact hI.register (hI.updOther h hid (f := fun x =>
    { x with compTime := getCompTime (M.slotAfter w (iTimeOut / v.range)) }) rfl rfl) hid
    (slotAfter_bound M w _)

/-- `Add`, if the call of the timer does. -/
theorem Closed.addWith (hI : Closed ok I) (h : I M) (hid : ok id) {c : WheelMgr → WheelMgr}
    (hc : ∀ M, I M → I (c M)) (iTimeOut : ℤ) : (WheelMgr.addWith c M id iTimeOut).All I := by
  have hrun : I (M.updTimer id fun x => { x with run := false }) := hI.updOther h hid rfl rfl
  unfold WheelMgr.addWith
  dsimp only
  split_ifs
  · exact hc _ hrun
  · exact hI.register hrun hid (slotAfter_bound _ _ _)
  · exact hI.addWheel hrun hid iTimeOut _ _ _
  · exact hI.addWheel hrun hid iTimeOut _ _ _
  · exact hI.addWheel hrun hid iTimeOut _ _ _
  · exact hI.addWheel hrun hid iTimeOut _ _ _
  · exact h

/-- `Call`, from where the callback starts. -/
theorem Closed.callWith (hI : Closed ok I) {body : WheelMgr → Outcome WheelMgr}
    (h : I ((M.updTimer id fun x => { x with run := true }).emit (.called id M.tick)))
    (hbody : ∀ M, I M → (body M).All I) : I (WheelMgr.callWith body id M) := by
  have hend := hbody _ h
  unfold WheelMgr.callWith
  dsimp only
  split
  · rename_i M' hM'
    rwa [hM'] at hend
  · rename_i e M' hM'
    rw [hM'] at hend
    exact hI.emit hend

/-- The call of a timer that may be written. -/
theorem Closed.called (hI : Closed ok I) (h : I M) (hid : ok id) :
    I ((M.updTimer id fun x => { x with run := true }).emit (.called id M.tick)) :=
  hI.emit (hI.updOther h hid rfl rfl)

end Closed

/-! ## Recorded slots -/

/-- A recorded slot is one of its wheel. -/
def Bound (M : WheelMgr) : Prop :=
  ∀ id w, (M.timers id).regWheel = some w →
    1 ≤ (M.timers id).regSlot ∧ (M.timers id).regSlot ≤ w.count

theorem Bound.new : Bound new := by
  intro id w hw
  cases hw

/-- Whatever happens to the slots, the cursors and the log. -/
theorem Bound.of_timers {M' : WheelMgr} (h : Bound M) (ht : M'.timers = M.timers) : Bound M' := by
  unfold Bound
  rw [ht]
  exact h

/-- A timer is written, and its slot is one of its wheel. -/
theorem Bound.updTimer (h : Bound M) (id : TimerId) {f : TvecBase → TvecBase}
    (hf : Settled f (M.timers id)) : Bound (M.updTimer id f) := by
  intro v w hw
  by_cases hv : v = id
  · subst hv
    rw [timers_updTimer_self] at hw ⊢
    rcases hf w hw with ⟨hold, hslot⟩ | hbound
    · rw [hslot]
      exact h v w hold
    · exact hbound
  · rw [timers_updTimer_of_ne _ hv] at hw ⊢
    exact h v w hw

/-- **The steps of `addTimer` keep recorded slots in their wheels.** -/
theorem Bound.closed : Closed (fun _ => True) Bound where
  updTimer := fun h _ hf => h.updTimer _ hf
  setSlot := fun h => h.of_timers rfl
  emit := fun h => h.of_timers rfl
  newTimer := fun {M func iTimeOut} h => by
    have hnew : Bound (M.updTimer M.next fun _ => .new func iTimeOut) :=
      h.updTimer M.next fun w hw => by cases hw
    exact ⟨trivial, hnew.of_timers rfl⟩

theorem Bound.renumber (h : Bound M) (l : List TimerId) (i : ℕ) : Bound (M.renumber l i) := by
  induction l generalizing M i with
  | nil => exact h
  | cons id l ih => exact ih (Bound.closed.updOther h trivial rfl rfl) (i + 1)

/-- `Remove`. -/
theorem Bound.remove (h : Bound M) (id : TimerId) : (M.remove id).All Bound := by
  unfold WheelMgr.remove
  dsimp only
  split
  · exact h
  · rename_i w _
    split_ifs
    · exact h
    · split
      · exact h
      · rename_i tSlot _
        split
        · exact h
        · rename_i tSlot' _
          have hset : Bound (M.setSlot w (M.timers id).regSlot tSlot') := h.of_timers rfl
          have hclear : Bound ((M.setSlot w (M.timers id).regSlot tSlot').clearRegInfo id) :=
            hset.updTimer id fun w' hw' => by cases hw'
          have hemit : Bound (((M.setSlot w (M.timers id).regSlot tSlot').clearRegInfo id).emit
              (.removed id)) := hclear.of_timers rfl
          split_ifs
          · exact hemit
          · exact hemit.renumber _ _

/-- **Every callback keeps recorded slots in their wheels.** -/
theorem Bound.runScript (s : Script) (h : Bound M) : (WheelMgr.runScript s M).All Bound := by
  induction s generalizing M with
  | done => exact h
  | addTimer t func rest ihf ihr =>
    exact (Bound.closed.addWith (Bound.closed.newTimer h).2 trivial (fun M' h' =>
      Bound.closed.callWith (Bound.closed.called h' trivial) fun _ h'' => ihf h'') t).bind
        fun _ h' => ihr h'
  | remove id rest ih => exact (h.remove id).bind fun _ h' => ih h'
  | cancel id rest ih =>
    unfold WheelMgr.runScript
    split_ifs
    · exact ih h
    · exact (h.remove id).bind fun _ h' => ih h'

theorem Bound.call (h : Bound M) (id : TimerId) : Bound (M.call id) :=
  Bound.closed.callWith (Bound.closed.called h trivial) fun _ h' => h'.runScript _

theorem Bound.add (h : Bound M) (id : TimerId) (iTimeOut : ℤ) : (M.add id iTimeOut).All Bound :=
  Bound.closed.addWith h trivial (fun _ h' => h'.call id) iTimeOut

theorem Bound.runSlot (h : Bound M) (i : ℕ) : (WheelMgr.runSlot i M).All Bound := by
  induction i generalizing M with
  | zero => exact h
  | succ i ih =>
    unfold WheelMgr.runSlot
    split
    · exact ih h
    · rename_i id _
      dsimp only
      split
      · exact h.call id
      · exact ih ((h.call id).of_timers rfl)

theorem Bound.cashLoop (h : Bound M) (w : WheelId) (i : ℕ) :
    (WheelMgr.cashLoop w i M).All Bound := by
  induction i generalizing M with
  | zero => exact h
  | succ i ih =>
    unfold WheelMgr.cashLoop
    split
    · exact h
    · rename_i id _
      dsimp only
      refine (Bound.add (Bound.closed.updOther h trivial rfl rfl) id _).bind fun M' h' => ?_
      split
      · exact h'
      · exact ih (h'.of_timers rfl)

theorem Bound.cashData (h : Bound M) (w : WheelId) : (M.cashData w).All Bound := by
  unfold WheelMgr.cashData
  split
  · exact h
  · exact h.cashLoop w _

theorem Bound.cashFrom (h : Bound M) (v : WheelId) (ws : List WheelId) :
    (WheelMgr.cashFrom v ws M).All Bound := by
  induction ws generalizing M v with
  | nil =>
    unfold WheelMgr.cashFrom
    split_ifs
    · exact h.of_timers rfl
    · exact h
  | cons w ws ih =>
    unfold WheelMgr.cashFrom
    split_ifs
    · have hcur : Bound ((M.setCurWheel v 0).setCurWheel w ((M.setCurWheel v 0).curWheel w + 1)) :=
        h.of_timers rfl
      exact (hcur.cashData w).bind fun M' h' => ih h' w
    · exact h

theorem Bound.onTime (h : Bound M) : M.onTime.All Bound := by
  have htick : Bound ({ M with tick := M.tick + 1 }.setCurWheel .sec (M.curWheel .sec + 1)) :=
    h.of_timers rfl
  unfold WheelMgr.onTime
  dsimp only
  split
  · exact htick
  · exact (htick.runSlot _).bind fun _ h' => h'.cashFrom _ _

/-- **A call that ends in an error leaves it in the log**, and what holds at its end holds
after it if that does not matter. -/
theorem of_end {J : WheelMgr → Prop} (hJ : ∀ e M, J M → J (M.emit (.error e)))
    (o : Outcome WheelMgr) : o.All J →
    J (match o with
      | .ok M => M
      | .error e M => M.emit (.error e)) := by
  intro hend
  cases o with
  | ok M' => exact hend
  | error e M' => exact hJ e M' hend

/-- **Every call keeps recorded slots in their wheels.** -/
theorem Bound.step (h : Bound M) (op : Op) : Bound (M.step op) := by
  have hJ : ∀ e M, Bound M → Bound (M.emit (.error e)) := fun e M hM => hM.of_timers rfl
  cases op with
  | addTimer iTimeOut func =>
    exact of_end hJ _ (Bound.add (Bound.closed.newTimer h).2 M.next iTimeOut)
  | remove id => exact of_end hJ _ (h.remove id)
  | onTime => exact of_end hJ _ h.onTime

/-! ## `Remove` of a finished timer -/

/-- The timer has been called, or has been removed. -/
def Finished (M : WheelMgr) (id : TimerId) : Prop :=
  calls id M.log ≠ [] ∨ .removed id ∈ M.log

/-- `Remove` raises no error, and leaves the slots and the other timers alone. -/
def HarmlessRemove (M : WheelMgr) (id : TimerId) : Prop :=
  ∃ M', M.remove id = .ok M' ∧ M'.slot = M.slot ∧ ∀ v, v ≠ id → M'.timers v = M.timers v

/-- The timer has no registration, or its position is the one just behind the
last timer of its slot. -/
def Vacant (M : WheelMgr) (id : TimerId) : Prop :=
  ∀ w, (M.timers id).regWheel = some w → (M.timers id).regIndex ≠ 0 →
    (M.timers id).regIndex = (M.slot w (M.timers id).regSlot).length + 1

/-- `table.remove` changes nothing just behind the table, takes an element out
of it, and raises an error further behind. -/
theorem tableRemove_cases {α : Type*} (t : List α) {pos : ℕ} (hpos : pos ≠ 0) :
    (pos = t.length + 1 ∧ tableRemove t pos = some t)
      ∨ (pos ≤ t.length ∧ ∃ t', tableRemove t pos = some t' ∧ t'.length < t.length)
      ∨ (t.length + 1 < pos ∧ tableRemove t pos = none) := by
  unfold tableRemove
  rcases lt_trichotomy pos (t.length + 1) with hlt | heq | hgt
  · refine .inr (.inl ⟨by omega, t.eraseIdx (pos - 1), if_pos (.inr (by omega)), ?_⟩)
    rw [List.length_eraseIdx_of_lt (by omega)]
    omega
  · refine .inl ⟨heq, ?_⟩
    rw [if_pos (.inr (by omega)), heq, Nat.add_sub_cancel, List.eraseIdx_of_length_le le_rfl]
  · exact .inr (.inr ⟨hgt, if_neg (by omega)⟩)

section Registered

variable {id : TimerId} {w : WheelId}

/-- `Remove` of a timer with a registration. -/
theorem remove_of_registered (hw : (M.timers id).regWheel = some w)
    (hslot : 1 ≤ (M.timers id).regSlot ∧ (M.timers id).regSlot ≤ w.count)
    (hindex : (M.timers id).regIndex ≠ 0) :
    M.remove id = match tableRemove (M.slot w (M.timers id).regSlot) (M.timers id).regIndex with
      | none => .error .position M
      | some tSlot' =>
        let M' := ((M.setSlot w (M.timers id).regSlot tSlot').clearRegInfo id).emit (.removed id)
        if (M.timers id).regIndex ≥ (M.slot w (M.timers id).regSlot).length then .ok M'
        else .ok (M'.renumber (tSlot'.drop ((M.timers id).regIndex - 1))
          (M.timers id).regIndex) := by
  unfold WheelMgr.remove
  dsimp only
  rw [hw]
  dsimp only
  have hnone : ¬ ((M.timers id).regSlot = 0 ∨ (M.timers id).regIndex = 0) := by omega
  refine (if_neg hnone).trans ?_
  have hget := get_of_mem M hslot
  split
  · rename_i hnil
    rw [hget] at hnil
    cases hnil
  · rename_i tSlot hsome
    rw [hget] at hsome
    cases hsome
    rfl

/-- At a vacant position `Remove` forgets the registration of the timer, and that is all. -/
theorem harmlessRemove_of_vacant (hw : (M.timers id).regWheel = some w)
    (hslot : 1 ≤ (M.timers id).regSlot ∧ (M.timers id).regSlot ≤ w.count)
    (hindex : (M.timers id).regIndex = (M.slot w (M.timers id).regSlot).length + 1) :
    M.HarmlessRemove id := by
  have hne : (M.timers id).regIndex ≠ 0 := by omega
  obtain ⟨-, hsame⟩ | ⟨hle, -⟩ | ⟨hgt, -⟩ := tableRemove_cases (M.slot w (M.timers id).regSlot) hne
  · unfold HarmlessRemove
    rw [remove_of_registered hw hslot hne, hsame]
    dsimp only
    rw [if_pos (by omega)]
    refine ⟨_, rfl, ?_, fun v hv => Function.update_of_ne hv _ _⟩
    show Function.update M.slot w
      (Function.update (M.slot w) (M.timers id).regSlot (M.slot w (M.timers id).regSlot)) = M.slot
    rw [Function.update_eq_self, Function.update_eq_self]
  · omega
  · omega

/-- At another position it takes a timer out of the slot, or raises an error. -/
theorem not_harmlessRemove_of_not_vacant (hw : (M.timers id).regWheel = some w)
    (hslot : 1 ≤ (M.timers id).regSlot ∧ (M.timers id).regSlot ≤ w.count)
    (hne : (M.timers id).regIndex ≠ 0)
    (hindex : (M.timers id).regIndex ≠ (M.slot w (M.timers id).regSlot).length + 1) :
    ¬ M.HarmlessRemove id := by
  rintro ⟨M', hrem, hsame, -⟩
  rw [remove_of_registered hw hslot hne] at hrem
  obtain ⟨heq, -⟩ | ⟨-, t', ht', hlt⟩ | ⟨-, hnone⟩ :=
    tableRemove_cases (M.slot w (M.timers id).regSlot) hne
  · exact hindex heq
  · rw [ht'] at hrem
    dsimp only at hrem
    have hslot' : M'.slot w (M.timers id).regSlot = t' := by
      split_ifs at hrem
      · cases hrem
        exact slot_setSlot_same M w _ _
      · cases hrem
        rw [(renumber_frame _ _ _).1]
        exact slot_setSlot_same M w _ _
    rw [← hslot', hsame] at hlt
    exact lt_irrefl _ hlt
  · rw [hnone] at hrem
    cases hrem

end Registered

/-- Where recorded slots are in their wheels, `Remove` is harmless exactly for the
timers whose position is vacant. -/
theorem Bound.harmlessRemove_iff (h : Bound M) (id : TimerId) :
    M.HarmlessRemove id ↔ M.Vacant id := by
  cases hw : (M.timers id).regWheel with
  | none =>
    refine iff_of_true ⟨M, ?_, rfl, fun _ _ => rfl⟩ fun w hw' => ?_
    · rw [WheelMgr.remove, hw]
    · cases hw.symm.trans hw'
  | some w =>
    have hslot := h id w hw
    constructor
    · intro hharmless w' hw' hne
      cases hw.symm.trans hw'
      by_contra hindex
      exact not_harmlessRemove_of_not_vacant hw hslot hne hindex hharmless
    · intro hvacant
      by_cases hne : (M.timers id).regIndex = 0
      · refine ⟨M, ?_, rfl, fun _ _ => rfl⟩
        rw [WheelMgr.remove, hw]
        exact if_pos (.inr hne)
      · exact harmlessRemove_of_vacant hw hslot (hvacant w hw hne)

/-- **`Remove` of a finished timer is harmless exactly if its position is
vacant.** In every run of `addTimer`, `Remove` of any timers and `onTime`, with
any callbacks, and for every timer in every state. -/
theorem remove_finished_iff (h : Reach WheelMgr.step (fun _ _ => True) new M) (id : TimerId) :
    (M.Finished id → M.HarmlessRemove id) ↔ (M.Finished id → M.Vacant id) := by
  have hbound := h.invariant Bound Bound.new fun M op hM _ => hM.step op
  rw [hbound.harmlessRemove_iff id]

/-- A timer that is called, and nothing comes to its slot. -/
def calledOnce : List Op := [.addTimer 1 .done, .onTime]

theorem harmlessRemove_calledOnce :
    (calledOnce.foldl WheelMgr.step new).Finished 0
      ∧ (calledOnce.foldl WheelMgr.step new).HarmlessRemove 0 := by
  have hrun : Reach WheelMgr.step (fun _ _ => True) new (calledOnce.foldl WheelMgr.step new) :=
    Reach.start.of_list calledOnce ⟨trivial, trivial, trivial⟩
  have hfin : (calledOnce.foldl WheelMgr.step new).Finished 0 := .inl (by decide)
  refine ⟨hfin, (remove_finished_iff hrun 0).mpr (fun _ w hw _ => ?_) hfin⟩
  have htimer : (calledOnce.foldl WheelMgr.step new).timers 0
      = ⟨.done, 1, 0, true, some sec, 1, 1, 0⟩ := by decide
  rw [htimer] at hw ⊢
  cases hw
  decide

/-- A timer is called, and a turn of the second wheel later another one is to be
called from its place. -/
def calledAndReplaced : List Op := calledOnce ++ [.addTimer 60 .done]

/-- Two timers of one slot are called. -/
def calledBoth : List Op := [.addTimer 1 .done, .addTimer 1 .done, .onTime]

/-- `Remove` of the timer that was called takes the other one out of its slot,
and raises an error where the slot is empty. -/
theorem not_harmlessRemove_finished :
    (((calledAndReplaced.foldl WheelMgr.step new).slot sec 1 = [1]
        ∧ ((calledAndReplaced.foldl WheelMgr.step new).step (.remove 0)).slot sec 1 = [])
      ∧ (((calledBoth.foldl WheelMgr.step new).step (.remove 1)).log.getLast?
        = some (.error .position)))
    ∧ ¬∀ M : WheelMgr, Reach WheelMgr.step (fun _ _ => True) new M →
      ∀ id, M.Finished id → M.HarmlessRemove id := by
  have hslot : (calledAndReplaced.foldl WheelMgr.step new).slot sec 1 = [1] := by decide
  have hgone : ((calledAndReplaced.foldl WheelMgr.step new).step (.remove 0)).slot sec 1 = [] := by
    decide
  refine ⟨⟨⟨hslot, hgone⟩, by decide⟩, fun hall => ?_⟩
  have hrun : Reach WheelMgr.step (fun _ _ => True) new
      (calledAndReplaced.foldl WheelMgr.step new) :=
    Reach.start.of_list calledAndReplaced ⟨trivial, trivial, trivial, trivial⟩
  obtain ⟨M', hrem, hsame, -⟩ := hall _ hrun 0 (.inl (by decide))
  have hstep : (calledAndReplaced.foldl WheelMgr.step new).step (.remove 0) = M' := by
    simp only [WheelMgr.step.eq_def _ (.remove 0), hrem]
  rw [hstep, hsame, hslot] at hgone
  cases hgone

end WheelMgr
