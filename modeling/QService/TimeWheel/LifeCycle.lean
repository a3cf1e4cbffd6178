import QService.TimeWheel.Moves
import QService.TimeWheel.Reschedule

/-!
# The life that a component reports

A `CompLifeCycle` has a life and a timer. `getInfo` takes the ticks since the timer's
`RegTick` off the life. But the wheel sets `RegTick` anew whenever it moves the timer, and
takes what has gone off the timer's `TimeOut`, of which the component knows nothing. And
`Register` with a life of its own does not set `Life`. So the life that is reported is right
exactly while `Life` is what the wheel has in `TimeOut` (`getInfo_iff`): from the
registration until the slot of the timer comes up, if `Life` is the registered life.
-/

/-- `CompLifeCycle`. -/
structure CompLifeCycle where
  life : ℤ
  tvBase : Option TimerId

namespace CompLifeCycle

/-- `CompLifeCycle:new`. -/
def new : CompLifeCycle := ⟨0, none⟩

/-- `CompLifeCycle:getInfo`, and of that `uiLife`. -/
def getInfo (c : CompLifeCycle) (M : WheelMgr) : ℤ :=
  match c.tvBase with
  | none => c.life
  | some id => c.life - ((M.tick : ℤ) - (M.timers id).regTick)

/-- `CompLifeCycle:setInfo`. -/
def setInfo (c : CompLifeCycle) (uiLife : ℤ) : CompLifeCycle := { c with life := uiLife }

/-- `CompLifeCycle:Register`. The timer is not kept if `addTimer` raises an error. -/
def register (c : CompLifeCycle) (M : WheelMgr) (uiLife : Option ℤ) (func : Script) :
    Outcome WheelMgr × CompLifeCycle :=
  match M.addTimer func (uiLife.getD c.life) with
  | .ok M' => (.ok M', { c with tvBase := some M.next })
  | .error e M' => (.error e M', c)

end CompLifeCycle

namespace WheelMgr

open WheelId

variable {G M : WheelMgr} {D : TimerId → Prop} {id : TimerId} {T : ℕ} {first t : ℤ}

/-! ## Following a timer through a run -/

/-- **A timer that was added at `T` with the timeout `t` is on record**, and a ghost follows the
wheel, in which the timer is where it should be as long as it is not gone. -/
def Tracked (id : TimerId) (T : ℕ) (first t : ℤ) (M : WheelMgr) : Prop :=
  .added id T t ∈ M.log ∧ ∃ D Z G, Follows D Z G M ∧ (¬ D id → Track id T first t G)

theorem Tracked.error (h : Tracked id T first t M) (e : LuaError) :
    Tracked id T first t (M.emit (.error e)) := by
  obtain ⟨hadd, D, Z, G, hfollows, htrack⟩ := h
  exact ⟨List.mem_append_left _ hadd, D, Z, G, hfollows.error e, htrack⟩

/-- The timer stays on record while no timer is taken out of its slot. -/
theorem Tracked.of_follows {Z : TimerId → TvecBase × List TimerEvent} {G' M' : WheelMgr}
    (h : Follows D Z G M) (hadd : .added id T t ∈ M.log) (h' : Follows D Z G' M')
    (htrack : ¬ D id → Track id T first t G') : Tracked id T first t M' := by
  refine ⟨?_, D, Z, G', h', htrack⟩
  by_cases hid : D id
  · have hview : M'.view id = M.view id := (h'.blind.gone id hid).trans (h.blind.gone id hid).symm
    have hlog : M'.log.filter (about id) = M.log.filter (about id) := congrArg Prod.snd hview
    rw [← added_filter, hlog, added_filter]
    exact hadd
  · rw [← added_filter, h'.blind.events id hid, added_filter]
    exact (htrack hid).added

/-- A timer that is added has no part in where the others are. -/
theorem Track.of_addTimer (h : Track id T first t G) (hinv : Inv adding none none G) {func : Script}
    (hfunc : func.AddOnly) {t' : ℤ} {G' : WheelMgr}
    (hG' : G.addTimer func t' = .ok G' ∨ G.addTimer func t' = .error .timeOut G') :
    Track id T first t G' := by
  have hend : (G.addTimer func t').All (Beyond G.next G) :=
    (Beyond.closed G.next G).addTimer (Beyond.refl _ G) hfunc t'
  have hne : id ≠ G.next := (hinv.added_lt h.added).ne
  refine h.of_beyond hinv ?_ hne
  rcases hG' with hG' | hG'
  · rw [hG'] at hend
    exact hend
  · rw [hG'] at hend
    exact hend

/-- Neither has one that is removed. -/
theorem Track.of_untouched {D' : TimerId → Prop} (h : Track id T first t G) (hid : ¬ D' id)
    {G' : WheelMgr} (hG' : Untouched D' G G') : Track id T first t G' := by
  obtain ⟨htick, hothers⟩ := hG'
  obtain ⟨⟨n, hn⟩, hlog⟩ := hothers id hid
  have hcalls : calls id G'.log = calls id G.log := by
    rw [← calls_filter id G'.log, hlog, calls_filter]
  refine ⟨?_, htick.symm ▸ h.start, fun hnone => ?_⟩
  · rw [← added_filter, hlog, added_filter]
    exact h.added
  · obtain ⟨w, hat⟩ := h.place (hcalls.symm.trans hnone)
    rw [hn, htick]
    exact ⟨w, hat.of_record rfl⟩

/-- **The step lemma of a run**: the timer is still where it should be, if it is not gone. -/
theorem Tracked.step (h : Tracked id T first t M) {op : Op} (hop : M.RunOps op) (ht : 1 ≤ t)
    (ht' : t ≤ mon.range) (hfirst : holding t = sec → first = t) :
    Tracked id T first t (M.step op) := by
  have hJ : ∀ e M, Tracked id T first t M → Tracked id T first t (M.emit (.error e)) :=
    fun e _ hM => hM.error e
  obtain ⟨hadd, D, Z, G, hfollows, htrack⟩ := h
  cases op with
  | addTimer t' func =>
    obtain ⟨G', hG', hend⟩ := hfollows.addTimer hop t'
    refine of_end hJ _ (hend.mono fun M' h' => Tracked.of_follows hfollows hadd h' fun hid => ?_)
    exact (htrack hid).of_addTimer hfollows.inv hop hG'
  | remove v =>
    refine of_end hJ _ (((M.remove_events v).and (hfollows.remove v)).mono ?_)
    rintro M' ⟨hevents, D', Z', G', h', hsub, hsame⟩
    refine ⟨?_, D', Z', G', h', fun hid => ?_⟩
    · rw [← added_filter, hevents, added_filter]
      exact hadd
    · exact (htrack fun hD => hid (hsub id hD)).of_untouched hid hsame
  | onTime =>
    by_cases hid : D id
    · obtain ⟨G', -, -, hend⟩ := hfollows.onTime (Watch.none adding) trivial
      exact of_end hJ _ (hend.mono fun M' h' => Tracked.of_follows hfollows hadd h' fun hc =>
        absurd hid hc)
    · have hold := htrack hid
      have hknown : id < G.next := hfollows.inv.added_lt hold.added
      obtain ⟨G', -, hfared, hend⟩ := hfollows.onTime
        (Fared.watch id (G.timers id) (G.tick + 1) G.log)
        ⟨hknown, rfl, List.prefix_rfl, .inr (.inl rfl)⟩
      exact of_end hJ _ (hend.mono fun M' h' => Tracked.of_follows hfollows hadd h' fun _ =>
        hold.onTime hfollows.inv h'.inv ht ht' hfirst hfared)

/-- **Where a timer is when it waits.** -/
theorem Tracked.timeOut (h : Tracked id T first t M) (ht : 1 ≤ t) (ht' : t ≤ mon.range)
    (hp : Pending none M id) : (M.timers id).timeOut = timeOutAfter first t (M.tick - T) := by
  obtain ⟨-, D, Z, G, hfollows, htrack⟩ := h
  obtain ⟨w, i, hmem⟩ := hp
  have hmemG : id ∈ G.slot w i := by
    rw [← hfollows.blind.slot]
    exact hmem
  have hid := hfollows.blind.live w i id hmemG
  have hold := htrack hid
  have hcalls : calls id G.log = [] :=
    (hfollows.inv.kept ⟨w, i, hmemG⟩ T t hold.added ht ht').1
  obtain ⟨_, hat⟩ := hold.place hcalls
  rw [(bare_fields (hfollows.blind.timer id hid)).2.1, hfollows.blind.tick]
  exact hat.timeOut

/-! ## The component -/

/-- Where the clock stands is the same for the ghost. -/
theorem Blind.firstMove_eq {Z : TimerId → TvecBase × List TimerEvent} (h : Blind D Z G M) (t : ℤ) :
    M.firstMove t = G.firstMove t := by
  unfold firstMove slotFor
  rw [h.slotAfter_eq, h.curWheel]

/-- **A timer is added, and is where it should be.** -/
theorem Ghosted.tracked (h : Ghosted M) {func : Script} (hfunc : func.AddOnly) (ht : 1 ≤ t)
    (ht' : t ≤ mon.range) :
    1 ≤ M.firstMove t ∧ (holding t = sec → M.firstMove t = t)
      ∧ (M.addTimer func t).All (Tracked M.next M.tick (M.firstMove t) t) := by
  obtain ⟨D, Z, G, hfollows⟩ := h
  obtain ⟨G', hG', hend⟩ := hfollows.addTimer hfunc t
  obtain ⟨G₁, hG₁, htrack⟩ := Track.addTimer hfollows.inv func ht ht'
  have hsame : G₁ = G' := by
    rcases hG' with hG' | hG'
    · exact Outcome.ok.inj (hG₁.symm.trans hG')
    · cases hG₁.symm.trans hG'
  subst hsame
  rw [hfollows.blind.firstMove_eq, hfollows.blind.next, hfollows.blind.tick]
  refine ⟨one_le_firstMove hfollows.inv ht ht', firstMove_sec hfollows.inv ht ht',
    hend.mono fun M' h' => ?_⟩
  have hfresh : ¬ D G.next := hfollows.blind.fresh _ le_rfl
  refine ⟨?_, D, Z, G₁, h', fun _ => htrack⟩
  rw [← added_filter, h'.blind.events _ hfresh, added_filter]
  exact htrack.added

/-- After the slot of a timer has come up, less is left of its timeout. -/
theorem timeOutAfter_eq_iff {k : ℤ} (hfirst : 1 ≤ first) (hlt : k < t) :
    timeOutAfter first t k = t ↔ k < first := by
  unfold timeOutAfter
  split
  · exact iff_of_true rfl ‹_›
  · refine iff_of_false ?_ ‹_›
    rw [rest_eq]
    split_ifs <;> omega

/-- **What a component reports is right exactly while its life is what the wheel has left in
`TimeOut`.** For every component, registered by `Register` with a life of its own or with that
in `Life`, in every run of `addTimer`, `Remove` and `onTime` before and after that, and every
number `k` of ticks less than the life. As long as the timer waits, what is left in `TimeOut` is
the whole life until its slot comes up, and then what is left of it after the last whole month,
day, hour or minute. So a component with the registered life in `Life` is right exactly until the
slot comes up. -/
theorem getInfo_iff {M₁ M₂ : WheelMgr} {c c' : CompLifeCycle} {uiLife : Option ℤ} {func : Script}
    (h : Reach WheelMgr.step RunOps new M) (hfunc : func.AddOnly)
    (hlife : 1 ≤ uiLife.getD c.life) (hlife' : uiLife.getD c.life ≤ 12 * 30 * 86400)
    (hreg : c.register M uiLife func = (.ok M₁, c')) (h₁ : Reach WheelMgr.step RunOps M₁ M₂)
    (hk : (M₂.tick : ℤ) - M.tick < uiLife.getD c.life) :
    (c'.getInfo M₂ = uiLife.getD c.life - (M₂.tick - M.tick)
        ↔ c.life = (M₂.timers M.next).timeOut)
      ∧ (Pending none M₂ M.next →
        (M₂.timers M.next).timeOut
            = timeOutAfter (M.firstMove (uiLife.getD c.life)) (uiLife.getD c.life)
              (M₂.tick - M.tick)
          ∧ (c.life = uiLife.getD c.life →
            (c'.getInfo M₂ = uiLife.getD c.life - (M₂.tick - M.tick)
              ↔ (M₂.tick : ℤ) - M.tick < M.firstMove (uiLife.getD c.life)))) := by
  set t := uiLife.getD c.life with ht
  have hghost : Ghosted M := h.invariant Ghosted Ghosted.new fun M op hM hop => hM.step hop
  obtain ⟨hpos, hfirst, hend⟩ := hghost.tracked hfunc hlife hlife'
  unfold CompLifeCycle.register at hreg
  rw [← ht] at hreg
  cases hadd : M.addTimer func t with
  | error e M' =>
    rw [hadd] at hreg
    cases (Prod.mk.inj hreg).1
  | ok M' =>
    rw [hadd] at hreg hend
    obtain ⟨hM', rfl⟩ := Prod.mk.inj hreg
    cases hM'
    have htracked : Tracked M.next M.tick (M.firstMove t) t M₂ :=
      h₁.invariant (Tracked M.next M.tick (M.firstMove t) t) hend fun M op hM hop =>
        hM.step hop hlife hlife' hfirst
    obtain ⟨hmem, D, Z, G, hfollows, htrack⟩ := htracked
    have hstart := hfollows.blind.past _ _ _ hmem
    have hdue : M₂.due M.next = M.tick + t := by
      rcases due_of_ghosted ⟨D, Z, G, hfollows⟩ hmem hlife hlife' with hd | hd
      · exact hd.2
      · have hle := hd.2
        omega
    have hiff : c.life - ((M₂.tick : ℤ) - (M₂.timers M.next).regTick) = t - (M₂.tick - M.tick)
        ↔ c.life = (M₂.timers M.next).timeOut := by
      unfold due at hdue
      omega
    refine ⟨hiff, fun hp => ?_⟩
    have htime := Tracked.timeOut ⟨hmem, D, Z, G, hfollows, htrack⟩ hlife hlife' hp
    refine ⟨htime, fun hsame => hiff.trans ?_⟩
    rw [hsame, htime, eq_comm]
    exact timeOutAfter_eq_iff hpos hk

/-- A component with a life of 61 ticks, and its wheel after so many. -/
def minuteAndOne : CompLifeCycle := CompLifeCycle.new.setInfo 61

def afterTicks : ℕ → WheelMgr
  | 0 => new.step (.addTimer 61 .done)
  | n + 1 => (afterTicks n).step .onTime

theorem reach_afterTicks (n : ℕ) : Reach WheelMgr.step RunOps (afterTicks 0) (afterTicks n) := by
  induction n with
  | zero => exact .start
  | succ n ih => exact ih.step trivial

theorem register_minuteAndOne :
    minuteAndOne.register new none .done
      = (.ok (afterTicks 0), { minuteAndOne with tvBase := some 0 }) := rfl

theorem getInfo_iff_minuteAndOne :
    CompLifeCycle.getInfo { minuteAndOne with tvBase := some 0 } (afterTicks 59) = 2 := by
  have hstart : Reach WheelMgr.step RunOps new new := Reach.start
  have hfunc : Script.AddOnly .done := trivial
  have hlife : 1 ≤ (none : Option ℤ).getD minuteAndOne.life := by decide
  have hlife' : (none : Option ℤ).getD minuteAndOne.life ≤ 12 * 30 * 86400 := by decide
  have hk : ((afterTicks 59).tick : ℤ) - new.tick < (none : Option ℤ).getD minuteAndOne.life := by
    decide +kernel
  have hp : Pending none (afterTicks 59) new.next := ⟨min, 1, by decide +kernel⟩
  have hright := ((getInfo_iff hstart hfunc hlife hlife' register_minuteAndOne
    (reach_afterTicks 59) hk).2 hp).2 rfl
  have hnow : CompLifeCycle.getInfo { minuteAndOne with tvBase := some 0 } (afterTicks 59)
      = (none : Option ℤ).getD minuteAndOne.life - (((afterTicks 59).tick : ℤ) - new.tick) :=
    hright.mpr (by decide +kernel)
  exact hnow.trans (by decide +kernel)

/-- When the timer moves, `RegTick` is the tick of the move, and the life starts again. A
component that is registered with a life of its own reports what it has in `Life`. -/
theorem not_getInfo :
    (CompLifeCycle.getInfo { minuteAndOne with tvBase := some 0 } (afterTicks 60) = 61
      ∧ ∃ M₁, CompLifeCycle.new.register new (some 5) .done
          = (.ok M₁, { CompLifeCycle.new with tvBase := some 0 })
        ∧ CompLifeCycle.getInfo { CompLifeCycle.new with tvBase := some 0 } M₁ = 0)
    ∧ ¬∀ (c c' : CompLifeCycle) (uiLife : Option ℤ) (func : Script) (M M₁ M₂ : WheelMgr),
      Reach WheelMgr.step RunOps new M → func.AddOnly → 1 ≤ uiLife.getD c.life →
      uiLife.getD c.life ≤ 12 * 30 * 86400 → c.register M uiLife func = (.ok M₁, c') →
      Reach WheelMgr.step RunOps M₁ M₂ → (M₂.tick : ℤ) - M.tick < uiLife.getD c.life →
      c'.getInfo M₂ = uiLife.getD c.life - (M₂.tick - M.tick) := by
  have hagain : CompLifeCycle.getInfo { minuteAndOne with tvBase := some 0 } (afterTicks 60)
      = 61 := by decide +kernel
  refine ⟨⟨hagain, _, rfl, by decide +kernel⟩, fun hall => ?_⟩
  have hone := hall _ _ none .done new _ _ Reach.start trivial (by decide) (by decide)
    register_minuteAndOne (reach_afterTicks 60) (by decide +kernel)
  rw [hagain] at hone
  exact absurd hone (by decide +kernel)

end WheelMgr
