import QService.TimeWheel.Firing
import QService.TimeWheel.Finished

/-!
# When a timer moves to a smaller wheel

A timer waits in the slot into which it was put until that slot comes up. Then it is
spread: what is left of its timeout is counted from there, and if that is not nothing it
goes into a slot of a smaller wheel. Callbacks have no part in this. They write
timers of their own, and the one that is called (`Beyond.call`).

So a tick leaves a timer alone, calls it, or moves it, and it moves it just when its slot
comes up (`Inv.onTime_record`). The wheels are reset when a slot comes up, so
how far a timer moves does not depend on the clock any more: after the first time it moves when
all of its timeout has gone but whole months, days, hours and minutes (`timeOutAfter`).
-/

namespace WheelMgr

open WheelId

variable {M : WheelMgr}

/-! ## What a callback leaves alone -/

/-- All timers that were there are as they were, but for one. -/
structure Beyond (x : TimerId) (M₀ M : WheelMgr) : Prop where
  timers : ∀ id, id < M₀.next → id ≠ x → M.timers id = M₀.timers id
  log : M₀.log <+: M.log
  next : M₀.next ≤ M.next
  tick : M.tick = M₀.tick

theorem Beyond.refl (x : TimerId) (M : WheelMgr) : Beyond x M M :=
  ⟨fun _ _ _ => rfl, List.prefix_rfl, le_rfl, rfl⟩

/-- The steps of `addTimer` write new timers. -/
theorem Beyond.closed (x : TimerId) (M₀ : WheelMgr) :
    Closed (fun id => M₀.next ≤ id ∨ id = x) (Beyond x M₀) where
  updTimer := fun {M id f} h hid _ => by
    refine ⟨fun v hv hvx => ?_, h.log, h.next, h.tick⟩
    have hne : v ≠ id := by
      rintro rfl
      exact hid.elim (fun hle => absurd hv (not_lt.mpr hle)) hvx
    exact (M.timers_updTimer_of_ne hne f).trans (h.timers v hv hvx)
  setSlot := fun h => ⟨h.timers, h.log, h.next, h.tick⟩
  emit := fun h => ⟨h.timers, h.log.trans (List.prefix_append _ _), h.next, h.tick⟩
  newTimer := fun {M func t} h => by
    refine ⟨.inl h.next, fun v hv hvx => ?_, h.log.trans (List.prefix_append _ _),
      h.next.trans (Nat.le_succ _), h.tick⟩
    exact (M.timers_newTimer_of_ne (hv.trans_le h.next).ne func t).trans (h.timers v hv hvx)

/-- What has been noted stays noted. -/
theorem closed_mem (e : TimerEvent) : Closed (fun _ => True) fun M => e ∈ M.log where
  updTimer := fun h _ _ => h
  setSlot := fun h => h
  emit := fun h => List.mem_append_left _ h
  newTimer := fun h => ⟨trivial, List.mem_append_left _ h⟩

/-- **A callback that only adds timers** keeps what the steps of `addTimer` keep. -/
theorem Closed.runScript {ok : TimerId → Prop} {I : WheelMgr → Prop} (hI : Closed ok I)
    (s : Script) (hs : s.AddOnly) (h : I M) : (WheelMgr.runScript s M).All I := by
  induction s generalizing M with
  | done => exact h
  | addTimer t func rest ihf ihr =>
    obtain ⟨hok, hnew⟩ : ok M.next ∧ I (M.newTimer func t) := hI.newTimer h
    refine (hI.addWith hnew hok (fun M' h' => ?_) t).bind fun _ h' => ihr hs.2 h'
    exact hI.callWith (hI.called h' hok) fun _ h'' => ihf hs.1 h''
  | remove id rest ih => exact hs.elim
  | cancel id rest ih => exact hs.elim

/-- What `addTimer` calls is the callback that it is given. -/
theorem addTimer_eq (M : WheelMgr) (func : Script) (t : ℤ) :
    M.addTimer func t
      = addWith (callWith (WheelMgr.runScript func) M.next) (M.newTimer func t) M.next t := by
  have hcall : ((M.newTimer func t).updTimer M.next fun x => { x with run := false }).call M.next
      = callWith (WheelMgr.runScript func) M.next
        ((M.newTimer func t).updTimer M.next fun x => { x with run := false }) := by
    have hfunc : (((M.newTimer func t).updTimer M.next fun x =>
        { x with run := false }).timers M.next).func = func := by
      rw [timers_updTimer_self, timers_newTimer_self]
      rfl
    unfold WheelMgr.call
    rw [hfunc]
  unfold addTimer add addWith
  dsimp only
  rw [hcall]

/-- **`addTimer`** keeps what its steps keep. -/
theorem Closed.addTimer {ok : TimerId → Prop} {I : WheelMgr → Prop} (hI : Closed ok I) (h : I M)
    {func : Script} (hfunc : func.AddOnly) (t : ℤ) : (M.addTimer func t).All I := by
  obtain ⟨hok, hnew⟩ : ok M.next ∧ I (M.newTimer func t) := hI.newTimer h
  rw [M.addTimer_eq]
  refine hI.addWith hnew hok (fun M' h' => ?_) t
  exact hI.callWith (hI.called h' hok) fun _ h'' => hI.runScript func hfunc h''

/-- **The call of a timer** writes that timer, and new ones. -/
theorem Beyond.call {M₀ : WheelMgr} {x : TimerId} (h : Beyond x M₀ M)
    (hs : (M.timers x).func.AddOnly) : Beyond x M₀ (M.call x) :=
  (Beyond.closed x M₀).callWith ((Beyond.closed x M₀).called h (.inr rfl)) fun _ h' =>
    (Beyond.closed x M₀).runScript _ hs h'

theorem called_mem_call {x : TimerId} (hs : (M.timers x).func.AddOnly) :
    .called x M.tick ∈ (M.call x).log :=
  (closed_mem (.called x M.tick)).callWith (List.mem_append_right _ List.mem_cons_self)
    fun _ h' => (closed_mem _).runScript _ hs h'

theorem calls_ne_nil {x : TimerId} {T : ℕ} {l : List TimerEvent} (h : .called x T ∈ l) :
    calls x l ≠ [] := by
  refine List.ne_nil_of_mem (a := (T : ℤ)) (List.mem_filterMap.mpr ⟨_, h, ?_⟩)
  simp

theorem calls_mono {x : TimerId} {l l' : List TimerEvent} (h : l <+: l')
    (hc : calls x l ≠ []) : calls x l' ≠ [] := by
  obtain ⟨l₂, rfl⟩ := h
  rw [calls_append]
  exact List.append_ne_nil_of_left_ne_nil hc _

/-! ## What a tick does to one timer -/

/-- A timer without what the callbacks and the others in its slot change of it. -/
def record (x : TvecBase) : TvecBase := { x with run := false, regSlot := 0, regIndex := 0 }

/-- The timer when it has moved, at a tick at which its slot came up. -/
def moved (x : TvecBase) (tick : ℕ) : TvecBase :=
  let r := x.timeOut - x.compTime
  { x with
    timeOut := r
    compTime := if holding r = sec then x.compTime
      else r / (holding r).param * (holding r).param
    regWheel := some (holding r)
    regTick := tick }

theorem record_fields {x y : TvecBase} (h : record x = record y) :
    x.timeOut = y.timeOut ∧ x.compTime = y.compTime ∧ x.regWheel = y.regWheel
      ∧ x.regTick = y.regTick := by
  obtain ⟨-, htime, hcomp, -, hwheel, -, -, htick⟩ := TvecBase.mk.inj h
  exact ⟨htime, hcomp, hwheel, htick⟩

/-- The move of a timer is read off its record. -/
theorem record_moved {x y : TvecBase} (h : record x = record y) (tick : ℕ) :
    record (moved x tick) = record (moved y tick) := by
  obtain ⟨hfunc, htime, hcomp, -, -, -, -, -⟩ := TvecBase.mk.inj h
  unfold moved record
  dsimp only at *
  rw [hfunc, htime, hcomp]

theorem one_le_div_param {t : ℤ} (ht : 1 ≤ t) : 1 ≤ t / (holding t).param := by
  unfold holding range
  split_ifs <;> simp only [count, param] at * <;> omega

/-- **What can have become of a timer `x` in a tick**: it has been called, nothing has
happened to it, or its slot has come up, on another wheel than that of the seconds, and it has
moved. -/
structure Fared (id : TimerId) (x : TvecBase) (tick : ℕ) (log : List TimerEvent) (M : WheelMgr) :
    Prop where
  known : id < M.next
  now : M.tick = tick
  noted : log <+: M.log
  fared : calls id M.log ≠ [] ∨ record (M.timers id) = record x
    ∨ (x.regWheel ≠ some sec ∧ x.regTick + x.compTime = tick ∧ 1 ≤ x.timeOut - x.compTime
      ∧ record (M.timers id) = record (moved x tick))

/-- What a timer has fared is not changed by what leaves it alone. -/
theorem Fared.of_beyond {id x : TimerId} {y : TvecBase} {tick : ℕ} {log : List TimerEvent}
    {M' : WheelMgr} (h : Fared id y tick log M) (hM : Beyond x M M') (hne : id ≠ x) :
    Fared id y tick log M' := by
  refine ⟨h.known.trans_le hM.next, hM.tick.trans h.now, h.noted.trans hM.log, ?_⟩
  rw [hM.timers id h.known hne]
  exact h.fared.imp_left (calls_mono hM.log)

/-- The wheels below a current slot stand at zero. -/
theorem lower_eq_zero {cur : WheelId → ℕ} {w v : WheelId} (h : Cursor (some w) cur)
    (hv : ∀ u ∈ v.below, u ∈ w.below) : lower cur v = 0 := by
  unfold lower
  refine List.sum_eq_zero fun a ha => ?_
  obtain ⟨u, hu, rfl⟩ := List.mem_map.mp ha
  rw [h.1 u (hv u hu), Nat.cast_zero, zero_mul]

theorem below_trans {w v : WheelId} (hv : v ∈ w :: w.below) : ∀ u ∈ v.below, u ∈ w.below := by
  revert v
  cases w <;> decide

/-- What is left of a timeout when a slot comes up is held by its wheel or a smaller one. -/
theorem holding_mem {w : WheelId} {r : ℤ} (hr : r < 2 * w.param) (hw : w ≠ sec) :
    holding r ∈ w :: w.below := by
  have hrange : r ≤ w.range := by
    have hlt := two_mul_param_lt_range w
    omega
  unfold holding
  cases w with
  | sec => exact absurd rfl hw
  | min => split_ifs <;> decide
  | hor => split_ifs <;> decide
  | day => split_ifs <;> decide
  | mon => split_ifs <;> decide

/-- **The `Add` of a timer that is spread** calls it or moves it, and leaves the others alone. -/
theorem spread_cases {w : WheelId} {todo : List TimerId} {x : TimerId} {M' : WheelMgr}
    (hw : w ≠ sec) (hinv : Inv adding (some ⟨w, todo ++ [x], none⟩) none M)
    (hadd : (M.updTimer x fun y => { y with timeOut := y.timeOut - y.compTime }).add x
      ((M.timers x).timeOut - (M.timers x).compTime) = .ok M') :
    Beyond x M M' ∧ (.called x M.tick ∈ M'.log
      ∨ (1 ≤ (M.timers x).timeOut - (M.timers x).compTime
        ∧ record (M'.timers x) = record (moved (M.timers x) M.tick))) := by
  obtain ⟨-, hreg, -⟩ := hinv.last
  have hkey := hreg.key
  rw [if_neg hw] at hkey
  have hearly := hreg.early
  have hlate := hreg.late
  have hcur : Cursor (some w) M.curWheel := hinv.slots.cursor
  have hs : (M.timers x).func.AddOnly := hinv.book.script x
  have hmon : 2 * (w.param : ℤ) ≤ mon.range := by cases w <;> decide
  set M₁ := M.updTimer x fun y => { y with timeOut := y.timeOut - y.compTime } with hM₁
  have htimer : M₁.timers x
      = { M.timers x with timeOut := (M.timers x).timeOut - (M.timers x).compTime } :=
    M.timers_updTimer_self x _
  set r := (M.timers x).timeOut - (M.timers x).compTime with hr
  have hclosed := Beyond.closed x M
  have hsub : Beyond x M M₁ := hclosed.updOther (Beyond.refl x M) (.inr rfl) rfl rfl
  by_cases hz : r = 0
  · -- its tick has come
    rw [hz, add_zero_eq] at hadd
    cases hadd
    have hfunc : ((M₁.updTimer x fun y => { y with run := false }).timers x).func.AddOnly := by
      rw [timers_updTimer_self, htimer]
      exact hs
    have hrun : Beyond x M (M₁.updTimer x fun y => { y with run := false }) :=
      hclosed.updOther hsub (.inr rfl) rfl rfl
    exact ⟨hrun.call hfunc, .inl (called_mem_call hfunc)⟩
  · have hplace :=
      addWith_place (fun M => M.call x) M₁ x (t := r) hcur.le_count (by omega) (by omega)
    have hadd' : M₁.add x r = _ := hplace
    rw [hadd'] at hadd
    cases hadd
    have hcomp := compOf_slotFor_eq M₁ hcur (t := r) (by omega) (by omega)
    have hmem : holding r ∈ w :: w.below := holding_mem (by omega) hw
    have hlower : lower M₁.curWheel (holding r) = 0 := lower_eq_zero hcur (below_trans hmem)
    rw [hlower, sub_zero] at hcomp
    refine ⟨?_, .inr ⟨by omega, ?_⟩⟩
    · unfold place
      exact hclosed.setSlot (hclosed.updTimer hsub (.inr rfl) fun w' hw' => by
        cases hw'
        exact .inr (slotAfter_bound _ _ _))
    · unfold place setSlot updTimer
      dsimp only
      rw [Function.update_self, htimer, hcomp]
      rfl

/-- **A tick leaves a timer alone, calls it or moves it.** -/
theorem Fared.watch (id : TimerId) (y : TvecBase) (tick : ℕ) (log : List TimerEvent) :
    Watch adding (Fared id y tick log) where
  slot := fun h => ⟨h.known, h.now, h.noted, h.fared⟩
  cursor := fun h => ⟨h.known, h.now, h.noted, h.fared⟩
  call := fun {M todo x} hinv h => by
    have hs : (M.timers x).func.AddOnly := hinv.book.script x
    have hbeyond := (Beyond.refl x M).call hs
    by_cases hx : id = x
    · subst hx
      exact ⟨h.known.trans_le hbeyond.next, hbeyond.tick.trans h.now, h.noted.trans hbeyond.log,
        .inl (calls_ne_nil (called_mem_call hs))⟩
    · exact h.of_beyond hbeyond hx
  spread := fun {M w todo x M'} hw hinv hadd h => by
    obtain ⟨hbeyond, hcases⟩ := spread_cases hw hinv hadd
    by_cases hx : id = x
    · subst hx
      obtain ⟨hlt, rfl, hlog, hold⟩ := h
      refine ⟨hlt.trans_le hbeyond.next, hbeyond.tick, hlog.trans hbeyond.log, ?_⟩
      obtain ⟨-, hreg, -⟩ := hinv.last
      have hkey := hreg.key
      rw [if_neg hw] at hkey
      rcases hcases with hcalled | ⟨hpos, hmoved⟩
      · exact .inl (calls_ne_nil hcalled)
      · rcases hold with hcalled | hsame | ⟨-, -, hleft, hsame⟩
        · exact .inl (calls_mono hbeyond.log hcalled)
        · -- its slot has come up now
          obtain ⟨htime, hcomp, hwheel, htick⟩ := record_fields hsame
          refine .inr (.inr ⟨?_, ?_, ?_, hmoved.trans (record_moved hsame M.tick)⟩)
          · rw [← hwheel, hreg.wheel]
            exact fun hc => hw (Option.some.inj hc)
          · rw [← htick, ← hcomp]
            exact hkey
          · rw [← htime, ← hcomp]
            exact hpos
        · -- it has moved already, and its new slot is still to come
          obtain ⟨-, hcomp, hwheel, htick⟩ := record_fields hsame
          have hholding : holding (y.timeOut - y.compTime) = w :=
            Option.some.inj (hwheel.symm.trans hreg.wheel)
          have hdiv : 1 ≤ (y.timeOut - y.compTime) / w.param := by
            rw [← hholding]
            exact one_le_div_param hleft
          have hpos : (1 : ℤ) ≤ w.param := by cases w <;> decide
          have hnew : (M.timers id).compTime = (y.timeOut - y.compTime) / w.param * w.param := by
            rw [hcomp]
            unfold moved
            dsimp only
            rw [hholding, if_neg hw]
          have hzero : (M.timers id).compTime = 0 := by
            rw [htick] at hkey
            have htick' : ((moved y M.tick).regTick : ℤ) = M.tick := rfl
            omega
          nlinarith
    · exact h.of_beyond hbeyond hx

/-! ## Where a timer is after so many ticks -/

/-- What is left of `s` ticks when as many whole months, days, hours and minutes of them have
gone as `j` ticks hold. -/
def rest (s j : ℤ) : ℤ :=
  if s - s % min.param ≤ j then s % min.param
  else if s - s % hor.param ≤ j then s % hor.param
  else if s - s % day.param ≤ j then s % day.param
  else if s - s % mon.param ≤ j then s % mon.param
  else s

/-- What is left in `TimeOut` of a timeout `t` after `k` ticks, where the slot of the timer
came up `first` ticks after it was added. -/
def timeOutAfter (first t k : ℤ) : ℤ := if k < first then t else rest (t - first) (k - first)

theorem rest_eq (s j : ℤ) :
    rest s j = if s - s % 60 ≤ j then s % 60 else if s - s % 3600 ≤ j then s % 3600
      else if s - s % 86400 ≤ j then s % 86400 else if s - s % 2592000 ≤ j then s % 2592000
      else s := by
  unfold rest
  simp only [param]
  norm_num

theorem rest_zero {s : ℤ} (hs : 1 ≤ s) : rest s 0 = s := by
  rw [rest_eq]
  split_ifs <;> omega

/-- The ticks until the slot of a timeout comes up, if the smaller wheels stand at zero. -/
theorem whole_slots_eq (r : ℤ) :
    r / (holding r).param * (holding r).param
      = if r ≤ 60 then r else if r ≤ 3600 then r / 60 * 60 else if r ≤ 86400 then r / 3600 * 3600
        else if r ≤ 2592000 then r / 86400 * 86400 else r / 2592000 * 2592000 := by
  unfold holding
  simp only [range, count, param]
  norm_num
  split_ifs <;> simp

/-- **The whole slots of what is left go next.** -/
theorem rest_succ {s j : ℤ} (hj : 0 ≤ j) (hlt : j + 1 < s) :
    rest s (j + 1)
      = if s - rest s j + rest s j / (holding (rest s j)).param * (holding (rest s j)).param
          = j + 1
        then rest s j - rest s j / (holding (rest s j)).param * (holding (rest s j)).param
        else rest s j := by
  rw [whole_slots_eq, rest_eq s (j + 1), rest_eq s j]
  by_cases h₁ : s - s % 60 ≤ j
  · simp only [h₁, if_true]
    rw [if_pos (show s - s % 60 ≤ j + 1 by omega)]
    split_ifs <;> omega
  · by_cases h₂ : s - s % 3600 ≤ j
    · have hle : s % 3600 ≤ 3600 := by omega
      simp only [h₁, h₂, hle, if_true, if_false]
      rw [if_pos (show s - s % 3600 ≤ j + 1 by omega)]
      split_ifs <;> omega
    · by_cases h₃ : s - s % 86400 ≤ j
      · have hle : s % 86400 ≤ 86400 := by omega
        have hge : 3600 ≤ s % 86400 := by omega
        simp only [h₁, h₂, h₃, if_true, if_false]
        rw [if_pos (show s - s % 86400 ≤ j + 1 by omega)]
        split_ifs <;> omega
      · by_cases h₄ : s - s % 2592000 ≤ j
        · have hle : s % 2592000 ≤ 2592000 := by omega
          have hge : 86400 ≤ s % 2592000 := by omega
          simp only [h₁, h₂, h₃, h₄, if_true, if_false]
          rw [if_pos (show s - s % 2592000 ≤ j + 1 by omega)]
          split_ifs <;> omega
        · have hge : 2592000 ≤ s := by omega
          simp only [h₁, h₂, h₃, h₄, if_false]
          split_ifs <;> omega

/-! ## Following one timer -/

/-- **Where a timer is** `k` ticks after it was added with the timeout `t`: in its first slot,
or in the slot of what is left of the timeout. -/
structure At (first t k : ℤ) (x : TvecBase) (w : WheelId) : Prop where
  wheel : x.regWheel = some w
  timeOut : x.timeOut = timeOutAfter first t k
  before : k < first → w = holding t ∧ (w ≠ sec → x.compTime = first)
  after : first ≤ k → w = holding x.timeOut
    ∧ (w ≠ sec → x.compTime = x.timeOut / w.param * w.param)

/-- **A timer that was added at `T` is where it should be**, until it is called. -/
structure Track (id : TimerId) (T : ℕ) (first t : ℤ) (M : WheelMgr) : Prop where
  added : .added id T t ∈ M.log
  start : T ≤ M.tick
  place : calls id M.log = [] → ∃ w, At first t (M.tick - T) (M.timers id) w

section Track

variable {id : TimerId} {T : ℕ} {first t : ℤ}

/-- Where it is, is read off its record. -/
theorem At.of_record {k : ℤ} {x y : TvecBase} {w : WheelId} (h : At first t k x w)
    (hxy : record y = record x) : At first t k y w := by
  obtain ⟨htime, hcomp, hwheel, -⟩ := record_fields hxy
  refine ⟨hwheel.trans h.wheel, htime.trans h.timeOut, fun hk => ?_, fun hk => ?_⟩
  · rw [hcomp]
    exact h.before hk
  · rw [hcomp, htime]
    exact h.after hk

/-- **The step lemma**: what a tick makes of the place of a timer that is still to come. Its
slot comes up at `RegTick + CompTime`, on the wheel of the seconds at `RegTick + TimeOut`. -/
theorem At.succ (tick : ℕ) {k : ℤ} {x y : TvecBase} {w : WheelId} (h : At first t k x w)
    (hlt : k + 1 < t) (hfirst : holding t = sec → first = t)
    (hdue : x.regTick + x.timeOut = T + t) (htick : (tick : ℤ) = T + k + 1)
    (hy : (record y = record x ∧ (w ≠ sec → tick < x.regTick + x.compTime))
      ∨ (w ≠ sec ∧ x.regTick + x.compTime = tick ∧ 1 ≤ x.timeOut - x.compTime
        ∧ record y = record (moved x tick))) :
    ∃ w', At first t (k + 1) y w' := by
  obtain ⟨hwheel, htime, hbefore, hafter⟩ := h
  unfold timeOutAfter at htime
  by_cases hkf : k < first
  · obtain ⟨rfl, hcomp⟩ := hbefore hkf
    rw [if_pos hkf] at htime
    rcases hy with ⟨hsame, hlater⟩ | ⟨hw, hnow, hleft, hmoved⟩
    · have hstill : k + 1 < first := by
        by_cases hw : holding t = sec
        · have hft := hfirst hw
          omega
        · have hc := hcomp hw
          have hl := hlater hw
          omega
      refine ⟨holding t, At.of_record ⟨hwheel, ?_, fun _ => ⟨rfl, hcomp⟩, fun hc => ?_⟩ hsame⟩
      · rw [timeOutAfter, if_pos hstill]
        exact htime
      · exact absurd hstill (not_lt.mpr hc)
    · have hc := hcomp hw
      have hup : k + 1 = first := by omega
      refine ⟨_, At.of_record ⟨rfl, ?_, fun hc => ?_, fun _ => ⟨rfl, fun hw' => if_neg hw'⟩⟩ hmoved⟩
      · rw [timeOutAfter, if_neg (by omega), hup, sub_self, rest_zero (by omega), ← htime, ← hc]
        rfl
      · exact absurd hup hc.ne
  · have hge : first ≤ k := not_lt.mp hkf
    obtain ⟨rfl, hcomp⟩ := hafter hge
    rw [if_neg hkf] at htime
    have hsucc := rest_succ (s := t - first) (j := k - first) (by omega) (by omega)
    rw [← htime] at hsucc
    have hnext : timeOutAfter first t (k + 1) = rest (t - first) (k - first + 1) := by
      rw [timeOutAfter, if_neg (by omega), show k + 1 - first = k - first + 1 by ring]
    rcases hy with ⟨hsame, hlater⟩ | ⟨hw, hnow, hleft, hmoved⟩
    · refine ⟨holding x.timeOut,
        At.of_record ⟨hwheel, ?_, fun hc => ?_, fun _ => ⟨rfl, hcomp⟩⟩ hsame⟩
      · rw [hnext, hsucc, if_neg]
        by_cases hw : holding x.timeOut = sec
        · rw [hw]
          simp only [param, Nat.cast_one, Int.ediv_one, mul_one]
          omega
        · have hc := hcomp hw
          have hl := hlater hw
          omega
      · omega
    · have hc := hcomp hw
      refine ⟨_, At.of_record ⟨rfl, ?_, fun hc => ?_, fun _ => ⟨rfl, fun hw' => if_neg hw'⟩⟩ hmoved⟩
      · rw [hnext, hsucc, if_pos (by omega), ← hc]
        rfl
      · omega

/-- A timer that has not been called waits, and is due when it was to be called. -/
theorem Inv.waits (h : Inv adding none none M) (hadd : .added id T t ∈ M.log) (ht : 1 ≤ t)
    (ht' : t ≤ mon.range) (hcalls : calls id M.log = []) :
    Pending none M id ∧ M.due id = T + t := by
  have hfire : fire T t = T + t := if_neg (by omega)
  rcases h.book.fate id T t hadd ht' with ⟨-, -, hw | hw⟩ | ⟨hc, -⟩ | ⟨-, k, -⟩
  · exact ⟨hw.1, hw.2.trans hfire⟩
  · cases hw
  · rw [hcalls] at hc
    cases hc
  · exact absurd k (h.book.kept rfl id)

/-- The slot of a timer that waits on another wheel than that of the seconds is still to come. -/
theorem Inv.tick_lt_arrival (h : Inv adding none none M) (hp : Pending none M id) {w : WheelId}
    (hwheel : (M.timers id).regWheel = some w) (hw : w ≠ sec) :
    (M.tick : ℤ) < (M.timers id).regTick + (M.timers id).compTime := by
  obtain ⟨w', i, hid⟩ := hp
  have hreg : Registered (M.timers id) w' i (M.tick + compOf M.curWheel w' i) :=
    h.slots.reg w' i id hid
  obtain rfl : w = w' := Option.some.inj (hwheel.symm.trans hreg.wheel)
  have hkey := hreg.key
  rw [if_neg hw] at hkey
  have hpos := compOf_pos h.slots.cursor w (h.slots.bound w i id hid).1
  omega

/-- **A tick keeps a timer where it should be.** -/
theorem Track.onTime (h : Track id T first t M) (hinv : Inv adding none none M)
    {M' : WheelMgr} (hinv' : Inv adding none none M') (ht : 1 ≤ t) (ht' : t ≤ mon.range)
    (hfirst : holding t = sec → first = t)
    (hfared : Fared id (M.timers id) (M.tick + 1) M.log M') : Track id T first t M' := by
  have hadd' := hfared.noted.subset h.added
  refine ⟨hadd', by rw [hfared.now]; exact h.start.trans (Nat.le_succ _), fun hcalls' => ?_⟩
  have hcalls : calls id M.log = [] := by
    by_contra hc
    exact calls_mono hfared.noted hc hcalls'
  obtain ⟨w, hat⟩ := h.place hcalls
  obtain ⟨-, hdue⟩ := hinv.waits h.added ht ht' hcalls
  obtain ⟨hpend', hdue'⟩ := hinv'.waits hadd' ht ht' hcalls'
  have hlt := hinv'.tick_lt_due hpend'
  have hnow : (M'.tick : ℤ) = M.tick + 1 := by
    rw [hfared.now]
    exact Nat.cast_succ _
  rw [hdue', hnow] at hlt
  have hsucc : (M'.tick : ℤ) - T = M.tick - T + 1 := by rw [hnow]; ring
  rw [hsucc]
  refine hat.succ (M.tick + 1) (by omega) hfirst hdue (by push_cast; ring) ?_
  rcases hfared.fared with hc | hsame | ⟨hw, hup, hleft, hmoved⟩
  · exact absurd hcalls' hc
  · obtain ⟨-, hcomp, hwheel, hreg⟩ := record_fields hsame
    refine .inl ⟨hsame, fun hw => ?_⟩
    have harr := hinv'.tick_lt_arrival hpend' (hwheel.trans hat.wheel) hw
    rw [hfared.now, hreg, hcomp] at harr
    exact harr
  · exact .inr ⟨fun hc => hw (hc ▸ hat.wheel), hup, hleft, hmoved⟩

/-- What leaves a timer alone leaves it where it should be. -/
theorem Track.of_beyond (h : Track id T first t M) (hinv : Inv adding none none M) {x : TimerId}
    {M' : WheelMgr} (hM : Beyond x M M') (hne : id ≠ x) : Track id T first t M' := by
  have hknown : id < M.next := hinv.added_lt h.added
  refine ⟨hM.log.subset h.added, hM.tick.symm ▸ h.start, fun hcalls' => ?_⟩
  rw [hM.timers id hknown hne, hM.tick]
  refine h.place ?_
  by_contra hc
  exact calls_mono hM.log hc hcalls'

/-- The ticks until the slot comes up into which `Add` puts a timer. -/
def firstMove (M : WheelMgr) (t : ℤ) : ℤ := compOf M.curWheel (holding t) (M.slotFor t)

theorem firstMove_sec (h : Inv adding none none M) (ht : 1 ≤ t) (ht' : t ≤ mon.range)
    (hsec : holding t = sec) : M.firstMove t = t := by
  unfold firstMove
  rw [hsec]
  exact (M.compOf_slotFor h.slots.cursor ht ht').2.1 hsec

theorem one_le_firstMove (h : Inv adding none none M) (ht : 1 ≤ t) (ht' : t ≤ mon.range) :
    1 ≤ M.firstMove t := by
  obtain ⟨hn, hn'⟩ := div_param_bounds ht ht'
  exact compOf_pos h.slots.cursor _
    (M.slotAfter_spec (holding t) (h.slots.cursor.le_count _) hn hn').1.1

/-- **`addTimer` puts a timer where it should be.** -/
theorem Track.addTimer (h : Inv adding none none M) (func : Script) (ht : 1 ≤ t)
    (ht' : t ≤ mon.range) :
    ∃ M', M.addTimer func t = .ok M' ∧ Track M.next M.tick (M.firstMove t) t M' := by
  have hcur : ∀ w, (M.newTimer func t).curWheel w ≤ w.count := h.slots.cursor.le_count
  refine ⟨_, addWith_place _ _ _ hcur ht ht', List.mem_append_right _ List.mem_cons_self,
    le_rfl, fun _ => ⟨holding t, ?_⟩⟩
  have htimer : ((M.newTimer func t).place M.next (holding t)
      ((M.newTimer func t).slotFor t)).timers M.next
        = { TvecBase.new func t with
            compTime := if holding t = sec then 0 else M.firstMove t
            regWheel := some (holding t)
            regSlot := (M.newTimer func t).slotFor t
            regIndex := (M.slot (holding t) ((M.newTimer func t).slotFor t)).length + 1
            regTick := M.tick } := by
    unfold WheelMgr.place setSlot updTimer WheelMgr.newTimer
    dsimp only
    rw [Function.update_self, Function.update_self]
    rfl
  have hk : ((((M.newTimer func t).place M.next (holding t)
      ((M.newTimer func t).slotFor t)).tick : ℕ) : ℤ) - M.tick = 0 := sub_self _
  have hpos := one_le_firstMove h ht ht'
  rw [htimer, hk]
  refine ⟨rfl, ?_, fun _ => ⟨rfl, fun hw => if_neg hw⟩, fun hc => ?_⟩
  · show t = timeOutAfter (M.firstMove t) t 0
    rw [timeOutAfter, if_pos (by omega)]
  · omega

end Track

end WheelMgr
