import Mathlib.Tactic

/-!
# The timer wheel

`WheelMgr` keeps the timers of the Lua side in five wheels: seconds, minutes,
hours, days and months. A wheel has slots and a cursor; a timer goes into the
slot its timeout reaches on the smallest wheel that can hold it, and records
where it is so that it can be removed. `onTime` advances the second wheel,
calls the timers of its slot and, whenever a wheel has gone round, advances
the next one and spreads the timers of its slot over the smaller wheels.

The Lua tables are lists here, with Lua's indices: a position starts at 1, and
`table.remove` raises an error outside the table. Timers are objects that the
slots share, so they are numbered and kept in one map. A piece of code may end
in a Lua error; what it did before that stays done (`Outcome`). The callback
of a timer runs under `xpcall`, so an error in it ends the callback only.

A callback is given by the calls of the wheel that it makes. It may register
timers with callbacks of their own, which run at once when the timeout is not
positive. A callback that decides what to call from the state of the wheel
makes, in each run, the calls of one such script.
-/

/-- The wheels of a `WheelMgr`. -/
inductive WheelId
  | sec
  | min
  | hor
  | day
  | mon
  deriving DecidableEq, Repr

namespace WheelId

/-- `Wheel:getCount`. -/
def count : WheelId → ℕ
  | sec => 60
  | min => 60
  | hor => 24
  | day => 30
  | mon => 12

/-- `Wheel:getParam`. -/
def param : WheelId → ℕ
  | sec => 1
  | min => 60
  | hor => 60 * 60
  | day => 60 * 60 * 24
  | mon => 60 * 60 * 24 * 30

/-- `Wheel:getRange`. -/
def range (w : WheelId) : ℕ := w.count * w.param

end WheelId

/-- A timer object. -/
abbrev TimerId := ℕ

/-- The calls of the wheel that a callback makes. `cancel` is a `Remove` of a
timer for which `getRun` is false. -/
inductive Script
  | done
  | addTimer (iTimeOut : ℤ) (func : Script) (rest : Script)
  | remove (id : TimerId) (rest : Script)
  | cancel (id : TimerId) (rest : Script)
  deriving DecidableEq, Repr

/-- `TvecBase`. -/
structure TvecBase where
  func : Script
  timeOut : ℤ
  compTime : ℤ
  run : Bool
  regWheel : Option WheelId
  regSlot : ℕ
  regIndex : ℕ
  regTick : ℕ
  deriving DecidableEq, Repr

/-- `TvecBase:new`. -/
def TvecBase.new (func : Script) (iTimeOut : ℤ) : TvecBase :=
  ⟨func, iTimeOut, 0, false, none, 0, 0, 0⟩

/-- The Lua errors that the wheel can raise. -/
inductive LuaError
  /-- The assertion of `Add` on the timeout. -/
  | timeOut
  /-- An assertion of `Wheel` on the index of a slot, or there is no such slot. -/
  | index
  /-- `table.remove` outside the table. -/
  | position
  /-- A field of a timer that is not there. -/
  | nilValue
  deriving DecidableEq, Repr

/-- What has happened to the timers. -/
inductive TimerEvent
  /-- `addTimer` at a tick with a timeout. -/
  | added (id : TimerId) (tick : ℕ) (iTimeOut : ℤ)
  /-- The callback was called at a tick. -/
  | called (id : TimerId) (tick : ℕ)
  /-- `Remove` took the timer out of its slot. -/
  | removed (id : TimerId)
  /-- A Lua error was raised. -/
  | error (e : LuaError)
  deriving DecidableEq, Repr

/-- How a piece of Lua code ends, with the state it leaves. -/
inductive Outcome (σ : Type*)
  | ok (s : σ)
  | error (e : LuaError) (s : σ)

namespace Outcome

variable {σ : Type*}

/-- Go on after a normal end. -/
def bind (o : Outcome σ) (f : σ → Outcome σ) : Outcome σ :=
  match o with
  | ok s => f s
  | error e s => error e s

@[simp] theorem ok_bind (s : σ) (f : σ → Outcome σ) : (ok s).bind f = f s := rfl

end Outcome

/-- `table.remove(t, pos)`: the table after it, or `none` for the error
"position out of bounds". -/
def tableRemove {α : Type*} (t : List α) (pos : ℕ) : Option (List α) :=
  if pos = t.length ∨ (1 ≤ pos ∧ pos ≤ t.length + 1) then some (t.eraseIdx (pos - 1)) else none

/-- A `WheelMgr` with the timers there are. -/
structure WheelMgr where
  /-- `Slot`, from 1 to `Count`. -/
  slot : WheelId → ℕ → List TimerId
  /-- `CurWheel`. -/
  curWheel : WheelId → ℕ
  /-- `Tick`. -/
  tick : ℕ
  timers : TimerId → TvecBase
  /-- The number of timers so far. -/
  next : TimerId
  log : List TimerEvent

namespace WheelMgr

/-- `WheelMgr:new`. -/
def new : WheelMgr :=
  ⟨fun _ _ => [], fun _ => 0, 0, fun _ => .new .done 0, 0, []⟩

/-- Change a timer. -/
def updTimer (M : WheelMgr) (id : TimerId) (f : TvecBase → TvecBase) : WheelMgr :=
  { M with timers := Function.update M.timers id (f (M.timers id)) }

@[simp] theorem timers_updTimer_self (M : WheelMgr) (id : TimerId) (f : TvecBase → TvecBase) :
    (M.updTimer id f).timers id = f (M.timers id) := Function.update_self _ _ _

theorem timers_updTimer_of_ne (M : WheelMgr) {v id : TimerId} (h : v ≠ id)
    (f : TvecBase → TvecBase) : (M.updTimer id f).timers v = M.timers v :=
  Function.update_of_ne h _ _

/-- Change a slot. -/
def setSlot (M : WheelMgr) (w : WheelId) (iIndex : ℕ) (l : List TimerId) : WheelMgr :=
  { M with slot := Function.update M.slot w (Function.update (M.slot w) iIndex l) }

/-- Move a cursor. -/
def setCurWheel (M : WheelMgr) (w : WheelId) (n : ℕ) : WheelMgr :=
  { M with curWheel := Function.update M.curWheel w n }

/-- Record an event. -/
def emit (M : WheelMgr) (e : TimerEvent) : WheelMgr := { M with log := M.log ++ [e] }

/-- `Wheel:Get`, or `none` where the assertion fails or there is no such slot. -/
def get (M : WheelMgr) (w : WheelId) (iIndex : ℕ) : Option (List TimerId) :=
  if 1 ≤ iIndex ∧ iIndex ≤ w.count then some (M.slot w iIndex) else none

/-- `WheelMgr:getCurCompTime`, from the cursor of the wheel. -/
def getCurCompTime (w : WheelId) (iCurWheel iIndex : ℕ) : ℤ :=
  if iIndex > iCurWheel then (iIndex : ℤ) - iCurWheel
  else w.count - ((iCurWheel : ℤ) - iIndex)

/-- The common form of `getMinCompTime`, `getHorCompTime`, `getDayCompTime` and
`getMonCompTime`: the time until a slot of `w` comes up, less what the wheels
`below` have gone of it. -/
def compTime (cur : WheelId → ℕ) (w : WheelId) (below : List WheelId) (iIndex : ℕ) : ℤ :=
  getCurCompTime w (cur w) iIndex * w.param - (below.map fun v => (cur v * v.param : ℤ)).sum

/-- `WheelMgr:getMinCompTime`. -/
def getMinCompTime (M : WheelMgr) (iIndex : ℕ) : ℤ := compTime M.curWheel .min [.sec] iIndex

/-- `WheelMgr:getHorCompTime`. -/
def getHorCompTime (M : WheelMgr) (iIndex : ℕ) : ℤ :=
  compTime M.curWheel .hor [.min, .sec] iIndex

/-- `WheelMgr:getDayCompTime`. -/
def getDayCompTime (M : WheelMgr) (iIndex : ℕ) : ℤ :=
  compTime M.curWheel .day [.hor, .min, .sec] iIndex

/-- `WheelMgr:getMonCompTime`. -/
def getMonCompTime (M : WheelMgr) (iIndex : ℕ) : ℤ :=
  compTime M.curWheel .mon [.day, .hor, .min, .sec] iIndex

/-- `WheelMgr:clearRegInfo`. -/
def clearRegInfo (M : WheelMgr) (id : TimerId) : WheelMgr :=
  M.updTimer id fun x => { x with regWheel := none, regSlot := 0, regIndex := 0 }

theorem timers_clearRegInfo_of_ne (M : WheelMgr) {v id : TimerId} (h : v ≠ id) :
    (M.clearRegInfo id).timers v = M.timers v := M.timers_updTimer_of_ne h _

/-- The loop of `Remove` that renumbers the timers after the removed one. -/
def renumber (M : WheelMgr) : List TimerId → ℕ → WheelMgr
  | [], _ => M
  | id :: l, i => (M.updTimer id fun x => { x with regIndex := i }).renumber l (i + 1)

/-- `WheelMgr:Remove`. -/
def remove (M : WheelMgr) (id : TimerId) : Outcome WheelMgr :=
  let x := M.timers id
  match x.regWheel with
  | none => .ok M
  | some w =>
    if x.regSlot = 0 ∨ x.regIndex = 0 then .ok M
    else
      match M.get w x.regSlot with
      | none => .error .index M
      | some tSlot =>
        match tableRemove tSlot x.regIndex with
        | none => .error .position M
        | some tSlot' =>
          let M := ((M.setSlot w x.regSlot tSlot').clearRegInfo id).emit (.removed id)
          if x.regIndex ≥ tSlot.length then .ok M
          else .ok (M.renumber (tSlot'.drop (x.regIndex - 1)) x.regIndex)

/-- `WheelMgr:setRegInfo`. -/
def setRegInfo (M : WheelMgr) (id : TimerId) (w : WheelId) (iSlot : ℕ) : Outcome WheelMgr :=
  let M := M.updTimer id fun x => { x with regWheel := some w, regSlot := iSlot }
  match M.get w iSlot with
  | none => .error .index M
  | some tSlot =>
    .ok (M.updTimer id fun x => { x with regIndex := tSlot.length + 1, regTick := M.tick })

/-- `Wheel:Add`. -/
def wheelAdd (M : WheelMgr) (w : WheelId) (iIndex : ℕ) (id : TimerId) : Outcome WheelMgr :=
  match M.get w iIndex with
  | none => .error .index M
  | some tSlot => .ok (M.setSlot w iIndex (tSlot ++ [id]))

/-- The slot that is `n` slots after the cursor. -/
def slotAfter (M : WheelMgr) (w : WheelId) (n : ℤ) : ℕ :=
  ((n + M.curWheel w - 1) % w.count + 1).toNat

/-- The branch of `Add` for the second wheel. -/
def addSec (M : WheelMgr) (id : TimerId) (iTimeOut : ℤ) : Outcome WheelMgr :=
  let iIndex := M.slotAfter .sec iTimeOut
  (M.setRegInfo id .sec iIndex).bind fun M => M.wheelAdd .sec iIndex id

/-- The common form of the other branches of `Add`: `v` is the wheel before `w`,
and `getCompTime` gives the time until the slot comes up. -/
def addWheel (M : WheelMgr) (id : TimerId) (iTimeOut : ℤ) (w v : WheelId)
    (getCompTime : ℕ → ℤ) : Outcome WheelMgr :=
  let n := iTimeOut / v.range
  let iIndex := M.slotAfter w n
  let M := M.updTimer id fun x => { x with compTime := getCompTime iIndex }
  (M.setRegInfo id w iIndex).bind fun M => M.wheelAdd w iIndex id

/-- `WheelMgr:Add`, where `call` is the call of the timer's callback. -/
def addWith (call : WheelMgr → WheelMgr) (M : WheelMgr) (id : TimerId) (iTimeOut : ℤ) :
    Outcome WheelMgr :=
  if ¬ iTimeOut ≤ WheelId.mon.range then .error .timeOut M
  else
    let M := M.updTimer id fun x => { x with run := false }
    if iTimeOut ≤ 0 then .ok (call M)
    else if iTimeOut ≤ WheelId.sec.range then M.addSec id iTimeOut
    else if iTimeOut ≤ WheelId.min.range then M.addWheel id iTimeOut .min .sec M.getMinCompTime
    else if iTimeOut ≤ WheelId.hor.range then M.addWheel id iTimeOut .hor .min M.getHorCompTime
    else if iTimeOut ≤ WheelId.day.range then M.addWheel id iTimeOut .day .hor M.getDayCompTime
    else M.addWheel id iTimeOut .mon .day M.getMonCompTime

/-- `TvecBase:Call`, where `body` is the callback: an error ends it. -/
def callWith (body : WheelMgr → Outcome WheelMgr) (id : TimerId) (M : WheelMgr) : WheelMgr :=
  let M := (M.updTimer id fun x => { x with run := true }).emit (.called id M.tick)
  match body M with
  | .ok M => M
  | .error e M => M.emit (.error e)

/-- The timer object that `addTimer` makes gets the next number. -/
def newTimer (M : WheelMgr) (func : Script) (iTimeOut : ℤ) : WheelMgr :=
  { M with
    timers := Function.update M.timers M.next (.new func iTimeOut)
    next := M.next + 1
    log := M.log ++ [.added M.next M.tick iTimeOut] }

@[simp] theorem timers_newTimer_self (M : WheelMgr) (func : Script) (iTimeOut : ℤ) :
    (M.newTimer func iTimeOut).timers M.next = .new func iTimeOut := Function.update_self _ _ _

theorem timers_newTimer_of_ne (M : WheelMgr) {v : TimerId} (h : v ≠ M.next) (func : Script)
    (iTimeOut : ℤ) : (M.newTimer func iTimeOut).timers v = M.timers v :=
  Function.update_of_ne h _ _

/-- Run a callback. -/
def runScript : Script → WheelMgr → Outcome WheelMgr
  | .done, M => .ok M
  | .addTimer iTimeOut func rest, M =>
    (addWith (callWith (runScript func) M.next) (M.newTimer func iTimeOut) M.next iTimeOut).bind
      (runScript rest)
  | .remove id rest, M => (M.remove id).bind (runScript rest)
  | .cancel id rest, M =>
    if (M.timers id).run then runScript rest M else (M.remove id).bind (runScript rest)

/-- `TvecBase:Call`. -/
def call (M : WheelMgr) (id : TimerId) : WheelMgr :=
  callWith (runScript (M.timers id).func) id M

/-- `WheelMgr:Add`. -/
def add (M : WheelMgr) (id : TimerId) (iTimeOut : ℤ) : Outcome WheelMgr :=
  addWith (fun M => M.call id) M id iTimeOut

/-- `WheelMgr:addTimer`. -/
def addTimer (M : WheelMgr) (func : Script) (iTimeOut : ℤ) : Outcome WheelMgr :=
  (M.newTimer func iTimeOut).add M.next iTimeOut

/-- The loop of `onTime` over the slot of the second wheel, from its `i`-th timer
down. -/
def runSlot : ℕ → WheelMgr → Outcome WheelMgr
  | 0, M => .ok M
  | i + 1, M =>
    match (M.slot .sec (M.curWheel .sec))[i]? with
    | none => runSlot i M
    | some id =>
      let M := M.call id
      match tableRemove (M.slot .sec (M.curWheel .sec)) (i + 1) with
      | none => .error .position M
      | some l => runSlot i (M.setSlot .sec (M.curWheel .sec) l)

/-- The loop of `cashData`. It indexes the slot without a test. -/
def cashLoop (w : WheelId) : ℕ → WheelMgr → Outcome WheelMgr
  | 0, M => .ok M
  | i + 1, M =>
    match (M.slot w (M.curWheel w))[i]? with
    | none => .error .nilValue M
    | some id =>
      let M := M.updTimer id fun x => { x with timeOut := x.timeOut - x.compTime }
      (M.add id (M.timers id).timeOut).bind fun M =>
        match tableRemove (M.slot w (M.curWheel w)) (i + 1) with
        | none => .error .position M
        | some l => cashLoop w i (M.setSlot w (M.curWheel w) l)

/-- `WheelMgr:cashData`. -/
def cashData (M : WheelMgr) (w : WheelId) : Outcome WheelMgr :=
  match M.get w (M.curWheel w) with
  | none => .error .index M
  | some tWheel => cashLoop w tWheel.length M

/-- `WheelMgr:cashAll` from the wheel `v` on, with the wheels after it: a wheel
that has gone round is reset, and the next one advances. -/
def cashFrom (v : WheelId) : List WheelId → WheelMgr → Outcome WheelMgr
  | [], M => .ok (if v.count = M.curWheel v then M.setCurWheel v 0 else M)
  | w :: ws, M =>
    if v.count = M.curWheel v then
      let M := M.setCurWheel v 0
      ((M.setCurWheel w (M.curWheel w + 1)).cashData w).bind (cashFrom w ws)
    else .ok M

/-- `WheelMgr:cashAll`. -/
def cashAll (M : WheelMgr) : Outcome WheelMgr := cashFrom .sec [.min, .hor, .day, .mon] M

/-- `WheelMgr:onTime`. -/
def onTime (M : WheelMgr) : Outcome WheelMgr :=
  let M := { M with tick := M.tick + 1 }
  let M := M.setCurWheel .sec (M.curWheel .sec + 1)
  match M.get .sec (M.curWheel .sec) with
  | none => .error .index M
  | some tCurWheel => (runSlot tCurWheel.length M).bind cashAll

/-- A call of the wheel from outside. -/
inductive Op
  | addTimer (iTimeOut : ℤ) (func : Script)
  | remove (id : TimerId)
  | onTime

/-- The wheel after a call, with an error in the log if it raised one. -/
def step (M : WheelMgr) (op : Op) : WheelMgr :=
  let o :=
    match op with
    | .addTimer iTimeOut func => M.addTimer func iTimeOut
    | .remove id => M.remove id
    | .onTime => M.onTime
  match o with
  | .ok M => M
  | .error e M => M.emit (.error e)

/-- The ticks at which a timer was called. -/
def calls (id : TimerId) (log : List TimerEvent) : List ℤ :=
  log.filterMap fun e =>
    match e with
    | .called j tick => if j = id then some (tick : ℤ) else none
    | _ => none

end WheelMgr
