import QService.Runs

/-!
# Stopping an event loop

`CSockPairEvent::Start` runs an event loop in a thread of its own, and
`CSockPairEvent::Stop`, called from another thread, asks it to end and waits until
it has. The two share the status of `CRunStatus`. Every access to the status and
every section under `m_Mutex` is one step; `m_Cond` is a condition as POSIX has it:
a `Signal` wakes the thread that waits at this moment, and a wait may also end
without a signal.

`Stop` reads the status before it takes the mutex and waits without asking what it
waits for. So it can come too late for the signal (`not_settled_lateStop`), and a
wake-up without a signal lets it return early. `settled_of_orderly` is about the
runs in which neither happens.
-/

/-- `RunStatus`. -/
inductive RunStatus
  | unknown | error | starting | runing | stopping | stopped
  deriving DecidableEq, Repr

/-- Where the thread of the loop is in `Start`. -/
inductive LoopPc
  | idle
  /-- the events are made, and `onStartUp` runs -/
  | starting
  /-- in `event_base_dispatch` -/
  | dispatch
  /-- in `event_base_dispatch`, in `onStop` -/
  | onStop
  /-- `event_base_dispatch` has returned -/
  | ended
  /-- before the section with the `Signal` -/
  | stopped
  | signalled
  /-- `Start` has returned an error -/
  | failed
  deriving DecidableEq, Repr

/-- The loop has ended, or it will never run. -/
def LoopPc.over : LoopPc → Bool
  | .ended | .stopped | .signalled | .failed => true
  | .idle | .starting | .dispatch | .onStop => false

/-- Where the other thread is in `Stop`. -/
inductive StopPc
  | idle
  /-- it has read that the loop runs -/
  | running
  /-- blocked in `Wait` -/
  | waiting
  | woken
  | returned
  deriving DecidableEq, Repr

/-- What the two threads share, and where they are. -/
structure SockPairEvent where
  emStatus : RunStatus
  bRunOnStop : Bool
  loop : LoopPc
  stop : StopPc
  deriving DecidableEq, Repr

namespace SockPairEvent

/-- What can happen next. -/
inductive Act
  /-- `Start` is called -/
  | start
  /-- the events are made and `onStartUp` has returned, or one of them has failed -/
  | startUp (ok : Bool)
  | exitMonitorCB
  /-- `onStop` returns to `exitMonitorCB` -/
  | onStopReturns
  /-- `eventCB` is called with an error -/
  | eventCB
  /-- `onStop`, or a script by `confirmStop`, says that everything has stopped -/
  | confirmStop
  /-- `Start` sets the status behind the loop -/
  | setStopped
  | signal
  /-- `Stop` is called and reads the status -/
  | stop
  /-- the section of `Stop`, up to its `Wait` -/
  | stopSection
  /-- the wait ends without a signal -/
  | wakeUp
  /-- `Stop` has the mutex again and returns -/
  | stopReturns
  deriving DecidableEq, Repr

def start : SockPairEvent := ⟨.unknown, false, .idle, .idle⟩

/-- `exitMonitorCB`, up to the call of `onStop`. -/
def exitMonitorCB (s : SockPairEvent) : SockPairEvent :=
  match s.emStatus with
  | .stopping => if s.bRunOnStop then s else { s with loop := .onStop }
  -- `event_base_loopbreak`
  | .stopped => { s with loop := .ended }
  | .unknown | .error | .starting | .runing => s

/-- `Stop` is called, for the first time or again, and reads the status. -/
def stopTest (s : SockPairEvent) : SockPairEvent :=
  if s.emStatus = .runing then { s with stop := .running } else { s with stop := .returned }

/-- One step. What cannot happen now changes nothing. -/
def step (s : SockPairEvent) : Act → SockPairEvent
  | .start => if s.loop = .idle then { s with emStatus := .starting, loop := .starting } else s
  | .startUp ok =>
    if s.loop = .starting then
      if ok then { s with emStatus := .runing, loop := .dispatch }
      else { s with emStatus := .error, loop := .failed }
    else s
  | .exitMonitorCB => if s.loop = .dispatch then s.exitMonitorCB else s
  | .onStopReturns =>
    if s.loop = .onStop then { s with bRunOnStop := true, loop := .dispatch } else s
  | .eventCB => if s.loop = .dispatch then { s with emStatus := .stopping } else s
  -- `onStartUp`, `onStop` and the other callbacks of the loop call scripts
  | .confirmStop =>
    if s.loop = .starting ∨ s.loop = .dispatch ∨ s.loop = .onStop then
      { s with emStatus := .stopped }
    else s
  | .setStopped => if s.loop = .ended then { s with emStatus := .stopped, loop := .stopped } else s
  | .signal =>
    if s.loop = .stopped then
      { s with loop := .signalled, stop := if s.stop = .waiting then .woken else s.stop }
    else s
  | .stop => if s.stop = .idle ∨ s.stop = .returned then s.stopTest else s
  | .stopSection =>
    if s.stop = .running then { s with emStatus := .stopping, stop := .waiting } else s
  | .wakeUp => if s.stop = .waiting then { s with stop := .woken } else s
  | .stopReturns => if s.stop = .woken then { s with stop := .returned } else s

variable {s : SockPairEvent} {a : Act}

/-! ## `Stop` neither hangs nor returns early -/

/-- `Stop` does not wait for a signal that has been given, and when it has returned
the loop has ended. -/
structure Settled (s : SockPairEvent) : Prop where
  wakes : ¬ (s.stop = .waiting ∧ s.loop = .signalled)
  ended : s.stop = .returned → s.loop.over = true

/-- `Stop` reads that the loop runs, or it is called when the loop has ended; it takes
the mutex for its wait before the loop gives its signal; and the wait does not end
without a signal as long as the loop runs. -/
def Orderly (s : SockPairEvent) : Act → Prop
  | .stop => s.stop = .idle ∨ s.stop = .returned → s.emStatus = .runing ∨ s.loop.over = true
  | .stopSection => s.stop = .running → s.loop ≠ .signalled
  | .wakeUp => s.stop = .waiting → s.loop.over = true
  | _ => True

instance (s : SockPairEvent) : DecidablePred s.Orderly
  | .stop => inferInstanceAs (Decidable (_ → _))
  | .stopSection => inferInstanceAs (Decidable (_ → _))
  | .wakeUp => inferInstanceAs (Decidable (_ → _))
  | .start | .startUp _ | .exitMonitorCB | .onStopReturns | .eventCB | .confirmStop
  | .setStopped | .signal | .stopReturns => .isTrue trivial

/-- `Stop` is `Settled`, and a thread that was woken finds the loop ended. -/
structure Inv (s : SockPairEvent) : Prop extends Settled s where
  woken : s.stop = .woken → s.loop.over = true

/-- What one step does to the loop, and to `Stop`. -/
inductive Move (s : SockPairEvent) : Act → SockPairEvent → Prop
  | stay (a : Act) : Move s a s
  /-- the loop goes on; it does not go back behind its end -/
  | loop {a : Act} (st : RunStatus) (b : Bool) (l : LoopPc)
      (ho : s.loop.over = true → l.over = true) (hl : l ≠ .signalled) :
      Move s a ⟨st, b, l, s.stop⟩
  | signal (hl : s.loop = .stopped) :
      Move s .signal
        { s with loop := .signalled, stop := if s.stop = .waiting then .woken else s.stop }
  | running (hs : s.stop = .idle ∨ s.stop = .returned) (hr : s.emStatus = .runing) :
      Move s .stop { s with stop := .running }
  | returned (hs : s.stop = .idle ∨ s.stop = .returned) (hr : s.emStatus ≠ .runing) :
      Move s .stop { s with stop := .returned }
  | waits (hs : s.stop = .running) :
      Move s .stopSection { s with emStatus := .stopping, stop := .waiting }
  | wakes (hs : s.stop = .waiting) : Move s .wakeUp { s with stop := .woken }
  | leaves (hs : s.stop = .woken) : Move s .stopReturns { s with stop := .returned }

theorem move_exitMonitorCB (hl : s.loop = .dispatch) : Move s .exitMonitorCB s.exitMonitorCB := by
  have hover : s.loop.over = false := by
    rw [hl]
    rfl
  have hstart {l : LoopPc} : s.loop.over = true → l.over = true := by
    rw [hover]
    exact fun h => absurd h Bool.false_ne_true
  unfold exitMonitorCB
  split
  · split
    · exact .stay _
    · exact .loop _ _ .onStop hstart (by decide)
  · exact .loop _ _ .ended hstart (by decide)
  all_goals exact .stay _

/-- **Every step is one of these.** -/
theorem move_step (s : SockPairEvent) (a : Act) : Move s a (s.step a) := by
  -- the steps inside the loop
  have hin {l₀ l : LoopPc} {a : Act} (st : RunStatus) (b : Bool) (h : s.loop = l₀)
      (h₀ : l₀.over = false ∨ l.over = true) (hl : l ≠ .signalled) :
      Move s a ⟨st, b, l, s.stop⟩ := by
    refine .loop st b l (fun ho => ?_) hl
    rw [h] at ho
    rcases h₀ with h₀ | h₀
    · rw [h₀] at ho
      cases ho
    · exact h₀
  cases a with
  | start =>
    rw [step]
    split
    · exact hin _ _ ‹_› (.inl rfl) (by decide)
    · exact .stay _
  | startUp ok =>
    rw [step]
    split
    · split
      all_goals exact hin _ _ ‹_› (.inl rfl) (by decide)
    · exact .stay _
  | exitMonitorCB =>
    rw [step]
    split
    · exact move_exitMonitorCB ‹_›
    · exact .stay _
  | onStopReturns =>
    rw [step]
    split
    · exact hin _ _ ‹_› (.inl rfl) (by decide)
    · exact .stay _
  | eventCB =>
    rw [step]
    split
    case isTrue hl => exact .loop _ _ s.loop id (by rw [hl]; decide)
    case isFalse => exact .stay _
  | confirmStop =>
    rw [step]
    split
    case isTrue hl =>
      refine .loop _ _ s.loop id ?_
      rcases hl with hl | hl | hl
      all_goals
        rw [hl]
        decide
    case isFalse => exact .stay _
  | setStopped =>
    rw [step]
    split
    · exact hin _ _ ‹_› (.inr rfl) (by decide)
    · exact .stay _
  | signal =>
    rw [step]
    split
    · exact .signal ‹_›
    · exact .stay _
  | stop =>
    rw [step]
    split
    case isTrue hs =>
      unfold stopTest
      split
      · exact .running hs ‹_›
      · exact .returned hs ‹_›
    case isFalse => exact .stay _
  | stopSection =>
    rw [step]
    split
    · exact .waits ‹_›
    · exact .stay _
  | wakeUp =>
    rw [step]
    split
    · exact .wakes ‹_›
    · exact .stay _
  | stopReturns =>
    rw [step]
    split
    · exact .leaves ‹_›
    · exact .stay _

theorem Inv.step (h : s.Inv) (hok : s.Orderly a) : (s.step a).Inv := by
  have hmove := move_step s a
  generalize s.step a = s' at hmove
  cases hmove with
  | stay => exact h
  | loop st b l ho hl =>
    exact ⟨⟨fun hw => hl hw.2, fun hs => ho (h.ended hs)⟩, fun hs => ho (h.woken hs)⟩
  | signal hl =>
    refine ⟨⟨fun hw => ?_, fun _ => rfl⟩, fun _ => rfl⟩
    -- whoever waited has been woken
    obtain ⟨hw, -⟩ := hw
    dsimp only at hw
    split at hw
    · cases hw
    · contradiction
  | running =>
    exact ⟨⟨fun hw => absurd hw.1 (by simp), fun hs => absurd hs (by simp)⟩,
      fun hs => absurd hs (by simp)⟩
  | returned hs hr =>
    have hover : s.loop.over = true := (hok hs).resolve_left hr
    exact ⟨⟨fun hw => absurd hw.1 (by simp), fun _ => hover⟩, fun _ => hover⟩
  | waits hs =>
    exact ⟨⟨fun hw => hok hs hw.2, fun hs => absurd hs (by simp)⟩, fun hs => absurd hs (by simp)⟩
  | wakes hs => exact ⟨⟨fun hw => absurd hw.1 (by simp), fun _ => hok hs⟩, fun _ => hok hs⟩
  | leaves hs => exact ⟨⟨fun hw => absurd hw.1 (by simp), fun _ => h.woken hs⟩, fun _ => h.woken hs⟩

/-- **`Stop` waits for the end of the loop** in every orderly run. -/
theorem settled_of_orderly (h : Reach step Orderly start s) : s.Settled := by
  have hinv : s.Inv := by
    refine h.invariant Inv ?_ fun s a hs hok => hs.step hok
    exact ⟨⟨by decide, by decide⟩, by decide⟩
  exact hinv.toSettled

/-- A step that is not orderly lets `Stop` hang or return early, at once or when the
thread that was woken has the mutex. -/
theorem not_settled_of_not_orderly (h : ¬ s.Orderly a) :
    ¬ (s.step a).Settled ∨ ¬ ((s.step a).step .stopReturns).Settled := by
  cases a with
  | stop =>
    simp only [Orderly, not_forall, not_or] at h
    obtain ⟨hs, hr, hover⟩ := h
    refine .inl fun hset => hover ?_
    rw [step, if_pos hs, stopTest, if_neg hr] at hset
    exact hset.ended rfl
  | stopSection =>
    simp only [Orderly, not_forall, not_not] at h
    obtain ⟨hs, hl⟩ := h
    refine .inl fun hset => hset.wakes ?_
    rw [step, if_pos hs]
    exact ⟨rfl, hl⟩
  | wakeUp =>
    simp only [Orderly, not_forall] at h
    obtain ⟨hs, hover⟩ := h
    refine .inr fun hset => hover ?_
    rw [step, if_pos hs, step, if_pos rfl] at hset
    exact hset.ended rfl
  | start | startUp | exitMonitorCB | onStopReturns | eventCB | confirmStop | setStopped | signal
  | stopReturns => exact absurd trivial h

/-- The loop is stopped while it runs, and `Stop` returns after its end. -/
def orderlyStop : List Act :=
  [.start, .startUp true, .stop, .stopSection, .exitMonitorCB, .confirmStop, .onStopReturns,
    .exitMonitorCB, .setStopped, .signal, .stopReturns]

theorem settled_orderlyStop : (orderlyStop.foldl step start).stop = .returned
    ∧ (orderlyStop.foldl step start).loop.over = true := by
  have hrun : Reach step Orderly start (orderlyStop.foldl step start) :=
    Reach.start.of_list orderlyStop (by decide)
  exact ⟨by decide, (settled_of_orderly hrun).ended (by decide)⟩

/-- `Stop` reads that the loop runs; the loop ends by an error and gives its signal; and
then `Stop` waits. -/
def lateStop : List Act :=
  [.start, .startUp true, .stop, .eventCB, .exitMonitorCB, .confirmStop, .onStopReturns,
    .exitMonitorCB, .setStopped, .signal, .stopSection]

theorem not_settled_lateStop :
    ¬ ∀ s : SockPairEvent, Reach step (fun _ _ => True) start s → s.Settled := by
  intro h
  have hrun : Reach step (fun _ _ => True) start (lateStop.foldl step start) :=
    Reach.start.of_list lateStop (by decide)
  exact (h _ hrun).wakes (by decide)

end SockPairEvent
