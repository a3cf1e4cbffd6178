import QService.Runs

/-!
# The thread pool

The pool of `ThreadPool.cpp`: the thread that makes it (`CThreadPool::Init`) and
destroys it (`CThreadPool::Destroy`), the threads it runs
(`CThreadPoolTask::Run`), and the tasks (`CThreadPool::Append`). Every section
under a mutex and every atomic operation is one step, and the steps of the threads
come in any order. A wait on a condition may end at any time: it is given a
time-out, and a condition may wake without a signal. So a `Signal` has no effect on
the state, and what the mutexes do is that their sections are single steps.

Tasks are numbered in the order in which they are appended.
-/

/-- `TaskLevel`. -/
inductive TaskLevel
  | hight | normal | low
  deriving DecidableEq, Repr

namespace TaskLevel

/-- The level that `getTask` tries after this one. -/
def next : TaskLevel → Option TaskLevel
  | .hight => some .normal
  | .normal => some .low
  | .low => none

/-- How many levels `getTask` tries before this one. -/
def rank : TaskLevel → ℕ
  | .hight => 0
  | .normal => 1
  | .low => 2

end TaskLevel

/-- Where a worker is in `CThreadPoolTask::Run`. -/
inductive WorkerPc
  /-- before it adds itself to `lIndex` -/
  | start
  /-- before its first section under `objMutex_Main` -/
  | signal
  /-- before it reads `lStop` -/
  | test
  /-- before it waits on `objCond_Thread` -/
  | wait
  | waiting
  /-- in `getTask`, before the queue of this level -/
  | scan (lv : TaskLevel)
  /-- in `Run` of a task -/
  | running (t : ℕ)
  /-- in an `Append` that a task has called, before its signal -/
  | appending (t : ℕ)
  /-- the task has thrown: the thread has ended without leaving the pool -/
  | thrown (t : ℕ)
  /-- before it takes itself out of `lIndex` -/
  | decrement
  /-- before its last section under `objMutex_Main` -/
  | lastSignal
  | done
  deriving DecidableEq, Repr

namespace WorkerPc

/-- The worker is counted in `lIndex`. -/
def counted : WorkerPc → Bool
  | .start | .lastSignal | .done => false
  | .signal | .test | .wait | .waiting | .scan _ | .running _ | .appending _ | .thrown _
  | .decrement => true

/-- The task the worker has taken and not completed. -/
def task : WorkerPc → Option ℕ
  | .running t | .appending t | .thrown t => some t
  | .start | .signal | .test | .wait | .waiting | .scan _ | .decrement | .lastSignal
  | .done => none

/-- The worker's own next step works on the pool. -/
def touches : WorkerPc → Bool
  | .running _ | .thrown _ | .done => false
  | .start | .signal | .test | .wait | .waiting | .scan _ | .appending _ | .decrement
  | .lastSignal => true

/-- The worker does not leave the pool before it has looked at the queue of this
level. -/
def willScan (lv : TaskLevel) : WorkerPc → Bool
  | .scan lv' => lv'.rank ≤ lv.rank
  | .running _ | .appending _ | .thrown _ => true
  | .start | .signal | .test | .wait | .waiting | .decrement | .lastSignal | .done => false

@[simp] theorem task_running (t : ℕ) : (running t).task = some t := rfl
@[simp] theorem task_appending (t : ℕ) : (appending t).task = some t := rfl
@[simp] theorem task_start : start.task = none := rfl
@[simp] theorem task_signal : signal.task = none := rfl
@[simp] theorem task_scan (lv : TaskLevel) : (scan lv).task = none := rfl
@[simp] theorem task_decrement : decrement.task = none := rfl
@[simp] theorem task_lastSignal : lastSignal.task = none := rfl

theorem counted_of_willScan {lv : TaskLevel} {p : WorkerPc} (h : p.willScan lv = true) :
    p.counted = true := by
  cases p <;> first | rfl | cases h

theorem counted_of_task {t : ℕ} {p : WorkerPc} (h : p.task = some t) : p.counted = true := by
  cases p <;> first | rfl | cases h

end WorkerPc

/-- Where the thread that owns the pool is. -/
inductive MainPc
  /-- in `Init`, before the next thread is made -/
  | init
  /-- in `Init`, in the wait for the thread that was made -/
  | initWait
  /-- the pool is in use -/
  | idle
  /-- in `Destroy`, in the loop that waits for the queues to be empty -/
  | drain
  /-- before `lStop` is set -/
  | setStop
  | signal
  /-- before `lIndex` is read -/
  | poll
  | signalAgain
  | waitMain
  | waitingMain
  /-- before the pool is deleted -/
  | delete
  | deleted
  deriving DecidableEq, Repr

namespace MainPc

/-- `Destroy` has begun. -/
def destroying : MainPc → Bool
  | .init | .initWait | .idle => false
  | .drain | .setStop | .signal | .poll | .signalAgain | .waitMain | .waitingMain | .delete
  | .deleted => true

/-- `Destroy` has found the queues empty. -/
def drained : MainPc → Bool
  | .init | .initWait | .idle | .drain => false
  | .setStop | .signal | .poll | .signalAgain | .waitMain | .waitingMain | .delete
  | .deleted => true

/-- `Destroy` has found that no worker is counted. -/
def emptied : MainPc → Bool
  | .delete | .deleted => true
  | .init | .initWait | .idle | .drain | .setStop | .signal | .poll | .signalAgain | .waitMain
  | .waitingMain => false

end MainPc

/-- The pool and its threads. -/
structure ThreadPool where
  uiThreadNum : ℕ
  lStop : Bool
  lIndex : ℤ
  /-- `quHigh`, `quNormal` and `quLow` -/
  queue : TaskLevel → List ℕ
  /-- `objMutex_Main` was left locked: no section under it can begin -/
  mainLocked : Bool
  main : MainPc
  workers : List WorkerPc
  /-- the pool has been deleted -/
  freed : Bool
  /-- a worker has worked on the pool after that -/
  misuse : Bool
  /-- how many tasks have been appended -/
  appended : ℕ
  /-- the tasks taken from the queues -/
  taken : List ℕ
  /-- the tasks that have run to their end -/
  finished : List ℕ

namespace ThreadPool

/-- What can happen next. -/
inductive Act
  /-- `Init` makes a thread and begins to wait for it -/
  | execute
  /-- `Execute` throws -/
  | executeFails
  /-- there is no memory for the thread's task -/
  | noMemory
  /-- `Append`, called from outside the pool -/
  | append (lv : TaskLevel)
  /-- `Destroy` begins -/
  | destroy
  /-- the next step of the owner -/
  | main
  /-- the next step of a worker -/
  | worker (w : ℕ)
  /-- the task a worker runs calls `Append` -/
  | taskAppend (w : ℕ) (lv : TaskLevel)
  /-- the task a worker runs returns -/
  | taskDone (w : ℕ)
  /-- the task a worker runs throws -/
  | taskThrow (w : ℕ)
  deriving DecidableEq, Repr

/-- The pool at the beginning of the loop of `Init`. -/
def start (uiThreadNum : ℕ) : ThreadPool where
  uiThreadNum := if uiThreadNum = 0 then 1 else uiThreadNum
  lStop := false
  lIndex := 0
  queue := fun _ => []
  mainLocked := false
  main := .init
  workers := []
  freed := false
  misuse := false
  appended := 0
  taken := []
  finished := []

/-- A worker goes on. -/
def setWorker (s : ThreadPool) (w : ℕ) (p : WorkerPc) : ThreadPool :=
  { s with workers := s.workers.set w p }

def setQueue (s : ThreadPool) (lv : TaskLevel) (q : List ℕ) : ThreadPool :=
  { s with queue := Function.update s.queue lv q }

/-- The section of `Append` under `objQueueMutex`. -/
def push (s : ThreadPool) (lv : TaskLevel) : ThreadPool :=
  { s.setQueue lv (s.queue lv ++ [s.appended]) with appended := s.appended + 1 }

section Frame

variable (s : ThreadPool) (lv : TaskLevel) (q : List ℕ)

@[simp] theorem setQueue_lIndex : (s.setQueue lv q).lIndex = s.lIndex := rfl
@[simp] theorem setQueue_finished : (s.setQueue lv q).finished = s.finished := rfl
@[simp] theorem push_lIndex : (s.push lv).lIndex = s.lIndex := rfl
@[simp] theorem push_main : (s.push lv).main = s.main := rfl
@[simp] theorem push_taken : (s.push lv).taken = s.taken := rfl
@[simp] theorem push_finished : (s.push lv).finished = s.finished := rfl

end Frame

/-- `getTaskNumber`. -/
def getTaskNumber (s : ThreadPool) : ℕ :=
  (s.queue .hight).length + (s.queue .normal).length + (s.queue .low).length

/-- `getTaskFromQueue`: a task is taken and run, or the worker tries the next level;
after the last one it goes back to its outer loop. -/
def getTaskFromQueue (s : ThreadPool) (w : ℕ) (lv : TaskLevel) : ThreadPool :=
  match s.queue lv with
  | [] => s.setWorker w ((lv.next).elim .test .scan)
  | t :: q => { (s.setQueue lv q).setWorker w (.running t) with taken := s.taken ++ [t] }

/-- The next step of `CThreadPoolTask::Run` in a pool that exists. -/
def run (s : ThreadPool) (w : ℕ) : WorkerPc → ThreadPool
  | .start => { s.setWorker w .signal with lIndex := s.lIndex + 1 }
  | .signal => if s.mainLocked then s else s.setWorker w .test
  | .test => s.setWorker w (if s.lStop then .decrement else .wait)
  | .wait => s.setWorker w .waiting
  | .waiting => s.setWorker w (.scan .hight)
  | .scan lv => s.getTaskFromQueue w lv
  | .appending t => s.setWorker w (.running t)
  | .decrement => { s.setWorker w .lastSignal with lIndex := s.lIndex - 1 }
  | .lastSignal => if s.mainLocked then s else s.setWorker w .done
  -- a task that runs goes on by itself
  | .running _ | .thrown _ | .done => s

/-- The next step of a worker. -/
def workerStep (s : ThreadPool) (w : ℕ) : ThreadPool :=
  match s.workers[w]? with
  | none => s
  | some p => if s.freed ∧ p.touches then { s with misuse := true } else s.run w p

/-- The task a worker runs calls `Append`. -/
def taskAppend (s : ThreadPool) (w : ℕ) (lv : TaskLevel) : ThreadPool :=
  match s.workers[w]? with
  | some (.running t) =>
    if s.freed then { s with misuse := true } else (s.push lv).setWorker w (.appending t)
  | _ => s

/-- The task a worker runs returns, and the worker looks for the next one. -/
def taskDone (s : ThreadPool) (w : ℕ) : ThreadPool :=
  match s.workers[w]? with
  | some (.running t) =>
    { s.setWorker w (.scan .hight) with finished := s.finished ++ [t] }
  | _ => s

/-- The task a worker runs throws: `Run` of the thread catches it and the thread
ends. -/
def taskThrow (s : ThreadPool) (w : ℕ) : ThreadPool :=
  match s.workers[w]? with
  | some (.running t) => s.setWorker w (.thrown t)
  | _ => s

/-- The next step of the owner. A mutex that is left locked stops it as well. -/
def mainStep (s : ThreadPool) : ThreadPool :=
  match s.main with
  | .init | .idle | .deleted => s
  | .initWait => { s with main := if s.workers.length < s.uiThreadNum then .init else .idle }
  | .drain => if s.getTaskNumber = 0 then { s with main := .setStop } else s
  | .setStop => { s with lStop := true, main := .signal }
  | .signal => { s with main := .poll }
  | .poll => { s with main := if 0 < s.lIndex then .signalAgain else .delete }
  | .signalAgain => { s with main := .waitMain }
  | .waitMain => if s.mainLocked then s else { s with main := .waitingMain }
  | .waitingMain => { s with main := .poll }
  | .delete => { s with freed := true, main := .deleted }

/-- One step. What cannot happen now changes nothing. -/
def step (s : ThreadPool) : Act → ThreadPool
  | .execute =>
    if s.main = .init then { s with workers := s.workers ++ [.start], main := .initWait } else s
  -- an error of `Init` makes the constructor call `Destroy`
  | .executeFails => if s.main = .init then { s with mainLocked := true, main := .drain } else s
  | .noMemory => if s.main = .init then { s with main := .drain } else s
  | .append lv => if s.main = .idle then s.push lv else s
  | .destroy => if s.main = .idle then { s with main := .drain } else s
  | .main => s.mainStep
  | .worker w => s.workerStep w
  | .taskAppend w lv => s.taskAppend w lv
  | .taskDone w => s.taskDone w
  | .taskThrow w => s.taskThrow w

/-! ## What a step can do -/

variable {n : ℕ} {s s' : ThreadPool} {a : Act}

/-- What a step does to the pool, with the workers split around the one that
moves. -/
inductive Move (s : ThreadPool) : Act → ThreadPool → Prop
  | stay (a : Act) : Move s a s
  | misuse {a : Act} {p : WorkerPc} (hf : s.freed = true) (hp : p ∈ s.workers)
      (hd : p ≠ .done) : Move s a { s with misuse := true }
  | make (hm : s.main = .init) :
      Move s .execute { s with workers := s.workers ++ [.start], main := .initWait }
  | begins {a : Act} (locked : Bool) (hm : s.main.destroying = false) :
      Move s a { s with mainLocked := locked, main := .drain }
  | append (lv : TaskLevel) (hm : s.main = .idle) : Move s (.append lv) (s.push lv)
  | owner (m : MainPc) (stop freed : Bool) (hb : m.destroying = s.main.destroying)
      (hd : m.drained = true → s.main.drained = true ∨ ∀ lv, s.queue lv = [])
      (he : m.emptied = true → s.main.emptied = true ∨ s.lIndex ≤ 0)
      (hf : freed = true → s.freed = true ∨ s.main = .delete) :
      Move s .main { s with main := m, lStop := stop, freed := freed }
  | goes {a : Act} {l₁ l₂ : List WorkerPc} {p : WorkerPc} (p' : WorkerPc)
      (hw : s.workers = l₁ ++ p :: l₂) (hc : p'.counted = p.counted) (ht : p'.task = p.task)
      (hs : ∀ lv, p.willScan lv = true → s.queue lv ≠ [] → p'.willScan lv = true)
      (hn : p' ≠ .start) (hd : p ≠ .done) : Move s a { s with workers := l₁ ++ p' :: l₂ }
  | counts {w : ℕ} {l₁ l₂ : List WorkerPc} (hw : s.workers = l₁ ++ .start :: l₂) :
      Move s (.worker w) { s with workers := l₁ ++ .signal :: l₂, lIndex := s.lIndex + 1 }
  | leaves {w : ℕ} {l₁ l₂ : List WorkerPc} (hw : s.workers = l₁ ++ .decrement :: l₂) :
      Move s (.worker w) { s with workers := l₁ ++ .lastSignal :: l₂, lIndex := s.lIndex - 1 }
  | takes {w : ℕ} {l₁ l₂ : List WorkerPc} {lv : TaskLevel} {t : ℕ} {q : List ℕ}
      (hw : s.workers = l₁ ++ .scan lv :: l₂) (hq : s.queue lv = t :: q) :
      Move s (.worker w)
        { s.setQueue lv q with workers := l₁ ++ .running t :: l₂, taken := s.taken ++ [t] }
  | appends {w : ℕ} {l₁ l₂ : List WorkerPc} {t : ℕ} (lv : TaskLevel)
      (hw : s.workers = l₁ ++ .running t :: l₂) :
      Move s (.taskAppend w lv) { s.push lv with workers := l₁ ++ .appending t :: l₂ }
  | finishes {w : ℕ} {l₁ l₂ : List WorkerPc} {t : ℕ}
      (hw : s.workers = l₁ ++ .running t :: l₂) :
      Move s (.taskDone w)
        { s with workers := l₁ ++ .scan .hight :: l₂, finished := s.finished ++ [t] }

/-- A worker that goes on in its program alone. -/
theorem Move.of_setWorker {w : ℕ} {p : WorkerPc} (p' : WorkerPc) (hp : s.workers[w]? = some p)
    (hc : p'.counted = p.counted) (ht : p'.task = p.task)
    (hs : ∀ lv, p.willScan lv = true → s.queue lv ≠ [] → p'.willScan lv = true)
    (hn : p' ≠ .start) (hd : p ≠ .done) : Move s a (s.setWorker w p') := by
  obtain ⟨l₁, l₂, hw, hset⟩ := exists_split_set hp
  unfold setWorker
  rw [hset p']
  exact .goes p' hw hc ht hs hn hd

theorem move_getTaskFromQueue {w : ℕ} {lv : TaskLevel} (hp : s.workers[w]? = some (.scan lv)) :
    Move s (.worker w) (s.getTaskFromQueue w lv) := by
  unfold getTaskFromQueue
  split
  case h_1 hq =>
    -- the levels that are left are those behind this one, whose queue is empty
    cases lv
    · refine .of_setWorker (.scan .normal) hp rfl rfl (fun lv h hne => ?_) (by decide) (by decide)
      cases lv <;> first | rfl | exact absurd hq hne
    · refine .of_setWorker (.scan .low) hp rfl rfl (fun lv h hne => ?_) (by decide) (by decide)
      cases lv <;> first | rfl | exact absurd hq hne | exact absurd h (by decide)
    · refine .of_setWorker .test hp rfl rfl (fun lv h hne => ?_) (by decide) (by decide)
      cases lv <;> first | exact absurd hq hne | exact absurd h (by decide)
  case h_2 t q hq =>
    obtain ⟨l₁, l₂, hw, hset⟩ := exists_split_set hp
    unfold setWorker
    rw [show (s.setQueue lv q).workers = s.workers from rfl, hset]
    exact .takes hw hq

theorem move_run {w : ℕ} {p : WorkerPc} (hp : s.workers[w]? = some p) :
    Move s (.worker w) (s.run w p) := by
  obtain ⟨l₁, l₂, hw, hset⟩ := exists_split_set hp
  cases p with
  | start =>
    rw [run, setWorker, hset]
    exact .counts hw
  | signal =>
    rw [run]
    split
    · exact .stay _
    · exact .of_setWorker _ hp rfl rfl (fun _ h => by cases h) (by decide) (by decide)
  | test =>
    rw [run]
    split
    all_goals exact .of_setWorker _ hp rfl rfl (fun _ h => by cases h) (by decide) (by decide)
  | wait => exact .of_setWorker _ hp rfl rfl (fun _ h => by cases h) (by decide) (by decide)
  | waiting => exact .of_setWorker _ hp rfl rfl (fun _ h => by cases h) (by decide) (by decide)
  | scan lv => exact move_getTaskFromQueue hp
  | appending t => exact .of_setWorker _ hp rfl rfl (fun _ _ _ => rfl) (by simp) (by simp)
  | decrement =>
    rw [run, setWorker, hset]
    exact .leaves hw
  | lastSignal =>
    rw [run]
    split
    · exact .stay _
    · exact .of_setWorker _ hp rfl rfl (fun _ h => by cases h) (by decide) (by decide)
  | running t => exact .stay _
  | thrown t => exact .stay _
  | done => exact .stay _

theorem move_workerStep (s : ThreadPool) (w : ℕ) : Move s (.worker w) (s.workerStep w) := by
  unfold workerStep
  split
  · exact .stay _
  case h_2 p hp =>
    split
    case isTrue hf =>
      refine .misuse hf.1 (List.mem_of_getElem? hp) ?_
      rintro rfl
      cases hf.2
    case isFalse => exact move_run hp

theorem move_taskAppend (s : ThreadPool) (w : ℕ) (lv : TaskLevel) :
    Move s (.taskAppend w lv) (s.taskAppend w lv) := by
  unfold taskAppend
  split
  case h_1 t hp =>
    split
    · exact .misuse ‹_› (List.mem_of_getElem? hp) (by simp)
    · obtain ⟨l₁, l₂, hw, hset⟩ := exists_split_set hp
      unfold setWorker
      rw [show (s.push lv).workers = s.workers from rfl, hset]
      exact .appends lv hw
  · exact .stay _

theorem move_taskDone (s : ThreadPool) (w : ℕ) : Move s (.taskDone w) (s.taskDone w) := by
  unfold taskDone
  split
  case h_1 t hp =>
    obtain ⟨l₁, l₂, hw, hset⟩ := exists_split_set hp
    unfold setWorker
    rw [hset]
    exact .finishes hw
  · exact .stay _

theorem move_taskThrow (s : ThreadPool) (w : ℕ) : Move s (.taskThrow w) (s.taskThrow w) := by
  unfold taskThrow
  split
  case h_1 t hp => exact .of_setWorker _ hp rfl rfl (fun _ _ _ => rfl) (by simp) (by simp)
  · exact .stay _

/-- The queues are empty when `getTaskNumber` is 0. -/
theorem queue_eq_nil (h : s.getTaskNumber = 0) (lv : TaskLevel) : s.queue lv = [] := by
  unfold getTaskNumber at h
  cases lv <;> exact List.eq_nil_of_length_eq_zero (by omega)

theorem move_mainStep (s : ThreadPool) : Move s .main s.mainStep := by
  have keep (m : MainPc) (stop : Bool) (hb : m.destroying = s.main.destroying)
      (hd : m.drained = true → s.main.drained = true ∨ ∀ lv, s.queue lv = [])
      (he : m.emptied = true → s.main.emptied = true ∨ s.lIndex ≤ 0) :
      Move s .main { s with main := m, lStop := stop } :=
    .owner m stop s.freed hb hd he .inl
  unfold mainStep
  split
  case h_1 | h_2 | h_3 => exact .stay _
  case h_4 hm =>
    split
    all_goals
      exact keep _ _ (by rw [hm]; rfl) (fun h => by cases h) (fun h => by cases h)
  case h_5 hm =>
    split
    · exact keep _ _ (by rw [hm]; rfl) (fun _ => .inr (queue_eq_nil ‹_›)) (fun h => by cases h)
    · exact .stay _
  case h_8 hm =>
    split
    · exact keep _ _ (by rw [hm]; rfl) (fun _ => .inl (by rw [hm]; rfl)) (fun h => by cases h)
    · exact keep _ _ (by rw [hm]; rfl) (fun _ => .inl (by rw [hm]; rfl))
        (fun _ => .inr (by omega))
  case h_10 hm =>
    split
    · exact .stay _
    · exact keep _ _ (by rw [hm]; rfl) (fun _ => .inl (by rw [hm]; rfl)) (fun h => by cases h)
  case h_6 hm | h_7 hm | h_9 hm | h_11 hm =>
    exact keep _ _ (by rw [hm]; rfl) (fun _ => .inl (by rw [hm]; rfl)) (fun h => by cases h)
  case h_12 hm =>
    exact .owner .deleted s.lStop true (by rw [hm]; rfl) (fun _ => .inl (by rw [hm]; rfl))
      (fun _ => .inl (by rw [hm]; rfl)) (fun _ => .inr hm)

/-- **Every step is one of these.** -/
theorem move_step (s : ThreadPool) (a : Act) : Move s a (s.step a) := by
  cases a with
  | execute =>
    rw [step]
    split
    · exact .make ‹_›
    · exact .stay _
  | executeFails =>
    rw [step]
    split
    case isTrue hm => exact .begins true (by rw [hm]; rfl)
    case isFalse => exact .stay _
  | noMemory =>
    rw [step]
    split
    case isTrue hm => exact .begins s.mainLocked (by rw [hm]; rfl)
    case isFalse => exact .stay _
  | append lv =>
    rw [step]
    split
    · exact .append lv ‹_›
    · exact .stay _
  | destroy =>
    rw [step]
    split
    case isTrue hm => exact .begins s.mainLocked (by rw [hm]; rfl)
    case isFalse => exact .stay _
  | main => exact move_mainStep s
  | worker w => exact move_workerStep s w
  | taskAppend w lv => exact move_taskAppend s w lv
  | taskDone w => exact move_taskDone s w
  | taskThrow w => exact move_taskThrow s w

/-! ## The books of the pool -/

/-- How often a task stands in the queues. -/
def queued (s : ThreadPool) (t : ℕ) : ℕ :=
  (s.queue .hight).count t + (s.queue .normal).count t + (s.queue .low).count t

theorem queued_push (s : ThreadPool) (lv : TaskLevel) (t : ℕ) :
    (s.push lv).queued t = s.queued t + if s.appended = t then 1 else 0 := by
  cases lv
  all_goals
    simp [queued, push, setQueue, Function.update, List.count_cons]
    omega

theorem queued_setQueue {lv : TaskLevel} {t₀ : ℕ} {q : List ℕ} (hq : s.queue lv = t₀ :: q)
    (t : ℕ) : (s.setQueue lv q).queued t + (if t₀ = t then 1 else 0) = s.queued t := by
  cases lv
  all_goals
    simp [queued, setQueue, Function.update, hq, List.count_cons]
    omega

theorem queued_eq_zero (h : ∀ lv, s.queue lv = []) (t : ℕ) : s.queued t = 0 := by
  simp [queued, h]

/-- **What holds of every pool.** `lIndex` is the number of the workers that are
counted; a task that was appended is in the queues once or has been taken once; a
task that has been taken is with a worker or has run to its end; and a task that
`Destroy` did not see has a worker that will look at its queue. -/
structure Ledger (s : ThreadPool) : Prop where
  counted : s.lIndex = s.workers.countP WorkerPc.counted
  once : ∀ t, s.queued t + s.taken.count t = if t < s.appended then 1 else 0
  held : ∀ t, s.finished.count t + s.workers.countP (·.task = some t) = s.taken.count t
  late : s.main.drained = true → ∀ lv, s.queue lv ≠ [] →
    ∃ p ∈ s.workers, p.willScan lv = true

theorem ledger_start (n : ℕ) : (start n).Ledger where
  counted := rfl
  once _ := rfl
  held _ := rfl
  late h := by cases h

theorem Ledger.counted_move (h : s.Ledger) (hm : Move s a s') :
    s'.lIndex = s'.workers.countP WorkerPc.counted := by
  have hc := h.counted
  cases hm with
  | stay | misuse | begins | append | owner => exact hc
  | make => simpa [WorkerPc.counted] using hc
  | goes p' hw he =>
    simp only [hw, List.countP_append, List.countP_cons] at hc ⊢
    rw [he]
    exact hc
  | counts hw | leaves hw | takes hw | appends _ hw | finishes hw =>
    simp [hw, List.countP_cons, WorkerPc.counted] at hc ⊢
    omega

theorem Ledger.once_move (h : s.Ledger) (hm : Move s a s') (t : ℕ) :
    s'.queued t + s'.taken.count t = if t < s'.appended then 1 else 0 := by
  have ho := h.once t
  have hpush (lv : TaskLevel) :
      (s.push lv).queued t + s.taken.count t = if t < s.appended + 1 then 1 else 0 := by
    rw [queued_push]
    split_ifs at ho ⊢
    all_goals omega
  cases hm with
  | stay | misuse | begins | owner | make | goes | counts | leaves | finishes => exact ho
  | append lv | appends lv => exact hpush lv
  | @takes _ _ _ lv t₀ q hw hq =>
    have hset := queued_setQueue hq t
    have hcount : (s.taken ++ [t₀]).count t = s.taken.count t + if t₀ = t then 1 else 0 := by
      simp [List.count_cons]
    change (s.setQueue lv q).queued t + (s.taken ++ [t₀]).count t
      = if t < s.appended then 1 else 0
    omega

theorem Ledger.held_move (h : s.Ledger) (hm : Move s a s') (t : ℕ) :
    s'.finished.count t + s'.workers.countP (·.task = some t) = s'.taken.count t := by
  have hh := h.held t
  cases hm with
  | stay | misuse | begins | append | owner => exact hh
  | make => simpa using hh
  | goes p' hw hc ht =>
    simp only [hw, List.countP_append, List.countP_cons] at hh ⊢
    rw [ht]
    exact hh
  | counts hw | leaves hw | appends _ hw =>
    simp [hw, List.countP_cons] at hh ⊢
    omega
  | takes hw | finishes hw =>
    simp [hw, List.countP_cons, List.count_cons] at hh ⊢
    omega

/-- When one worker moves, some worker still looks at a queue. -/
theorem exists_willScan_move {l₁ l₂ : List WorkerPc} {p p' : WorkerPc} {lv : TaskLevel}
    (hscan : ∃ r ∈ l₁ ++ p :: l₂, r.willScan lv = true)
    (hp : p.willScan lv = true → p'.willScan lv = true) :
    ∃ r ∈ l₁ ++ p' :: l₂, r.willScan lv = true := by
  obtain ⟨r, hr, hr'⟩ := hscan
  rcases List.mem_append.mp hr with hr | hr
  · exact ⟨r, List.mem_append_left _ hr, hr'⟩
  rcases List.mem_cons.mp hr with rfl | hr
  · exact ⟨p', by simp, hp hr'⟩
  · exact ⟨r, by simp [hr], hr'⟩

theorem Ledger.late_move (h : s.Ledger) (hm : Move s a s') (hd : s'.main.drained = true)
    (lv : TaskLevel) (hq : s'.queue lv ≠ []) : ∃ p ∈ s'.workers, p.willScan lv = true := by
  cases hm with
  | stay | misuse => exact h.late hd lv hq
  | make | begins => cases hd
  | append lv' hm =>
    rw [push_main, hm] at hd
    cases hd
  | owner m stop freed hb hd' =>
    rcases hd' hd with hd' | hempty
    · exact h.late hd' lv hq
    · exact absurd (hempty lv) hq
  | @goes _ _ _ p p' hw hc ht hs =>
    have hscan := h.late hd lv hq
    rw [hw] at hscan
    exact exists_willScan_move hscan fun hp => hs lv hp hq
  | counts hw | leaves hw =>
    -- the worker that moves does not look at a queue before or after
    have hscan := h.late hd lv hq
    rw [hw] at hscan
    exact exists_willScan_move hscan fun hp => by cases hp
  | @takes _ _ _ _ t => exact ⟨.running t, by simp, rfl⟩
  | @appends _ _ _ t => exact ⟨.appending t, by simp, rfl⟩
  | finishes => exact ⟨.scan .hight, by simp, decide_eq_true (Nat.zero_le lv.rank)⟩

theorem Ledger.step (h : s.Ledger) (a : Act) : (s.step a).Ledger where
  counted := h.counted_move (move_step s a)
  once := h.once_move (move_step s a)
  held := h.held_move (move_step s a)
  late := h.late_move (move_step s a)

/-- No worker is counted when `lIndex` is not positive. -/
theorem Ledger.counted_eq_false (h : s.Ledger) (hi : s.lIndex ≤ 0) {p : WorkerPc}
    (hp : p ∈ s.workers) : p.counted = false := by
  have hzero : s.workers.countP WorkerPc.counted = 0 := by
    have hc := h.counted
    omega
  exact Bool.eq_false_iff.mpr (List.countP_eq_zero.mp hzero p hp)

/-- No task is taken twice. -/
theorem Ledger.nodup_taken (h : s.Ledger) : s.taken.Nodup := by
  refine List.nodup_iff_count_le_one.mpr fun t => ?_
  have ho := h.once t
  split at ho
  all_goals omega

/-- When no worker is counted, the queues are empty and every task has run to its end
once. -/
theorem Ledger.finished_perm (h : s.Ledger) (hd : s.main.drained = true)
    (hc : ∀ p ∈ s.workers, p.counted = false) :
    s.finished.Perm (List.range s.appended) ∧ ∀ lv, s.queue lv = [] := by
  have hempty : ∀ lv, s.queue lv = [] := by
    intro lv
    by_contra hq
    obtain ⟨p, hp, hscan⟩ := h.late hd lv hq
    exact absurd (WorkerPc.counted_of_willScan hscan) (by rw [hc p hp]; decide)
  refine ⟨List.perm_iff_count.mpr fun t => ?_, hempty⟩
  have hnone : s.workers.countP (·.task = some t) = 0 := by
    refine List.countP_eq_zero.mpr fun p hp htask => ?_
    exact absurd (WorkerPc.counted_of_task (of_decide_eq_true htask)) (by rw [hc p hp]; decide)
  have hone := h.once t
  have hheld := h.held t
  rw [queued_eq_zero hempty] at hone
  rw [List.nodup_range.count]
  simp only [List.mem_range]
  omega

/-! ## Every task is run once -/

/-- When `Destroy` begins, every worker that was made has added itself to `lIndex`. -/
def AllCounted (s : ThreadPool) (a : Act) : Prop :=
  s.main.destroying = false → (s.step a).main.destroying = true → ∀ p ∈ s.workers, p ≠ .start

instance (s : ThreadPool) (a : Act) : Decidable (s.AllCounted a) :=
  inferInstanceAs (Decidable (_ → _ → ∀ p ∈ s.workers, p ≠ .start))

/-- `Destroy` has all workers counted when it begins, and none when it is about to
delete the pool. -/
structure Closing (s : ThreadPool) : Prop where
  begun : s.main.destroying = true → ∀ p ∈ s.workers, p ≠ .start
  emptied : s.main.emptied = true → ∀ p ∈ s.workers, p.counted = false

theorem destroying_of_emptied {m : MainPc} (h : m.emptied = true) : m.destroying = true := by
  cases m <;> first | rfl | cases h

/-- A step that only moves one worker, which is not back at its beginning and is not
counted again, keeps the workers as `Destroy` wants them. -/
theorem Closing.move_worker (h : s.Closing) {l₁ l₂ : List WorkerPc} {p p' : WorkerPc}
    (hw : s.workers = l₁ ++ p :: l₂) (hw' : s'.workers = l₁ ++ p' :: l₂)
    (hm : s'.main = s.main) (hn : p' ≠ .start)
    (hc : p'.counted = true → p.counted = true ∨ p = .start) : s'.Closing := by
  have hmem : ∀ r ∈ s'.workers, r ∈ s.workers ∨ r = p' := by
    intro r hr
    rw [hw'] at hr
    rw [hw]
    simp only [List.mem_append, List.mem_cons] at hr ⊢
    tauto
  have hp : p ∈ s.workers := by
    rw [hw]
    simp
  constructor
  · intro hd r hr
    rw [hm] at hd
    rcases hmem r hr with hr | rfl
    · exact h.begun hd r hr
    · exact hn
  · intro he r hr
    rw [hm] at he
    rcases hmem r hr with hr | rfl
    · exact h.emptied he r hr
    · -- the worker was not counted, and it was not at its beginning
      refine Bool.eq_false_iff.mpr fun hr' => ?_
      rcases hc hr' with hp' | hp'
      · exact absurd hp' (by rw [h.emptied he p hp]; decide)
      · exact h.begun (destroying_of_emptied he) p hp hp'

theorem Closing.step (h : s.Closing) (hl : s.Ledger) (hok : s.AllCounted a) :
    (s.step a).Closing := by
  have hmove := move_step s a
  unfold AllCounted at hok
  generalize s.step a = s' at hmove hok
  cases hmove with
  | stay => exact h
  | misuse => exact ⟨h.begun, h.emptied⟩
  | make =>
    constructor
    all_goals
      intro hd
      cases hd
  | begins locked hm =>
    constructor
    · intro _
      exact hok hm rfl
    · intro he
      cases he
  | append lv hm =>
    refine ⟨fun hd => ?_, fun he => ?_⟩
    · rw [push_main, hm] at hd
      cases hd
    · rw [push_main, hm] at he
      cases he
  | owner m stop freed hb hd he =>
    refine ⟨fun hd => h.begun (hb ▸ hd), fun hm => ?_⟩
    rcases he hm with he | hi
    · exact h.emptied he
    · exact fun p hp => hl.counted_eq_false hi hp
  | goes p' hw hc ht hs hn =>
    exact h.move_worker hw rfl rfl hn (fun hc' => .inl (hc ▸ hc'))
  | counts hw => exact h.move_worker hw rfl rfl (by decide) (fun _ => .inr rfl)
  | leaves hw => exact h.move_worker hw rfl rfl (by decide) (fun hc => by cases hc)
  | takes hw | appends _ hw | finishes hw =>
    exact h.move_worker hw rfl rfl (by simp) (fun _ => .inl rfl)

/-- **The pool runs every task once.** In every run in which `Destroy` begins when all
workers are counted, no task is taken twice, and when `Destroy` comes to delete the
pool the tasks that were appended have run to their end, each of them once, and the
queues are empty. -/
theorem tasks_run_once (h : Reach step AllCounted (start n) s) :
    s.taken.Nodup ∧ (s.main = .delete →
      s.finished.Perm (List.range s.appended) ∧ ∀ lv, s.queue lv = []) := by
  have hinv : s.Ledger ∧ s.Closing := by
    refine h.invariant (fun s => s.Ledger ∧ s.Closing) ⟨ledger_start n, ?_⟩ ?_
    · exact ⟨fun hd => absurd hd Bool.false_ne_true, fun he => absurd he Bool.false_ne_true⟩
    · intro s a hs hok
      exact ⟨hs.1.step a, hs.2.step hs.1 hok⟩
  refine ⟨hinv.1.nodup_taken, fun hm => hinv.1.finished_perm ?_ (hinv.2.emptied ?_)⟩
  all_goals
    rw [hm]
    rfl

/-- One worker and two tasks, the second one appended by the first while `Destroy`
waits for the worker: both run before the pool is deleted. -/
def lateTask : List Act :=
  [.execute, .worker 0, .main, .worker 0, .append .normal, .worker 0, .worker 0, .worker 0,
    .worker 0, .worker 0, .destroy, .main, .main, .taskAppend 0 .low, .main, .worker 0,
    .taskDone 0, .worker 0, .worker 0, .worker 0, .taskDone 0, .worker 0, .worker 0, .worker 0,
    .worker 0, .worker 0, .main]

theorem tasks_run_once_lateTask :
    (lateTask.foldl step (start 1)).appended = 2
      ∧ (lateTask.foldl step (start 1)).main = .delete
      ∧ (lateTask.foldl step (start 1)).finished.Perm (List.range 2) := by
  have hrun : Reach step AllCounted (start 1) (lateTask.foldl step (start 1)) :=
    Reach.start.of_list lateTask (by decide)
  exact ⟨by decide, by decide, ((tasks_run_once hrun).2 (by decide)).1⟩

/-! ## The pool after it is deleted -/

/-- When the pool is deleted, `lIndex` is 0, no worker has yet to add itself to it, and
none is between its decrement of `lIndex` and its last `Signal`. -/
def AllGone (s : ThreadPool) (a : Act) : Prop :=
  a = .main → s.main = .delete →
    s.lIndex ≤ 0 ∧ ∀ p ∈ s.workers, p ≠ .start ∧ p ≠ .lastSignal

instance (s : ThreadPool) (a : Act) : Decidable (s.AllGone a) :=
  inferInstanceAs (Decidable (_ → _ → _ ∧ ∀ p ∈ s.workers, p ≠ .start ∧ p ≠ .lastSignal))

/-- A deleted pool has no worker that could still use it, and none has. -/
structure Unused (s : ThreadPool) : Prop where
  destroying : s.freed = true → s.main.destroying = true
  done : s.freed = true → ∀ p ∈ s.workers, p = .done
  misuse : s.misuse = false

theorem done_of_not_counted {p : WorkerPc} (hc : p.counted = false) (hs : p ≠ .start)
    (hl : p ≠ .lastSignal) : p = .done := by
  cases p <;> first | rfl | contradiction

theorem Unused.step (h : s.Unused) (hl : s.Ledger) (hok : s.AllGone a) :
    (s.step a).Unused := by
  have hmove := move_step s a
  unfold AllGone at hok
  generalize s.step a = s' at hmove
  -- a worker that moves is not done, so the pool is not deleted
  have hfree {l₁ l₂ : List WorkerPc} {p : WorkerPc} (hw : s.workers = l₁ ++ p :: l₂)
      (hd : p ≠ .done) : s.freed ≠ true := by
    intro hf
    refine hd (h.done hf p ?_)
    rw [hw]
    simp
  cases hmove with
  | stay => exact h
  | misuse hf hp hd => exact absurd (h.done hf _ hp) hd
  | make hm =>
    have hf : s.freed ≠ true := by
      intro hf
      have hd := h.destroying hf
      rw [hm] at hd
      cases hd
    exact ⟨fun hf' => absurd hf' hf, fun hf' => absurd hf' hf, h.misuse⟩
  | begins locked hm => exact ⟨fun _ => rfl, h.done, h.misuse⟩
  | append lv hm => exact ⟨h.destroying, h.done, h.misuse⟩
  | owner m stop freed hb hd he hf =>
    refine ⟨fun hfreed => ?_, fun hfreed => ?_, h.misuse⟩
    · rcases hf hfreed with hf | hm
      · exact hb.trans (h.destroying hf)
      · exact hb.trans (by rw [hm]; rfl)
    · rcases hf hfreed with hf | hm
      · exact h.done hf
      · obtain ⟨hi, hp⟩ := hok rfl hm
        exact fun p hmem =>
          done_of_not_counted (hl.counted_eq_false hi hmem) (hp p hmem).1 (hp p hmem).2
  | goes p' hw hc ht hs hn hd =>
    exact ⟨h.destroying, fun hf => absurd hf (hfree hw hd), h.misuse⟩
  | counts hw | leaves hw =>
    exact ⟨h.destroying, fun hf => absurd hf (hfree hw (by decide)), h.misuse⟩
  | takes hw | appends _ hw | finishes hw =>
    exact ⟨h.destroying, fun hf => absurd hf (hfree hw (by simp)), h.misuse⟩

/-- **The pool is not used after it is deleted** in the runs in which no worker is
before its increment of `lIndex` or between its decrement and its last `Signal` when
the pool is deleted. -/
theorem not_misuse_of_allGone (h : Reach step AllGone (start n) s) : s.misuse = false := by
  have hinv : s.Ledger ∧ s.Unused := by
    refine h.invariant (fun s => s.Ledger ∧ s.Unused) ⟨ledger_start n, ?_⟩ ?_
    · exact ⟨fun hf => absurd hf Bool.false_ne_true, fun hf => absurd hf Bool.false_ne_true, rfl⟩
    · intro s a hs hok
      exact ⟨hs.1.step a, hs.2.step hs.1 hok⟩
  exact hinv.2.misuse

/-- The condition cannot be left out: a worker whose next step works on the pool when
it is deleted can take this step next. -/
theorem misuse_of_touches {w : ℕ} {p : WorkerPc} (hm : s.main = .delete)
    (hp : s.workers[w]? = some p) (ht : p.touches = true) :
    ((s.step .main).step (.worker w)).misuse = true := by
  have hdel : s.step .main = { s with freed := true, main := .deleted } := by
    simp only [step, mainStep, hm]
  have hp' : (s.step .main).workers[w]? = some p := by
    rw [hdel]
    exact hp
  have hf : (s.step .main).freed = true := by rw [hdel]
  rw [show (s.step .main).step (.worker w) = (s.step .main).workerStep w from rfl, workerStep]
  simp only [hp', hf, ht, and_self, if_true]

/-- `Destroy` deletes the pool after the last step of its worker. -/
def orderlyEnd : List Act :=
  [.execute, .worker 0, .main, .worker 0, .destroy, .main, .main, .worker 0, .worker 0, .worker 0,
    .main, .main, .main, .worker 0]

theorem not_misuse_orderlyEnd : (orderlyEnd.foldl step (start 1)).freed = true
    ∧ (orderlyEnd.foldl step (start 1)).misuse = false := by
  have hrun : Reach step AllGone (start 1) (orderlyEnd.foldl step (start 1)) :=
    Reach.start.of_list orderlyEnd (by decide)
  exact ⟨by decide, not_misuse_of_allGone hrun⟩

/-- The worker has taken itself out of `lIndex` when `Destroy` reads it, and its last
`Signal` comes when the pool has been deleted. -/
def lateSignal : List Act :=
  [.execute, .worker 0, .main, .worker 0, .destroy, .main, .main, .worker 0, .worker 0,
    .main, .main, .main, .worker 0]

theorem misuse_lateSignal :
    ¬ ∀ (n : ℕ) (s : ThreadPool), Reach step (fun _ _ => True) (start n) s → s.misuse = false := by
  intro h
  have hrun : Reach step (fun _ _ => True) (start 1) (lateSignal.foldl step (start 1)) :=
    Reach.start.of_list lateSignal (by decide)
  exact absurd (h 1 _ hrun) (by decide)

end ThreadPool
