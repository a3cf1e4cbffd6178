import QService.Runs

/-!
# The readers-writer lock

`CRWLock` makes a lock for readers and writers out of two critical sections, a counter
and a flag. A writer holds both sections as long as it writes. A reader holds the first
one only while it comes in; the first reader enters the second one for all of them,
and the last one leaves it.

But a critical section belongs to a thread. It can be left only by the thread that has
entered it, and that thread can enter it again. So the reader that came first has to
go last: as long as it does (`Orderly`), no one writes while another thread reads or
writes, every section is left by its owner, and there is always a thread that can
go on (`safe`). When it goes earlier, the last reader leaves a section that is not its
own (`misused_of_not_orderly`), and the first can become a writer while the others
read (`not_safe`).

This is the lock on Windows. Elsewhere `CRWLock` is a `pthread_rwlock_t`.
-/

/-! ## Critical sections -/

/-- A `CRITICAL_SECTION`: the thread that has entered it, and how often. -/
structure CriticalSection where
  owner : Option ℕ
  count : ℕ
  deriving DecidableEq, Repr

namespace CriticalSection

/-- No one is in the section. -/
def free : CriticalSection := ⟨none, 0⟩

/-- A thread has entered the section once. -/
def held (t : ℕ) : CriticalSection := ⟨some t, 1⟩

/-- `EnterCriticalSection`: the owner may enter again, and others have to wait. -/
def enter (C : CriticalSection) (t : ℕ) : Option CriticalSection :=
  if C.owner = none ∨ C.owner = some t then some ⟨some t, C.count + 1⟩ else none

/-- `LeaveCriticalSection`. It is an error if the thread is not the owner. -/
def leave (C : CriticalSection) (t : ℕ) : Option CriticalSection :=
  if C.owner = some t then
    some (if C.count = 1 then free else ⟨some t, C.count - 1⟩)
  else none

theorem enter_free (t : ℕ) : free.enter t = some (held t) := rfl

theorem enter_held {t u : ℕ} (h : u ≠ t) : (held u).enter t = none := by
  rw [enter, if_neg]
  rintro (hu | hu)
  · cases hu
  · exact h (Option.some.inj hu)

theorem leave_held (t : ℕ) : (held t).leave t = some free := by
  have howner : (held t).owner = some t := rfl
  rw [leave, if_pos howner]
  rfl

theorem held_inj {t u : ℕ} (h : held t = held u) : t = u :=
  Option.some.inj (congrArg owner h)

theorem held_ne_free (t : ℕ) : held t ≠ free := by
  intro h
  cases congrArg owner h

/-- The section is held by the thread, if there is one, that is in the code it guards. -/
structure Guards {π : Type*} (C : CriticalSection) (inside : π → Bool) (threads : List π) :
    Prop where
  owner : ∀ t p, threads[t]? = some p → inside p = true → C = held t
  cases : C = free ∨ ∃ t p, threads[t]? = some p ∧ inside p = true ∧ C = held t

variable {π : Type*} {C C' : CriticalSection} {inside : π → Bool} {threads : List π} {t : ℕ}
variable {p p' : π}

/-- A thread that moves is where it moves to, and the others are where they were. -/
theorem getElem?_move (hp : threads[t]? = some p) (p' : π) (u : ℕ) :
    (threads.set t p')[u]? = if u = t then some p' else threads[u]? := by
  have hlt := (List.getElem?_eq_some_iff.mp hp).1
  rw [List.getElem?_set]
  by_cases hu : u = t
  · rw [if_pos hu.symm, if_pos hu, if_pos hlt]
  · rw [if_neg (Ne.symm hu), if_neg hu]

/-- A thread moves inside the code, or outside. -/
theorem Guards.move (h : C.Guards inside threads) (hp : threads[t]? = some p)
    (hsame : inside p' = inside p) : C.Guards inside (threads.set t p') where
  owner u q hq hin := by
    rw [getElem?_move hp] at hq
    split_ifs at hq with hu
    · cases hq
      rw [hu]
      exact h.owner t p hp (hsame ▸ hin)
    · exact h.owner u q hq hin
  cases := by
    refine h.cases.imp_right ?_
    rintro ⟨u, q, hq, hin, hC⟩
    by_cases hu : u = t
    · subst hu
      rw [hp] at hq
      cases hq
      exact ⟨u, p', by rw [getElem?_move hp, if_pos rfl], hsame.trans hin, hC⟩
    · exact ⟨u, q, by rw [getElem?_move hp, if_neg hu, hq], hin, hC⟩

/-- **A thread comes in** only if no one is there. -/
theorem Guards.enter (h : C.Guards inside threads) (hp : threads[t]? = some p)
    (hout : inside p = false) (hin : inside p' = true) (henter : C.enter t = some C') :
    C = free ∧ C' = held t ∧ C'.Guards inside (threads.set t p') := by
  have hfree : C = free := by
    rcases h.cases with hC | ⟨u, q, hq, hqin, rfl⟩
    · exact hC
    · by_cases hu : u = t
      · subst hu
        rw [hp] at hq
        cases hq
        rw [hout] at hqin
        cases hqin
      · rw [enter_held hu] at henter
        cases henter
  subst hfree
  rw [enter_free] at henter
  cases henter
  refine ⟨rfl, rfl, fun u q hq hqin => ?_, .inr ⟨t, p', ?_, hin, rfl⟩⟩
  · rw [getElem?_move hp] at hq
    split_ifs at hq with hu
    · rw [hu]
    · exact absurd (h.owner u q hq hqin).symm (held_ne_free u)
  · rw [getElem?_move hp, if_pos rfl]

/-- **A thread goes out**, and no one is there. -/
theorem Guards.leave (h : C.Guards inside threads) (hp : threads[t]? = some p)
    (hin : inside p = true) (hout : inside p' = false) :
    C.leave t = some free ∧ free.Guards inside (threads.set t p') := by
  have hC := h.owner t p hp hin
  subst hC
  refine ⟨leave_held t, fun u q hq hqin => ?_, .inl rfl⟩
  rw [getElem?_move hp] at hq
  split_ifs at hq with hu
  · cases hq
    rw [hout] at hqin
    cases hqin
  · exact absurd (held_inj (h.owner u q hq hqin)).symm hu

/-- There is one thread at most in the code. -/
theorem Guards.unique (h : C.Guards inside threads) (hp : threads[t]? = some p)
    (hin : inside p = true) {u : ℕ} {q : π} (hq : threads[u]? = some q)
    (hqin : inside q = true) : u = t :=
  held_inj ((h.owner u q hq hqin).symm.trans (h.owner t p hp hin))

end CriticalSection

/-! ## The lock -/

/-- Where a thread is: what it does next in `readLock`, `writeLock` or `unLock`. -/
inductive LockPc
  | idle
  /-- in `readLock`, in the first section: before the counter is incremented -/
  | increment
  /-- before the first reader enters the second section -/
  | enterRead
  /-- before the first section is left -/
  | leaveWrite
  /-- `readLock` has returned -/
  | reading
  /-- in `writeLock`, in the first section: before the second is entered -/
  | writerEnter
  /-- before the flag is set -/
  | setWriter
  /-- `writeLock` has returned -/
  | writing
  /-- in `unLock`, where the flag was found set: before it is cleared -/
  | clearWriter
  /-- before the second section is left, and then the first -/
  | writerLeaveRead
  | writerLeaveWrite
  /-- in `unLock`, where the flag was not found set: before the counter is decremented -/
  | decrement
  /-- before the last reader leaves the second section -/
  | lastLeave
  deriving DecidableEq, Repr

namespace LockPc

/-- The thread is in the first section. -/
def inWrite : LockPc → Bool
  | .increment | .enterRead | .leaveWrite | .writerEnter | .setWriter | .writing | .clearWriter
  | .writerLeaveRead | .writerLeaveWrite => true
  | .idle | .reading | .decrement | .lastLeave => false

/-- The thread is counted as a reader. -/
def counted : LockPc → Bool
  | .enterRead | .leaveWrite | .reading | .decrement => true
  | .idle | .increment | .writerEnter | .setWriter | .writing | .clearWriter | .writerLeaveRead
  | .writerLeaveWrite | .lastLeave => false

/-- The thread reads, under the second section that one of the readers has entered. -/
def reader : LockPc → Bool
  | .leaveWrite | .reading | .decrement => true
  | .idle | .increment | .enterRead | .writerEnter | .setWriter | .writing | .clearWriter
  | .writerLeaveRead | .writerLeaveWrite | .lastLeave => false

/-- The thread has the second section for itself. -/
def exclusive : LockPc → Bool
  | .setWriter | .writing | .clearWriter | .writerLeaveRead | .lastLeave => true
  | .idle | .increment | .enterRead | .leaveWrite | .reading | .writerEnter | .writerLeaveWrite
  | .decrement => false

/-- The flag is set. -/
def flagged : LockPc → Bool
  | .writing | .clearWriter => true
  | .idle | .increment | .enterRead | .leaveWrite | .reading | .writerEnter | .setWriter
  | .writerLeaveRead | .writerLeaveWrite | .decrement | .lastLeave => false

theorem counted_cases {p : LockPc} (h : p.counted = true) : p = .enterRead ∨ p.reader = true := by
  cases p <;> simp_all [counted, reader]

theorem counted_of_reader {p : LockPc} (h : p.reader = true) : p.counted = true := by
  cases p <;> first | rfl | cases h

theorem not_exclusive_of_reader {p : LockPc} (h : p.reader = true) : p.exclusive = false := by
  cases p <;> first | rfl | cases h

theorem exclusive_of_flagged {p : LockPc} (h : p.flagged = true) : p.exclusive = true := by
  cases p <;> first | rfl | cases h

end LockPc

/-- A `CRWLock` and the threads that use it. -/
structure RWLock where
  /-- `m_Write_Lock`, the first section -/
  write : CriticalSection
  /-- `m_Read_Lock`, the second section -/
  read : CriticalSection
  /-- `m_lReader_Count`. There are fewer threads than a `LONG` can count. -/
  lReader_Count : ℤ
  bEnter_Writer : Bool
  threads : List LockPc
  /-- a section was left by a thread that is not its owner -/
  misused : Bool
  deriving DecidableEq, Repr

namespace RWLock

open CriticalSection LockPc

/-- What can happen next: a thread calls `readLock` or `writeLock`, or goes on in its call;
where a call has returned, it goes on with `unLock`. -/
inductive Act
  | readLock (t : ℕ)
  | writeLock (t : ℕ)
  | step (t : ℕ)
  deriving DecidableEq, Repr

/-- A thread has come to its next point. -/
def goTo (S : RWLock) (t : ℕ) (p : LockPc) : RWLock := { S with threads := S.threads.set t p }

/-- A thread leaves the first section. -/
def leaveWriteSection (S : RWLock) (t : ℕ) (p : LockPc) : RWLock :=
  match S.write.leave t with
  | some C => { S with write := C }.goTo t p
  | none => { S with misused := true }

/-- A thread leaves the second section. -/
def leaveReadSection (S : RWLock) (t : ℕ) (p : LockPc) : RWLock :=
  match S.read.leave t with
  | some C => { S with read := C }.goTo t p
  | none => { S with misused := true }

/-- The next step of a thread, or nothing if it has to wait. -/
def stepAt (S : RWLock) (t : ℕ) : LockPc → Option RWLock
  | .idle => none
  | .increment =>
    -- `ReadLock_Lock == InterlockedIncrement`
    let S := { S with lReader_Count := S.lReader_Count + 1 }
    some (S.goTo t (if S.lReader_Count = 1 then .enterRead else .leaveWrite))
  | .enterRead => (S.read.enter t).map fun C => { S with read := C }.goTo t .leaveWrite
  | .leaveWrite => some (S.leaveWriteSection t .reading)
  | .reading | .writing => some (S.goTo t (if S.bEnter_Writer then .clearWriter else .decrement))
  | .writerEnter => (S.read.enter t).map fun C => { S with read := C }.goTo t .setWriter
  | .setWriter => some ({ S with bEnter_Writer := true }.goTo t .writing)
  | .clearWriter => some ({ S with bEnter_Writer := false }.goTo t .writerLeaveRead)
  | .writerLeaveRead => some (S.leaveReadSection t .writerLeaveWrite)
  | .writerLeaveWrite => some (S.leaveWriteSection t .idle)
  | .decrement =>
    -- `ReadLock_UnLock == InterlockedDecrement`
    let S := { S with lReader_Count := S.lReader_Count - 1 }
    some (S.goTo t (if S.lReader_Count = 0 then .lastLeave else .idle))
  | .lastLeave => some (S.leaveReadSection t .idle)

/-- What happens, or nothing if it cannot happen now. -/
def act (S : RWLock) : Act → Option RWLock
  | .readLock t =>
    if S.threads[t]? = some .idle then
      (S.write.enter t).map fun C => { S with write := C }.goTo t .increment
    else none
  | .writeLock t =>
    if S.threads[t]? = some .idle then
      (S.write.enter t).map fun C => { S with write := C }.goTo t .writerEnter
    else none
  | .step t =>
    match S.threads[t]? with
    | some p => S.stepAt t p
    | none => none

/-- A step of the system. -/
def next (S : RWLock) (a : Act) : RWLock := (S.act a).getD S

/-- `n` threads, and a new lock. -/
def start (n : ℕ) : RWLock := ⟨.free, .free, 0, false, List.replicate n .idle, false⟩

/-- **The reader that has the second section goes last.** -/
def Orderly (S : RWLock) : Act → Prop
  | .step t =>
    S.threads[t]? = some .decrement → S.read.owner = some t → S.lReader_Count = 1
  | .readLock _ | .writeLock _ => True

/-! ## The second section -/

/-- What the second section says of the threads. -/
structure Second (C : CriticalSection) (threads : List LockPc) : Prop where
  exclusive : ∀ (t : ℕ) (p : LockPc), threads[t]? = some p → p.exclusive = true → C = held t
  reader : ∀ (t : ℕ) (p : LockPc), threads[t]? = some p → p.reader = true →
    ∃ (u : ℕ) (q : LockPc), threads[u]? = some q ∧ q.reader = true ∧ C = held u
  cases : C = free ∨
    ∃ (u : ℕ) (q : LockPc), threads[u]? = some q ∧ (q.reader = true ∨ q.exclusive = true) ∧
      C = held u
  /-- The first reader is alone. -/
  entering : ∀ t : ℕ, threads[t]? = some .enterRead →
    ∀ (u : ℕ) (q : LockPc), threads[u]? = some q → q.reader = false

namespace Second

variable {C C' : CriticalSection} {threads : List LockPc} {t : ℕ} {p p' : LockPc}

/-- No one reads while a thread has the section for itself. -/
theorem reader_eq_false (h : Second C threads) (hp : threads[t]? = some p)
    (hex : p.exclusive = true) {u : ℕ} {q : LockPc} (hq : threads[u]? = some q) :
    q.reader = false := by
  by_contra hread
  obtain ⟨v, r, hr, hrread, hC⟩ := h.reader u q hq (Bool.not_eq_false _ ▸ hread)
  have hvt := held_inj (hC.symm.trans (h.exclusive t p hp hex))
  subst hvt
  rw [hp] at hr
  cases hr
  rw [not_exclusive_of_reader hrread] at hex
  cases hex

/-- A section that is free has no one in it. -/
theorem not_of_free (h : Second free threads) (hp : threads[t]? = some p) :
    p.reader = false ∧ p.exclusive = false := by
  constructor
  · by_contra hread
    obtain ⟨u, q, -, -, hC⟩ := h.reader t p hp (Bool.not_eq_false _ ▸ hread)
    exact held_ne_free u hC.symm
  · by_contra hex
    exact held_ne_free t (h.exclusive t p hp (Bool.not_eq_false _ ▸ hex)).symm

/-- A section that has no one in it is free. -/
theorem eq_free_of_enter (h : Second C threads) (hp : threads[t]? = some p)
    (hread : p.reader = false) (hex : p.exclusive = false) (henter : C.enter t = some C') :
    C = free ∧ C' = held t := by
  rcases h.cases with rfl | ⟨u, q, hq, hin, rfl⟩
  · rw [enter_free] at henter
    cases henter
    exact ⟨rfl, rfl⟩
  · by_cases hu : u = t
    · subst hu
      rw [hp] at hq
      cases hq
      rw [hread, hex] at hin
      rcases hin with hin | hin <;> cases hin
    · rw [enter_held hu] at henter
      cases henter

/-- A thread moves without reading or ceasing to, and comes first only if no one reads. -/
theorem move (h : Second C threads) (hp : threads[t]? = some p) (hread : p'.reader = p.reader)
    (hex : p'.exclusive = p.exclusive)
    (hfirst : p' = .enterRead →
      ∀ (u : ℕ) (q : LockPc), threads[u]? = some q → q.reader = false) :
    Second C (threads.set t p') := by
  have hback : ∀ (u : ℕ) (q : LockPc), (threads.set t p')[u]? = some q →
      ∃ q' : LockPc, threads[u]? = some q' ∧ q.reader = q'.reader ∧
        q.exclusive = q'.exclusive := by
    intro u q hq
    rw [getElem?_move hp] at hq
    split_ifs at hq with hu
    · cases hq
      exact ⟨p, hu ▸ hp, hread, hex⟩
    · exact ⟨q, hq, rfl, rfl⟩
  have hforth : ∀ (u : ℕ) (q : LockPc), threads[u]? = some q →
      ∃ q' : LockPc, (threads.set t p')[u]? = some q' ∧ q'.reader = q.reader ∧
        q'.exclusive = q.exclusive := by
    intro u q hq
    by_cases hu : u = t
    · subst hu
      rw [hp] at hq
      cases hq
      exact ⟨p', by rw [getElem?_move hp, if_pos rfl], hread, hex⟩
    · exact ⟨q, by rw [getElem?_move hp, if_neg hu, hq], rfl, rfl⟩
  refine ⟨fun u q hq hqex => ?_, fun u q hq hqread => ?_, ?_, fun u hu v q hq => ?_⟩
  · obtain ⟨q', hq', -, heq⟩ := hback u q hq
    exact h.exclusive u q' hq' (heq ▸ hqex)
  · obtain ⟨q', hq', heq, -⟩ := hback u q hq
    obtain ⟨v, r, hr, hrread, hC⟩ := h.reader u q' hq' (heq ▸ hqread)
    obtain ⟨r', hr', heq', -⟩ := hforth v r hr
    exact ⟨v, r', hr', heq'.trans hrread, hC⟩
  · refine h.cases.imp_right ?_
    rintro ⟨v, r, hr, hin, hC⟩
    obtain ⟨r', hr', heq, heq'⟩ := hforth v r hr
    exact ⟨v, r', hr', by rwa [heq, heq'], hC⟩
  · obtain ⟨q', hq', heq, -⟩ := hback v q hq
    rw [heq]
    rw [getElem?_move hp] at hu
    split_ifs at hu with hut
    · exact hfirst (Option.some.inj hu) v q' hq'
    · exact h.entering u hu v q' hq'

/-- **The section is entered**, by a reader for all of them or by a writer. -/
theorem enter (h : Second C threads) (hp : threads[t]? = some p) (hread : p.reader = false)
    (hex : p.exclusive = false) (henter : C.enter t = some C')
    (hin : p'.reader = true ∨ p'.exclusive = true)
    (hother : ∀ u : ℕ, u ≠ t → threads[u]? ≠ some .enterRead) :
    Second C' (threads.set t p') := by
  obtain ⟨rfl, rfl⟩ := h.eq_free_of_enter hp hread hex henter
  have hself : (threads.set t p')[t]? = some p' := by rw [getElem?_move hp, if_pos rfl]
  have hold : ∀ {u : ℕ} {q : LockPc}, (threads.set t p')[u]? = some q → u ≠ t →
      q.reader = false ∧ q.exclusive = false := by
    intro u q hq hu
    rw [getElem?_move hp, if_neg hu] at hq
    exact h.not_of_free hq
  refine ⟨fun u q hq hqex => ?_, fun u q hq hqread => ?_, .inr ⟨t, p', hself, hin, rfl⟩,
    fun u hu v q hq => ?_⟩
  · by_cases hut : u = t
    · rw [hut]
    · rw [(hold hq hut).2] at hqex
      cases hqex
  · by_cases hut : u = t
    · subst hut
      rw [hself] at hq
      cases hq
      exact ⟨u, p', hself, hqread, rfl⟩
    · rw [(hold hq hut).1] at hqread
      cases hqread
  · by_cases hut : u = t
    · subst hut
      rw [hself] at hu
      cases hu
      rcases hin with hin | hin <;> cases hin
    · rw [getElem?_move hp, if_neg hut] at hu
      exact absurd hu (hother u hut)

/-- **The section is left** by the thread that has it for itself. -/
theorem leave (h : Second C threads) (hp : threads[t]? = some p) (hex : p.exclusive = true)
    (hread' : p'.reader = false) (hex' : p'.exclusive = false) :
    C.leave t = some free ∧ Second free (threads.set t p') := by
  have hC := h.exclusive t p hp hex
  subst hC
  have hnone : ∀ (u : ℕ) (q : LockPc), (threads.set t p')[u]? = some q →
      q.reader = false ∧ q.exclusive = false := by
    intro u q hq
    rw [getElem?_move hp] at hq
    split_ifs at hq with hu
    · cases hq
      exact ⟨hread', hex'⟩
    · refine ⟨h.reader_eq_false hp hex hq, ?_⟩
      by_contra hqex
      exact hu (held_inj (h.exclusive u q hq (Bool.not_eq_false _ ▸ hqex))).symm
  refine ⟨leave_held t, fun u q hq hqex => ?_, fun u q hq hqread => ?_, .inl rfl,
    fun u hu v q hq => (hnone v q hq).1⟩
  · rw [(hnone u q hq).2] at hqex
    cases hqex
  · rw [(hnone u q hq).1] at hqread
    cases hqread

/-- A reader joins others. -/
theorem join (h : Second C threads) (hp : threads[t]? = some p) (hex' : p'.exclusive = false)
    (hread' : p'.reader = true) (hread : p.reader = false)
    (hother : ∃ (u : ℕ) (q : LockPc), threads[u]? = some q ∧ q.reader = true)
    (hentering : ∀ u : ℕ, threads[u]? ≠ some .enterRead) : Second C (threads.set t p') := by
  obtain ⟨u, q, hq, hqread⟩ := hother
  obtain ⟨v, r, hr, hrread, hC⟩ := h.reader u q hq hqread
  have hvt : v ≠ t := by
    rintro rfl
    rw [hp] at hr
    cases hr
    rw [hread] at hrread
    cases hrread
  have hr' : (threads.set t p')[v]? = some r := by rw [getElem?_move hp, if_neg hvt, hr]
  refine ⟨fun w q' hq' hqex => ?_, fun _ _ _ _ => ⟨v, r, hr', hrread, hC⟩,
    .inr ⟨v, r, hr', .inl hrread, hC⟩, fun w hw => ?_⟩
  · rw [getElem?_move hp] at hq'
    split_ifs at hq' with hw
    · cases hq'
      rw [hex'] at hqex
      cases hqex
    · exact h.exclusive w q' hq' hqex
  · rw [getElem?_move hp] at hw
    split_ifs at hw with hwt
    · cases Option.some.inj hw
      cases hread'
    · exact absurd hw (hentering w)

/-- A reader goes that is not the one which has entered the section. -/
theorem goes (h : Second C threads) (hp : threads[t]? = some p) (hread : p.reader = true)
    (hex' : p'.exclusive = false) (hne : p' ≠ .enterRead)
    (howner : C.owner ≠ some t) : Second C (threads.set t p') := by
  obtain ⟨v, r, hr, hrread, hC⟩ := h.reader t p hp hread
  have hvt : v ≠ t := by
    rintro rfl
    rw [hC] at howner
    exact howner rfl
  have hr' : (threads.set t p')[v]? = some r := by rw [getElem?_move hp, if_neg hvt, hr]
  refine ⟨fun w q hq hqex => ?_, fun _ _ _ _ => ⟨v, r, hr', hrread, hC⟩,
    .inr ⟨v, r, hr', .inl hrread, hC⟩, fun w hw => ?_⟩
  · rw [getElem?_move hp] at hq
    split_ifs at hq with hw
    · cases hq
      rw [hex'] at hqex
      cases hqex
    · exact h.exclusive w q hq hqex
  · rw [getElem?_move hp] at hw
    split_ifs at hw with hwt
    · exact absurd (Option.some.inj hw) hne
    · have hno := h.entering w hw v r hr
      rw [hrread] at hno
      cases hno

/-- The last reader has the section for itself. -/
theorem last (h : Second C threads) (hp : threads[t]? = some p) (hread : p.reader = true)
    (hex' : p'.exclusive = true)
    (halone : ∀ (u : ℕ) (q : LockPc), u ≠ t → threads[u]? = some q → q.reader = false) :
    Second C (threads.set t p') := by
  obtain ⟨v, r, hr, hrread, hC⟩ := h.reader t p hp hread
  have hvt : v = t := by
    by_contra hne
    rw [halone v r hne hr] at hrread
    cases hrread
  subst hvt
  have hself : (threads.set v p')[v]? = some p' := by rw [getElem?_move hp, if_pos rfl]
  have hread' : p'.reader = false := by
    by_contra hcon
    rw [not_exclusive_of_reader (Bool.not_eq_false _ ▸ hcon)] at hex'
    cases hex'
  have hno : ∀ (u : ℕ) (q : LockPc), (threads.set v p')[u]? = some q → q.reader = false := by
    intro u q hq
    rw [getElem?_move hp] at hq
    split_ifs at hq with hu
    · cases hq
      exact hread'
    · exact halone u q hu hq
  refine ⟨fun u q hq hqex => ?_, fun u q hq hqread => ?_, .inr ⟨v, p', hself, .inr hex', hC⟩,
    fun u _ w q hq => hno w q hq⟩
  · rw [getElem?_move hp] at hq
    split_ifs at hq with hu
    · rw [hu, hC]
    · exact h.exclusive u q hq hqex
  · rw [hno u q hq] at hqread
    cases hqread

end Second

/-! ## The invariant -/

/-- What holds between the steps. -/
structure Inv (S : RWLock) : Prop where
  write : S.write.Guards inWrite S.threads
  read : Second S.read S.threads
  count : S.lReader_Count = S.threads.countP counted
  flag : S.bEnter_Writer = true ↔
    ∃ (t : ℕ) (p : LockPc), S.threads[t]? = some p ∧ p.flagged = true
  misused : S.misused = false

variable {S : RWLock} {t : ℕ} {p p' : LockPc}

theorem countP_move {threads : List LockPc} (hp : threads[t]? = some p) (p' : LockPc) :
    (threads.set t p').countP counted + (counted p).toNat
      = threads.countP counted + (counted p').toNat := by
  obtain ⟨l₁, l₂, hl, hset⟩ := exists_split_set hp
  rw [hset, hl, List.countP_append, List.countP_append, List.countP_cons, List.countP_cons]
  cases counted p <;> cases counted p' <;> simp <;> omega

/-- A thread that moves leaves the flag as it is, if it has nothing to do with it. -/
theorem flagged_move {threads : List LockPc} (hp : threads[t]? = some p) (p' : LockPc)
    (hsame : p'.flagged = p.flagged) :
    (∃ (u : ℕ) (q : LockPc), (threads.set t p')[u]? = some q ∧ q.flagged = true) ↔
      ∃ (u : ℕ) (q : LockPc), threads[u]? = some q ∧ q.flagged = true := by
  constructor
  · rintro ⟨u, q, hq, hflag⟩
    rw [getElem?_move hp] at hq
    split_ifs at hq with hu
    · cases hq
      exact ⟨t, p, hp, hsame ▸ hflag⟩
    · exact ⟨u, q, hq, hflag⟩
  · rintro ⟨u, q, hq, hflag⟩
    by_cases hu : u = t
    · subst hu
      rw [hp] at hq
      cases hq
      exact ⟨u, p', by rw [getElem?_move hp, if_pos rfl], hsame.trans hflag⟩
    · exact ⟨u, q, by rw [getElem?_move hp, if_neg hu, hq], hflag⟩

namespace Inv

/-- A step that does nothing to the counter and the flag. -/
theorem goTo (h : S.Inv) (hp : S.threads[t]? = some p) (p' : LockPc)
    (hcount : p'.counted = p.counted) (hflag : p'.flagged = p.flagged) {C C' : CriticalSection}
    (hwrite : C.Guards inWrite (S.threads.set t p')) (hread : Second C' (S.threads.set t p')) :
    ({ S with write := C, read := C' }.goTo t p').Inv where
  write := hwrite
  read := hread
  count := by
    have hmove := countP_move hp p'
    rw [hcount, Nat.add_right_cancel_iff] at hmove
    exact h.count.trans (congrArg Nat.cast hmove.symm)
  flag := h.flag.trans (flagged_move hp p' hflag).symm
  misused := h.misused

/-- The first section is left. -/
theorem leaveWriteSection (h : S.Inv) (hp : S.threads[t]? = some p) (hin : p.inWrite = true)
    (hout : p'.inWrite = false) (hread : p'.reader = p.reader) (hex : p'.exclusive = p.exclusive)
    (hne : p' ≠ .enterRead) (hcount : p'.counted = p.counted) (hflag : p'.flagged = p.flagged) :
    (S.leaveWriteSection t p').Inv := by
  obtain ⟨hleave, hguards⟩ := h.write.leave hp hin hout
  rw [RWLock.leaveWriteSection, hleave]
  exact h.goTo hp p' hcount hflag hguards (h.read.move hp hread hex fun heq => absurd heq hne)

/-- The second section is left. -/
theorem leaveReadSection (h : S.Inv) (hp : S.threads[t]? = some p) (hex : p.exclusive = true)
    (hread' : p'.reader = false) (hex' : p'.exclusive = false) (hin : p'.inWrite = p.inWrite)
    (hcount : p'.counted = p.counted) (hflag : p'.flagged = p.flagged) :
    (S.leaveReadSection t p').Inv := by
  obtain ⟨hleave, hsecond⟩ := h.read.leave hp hex hread' hex'
  rw [RWLock.leaveReadSection, hleave]
  exact h.goTo hp p' hcount hflag (h.write.move hp hin) hsecond

/-- The first section is entered. -/
theorem enterWriteSection (h : S.Inv) (hp : S.threads[t]? = some .idle) {C : CriticalSection}
    (henter : S.write.enter t = some C) (hin : p'.inWrite = true) (hread : p'.reader = false)
    (hex : p'.exclusive = false) (hne : p' ≠ .enterRead) (hcount : p'.counted = false)
    (hflag : p'.flagged = false) : ({ S with write := C }.goTo t p').Inv := by
  obtain ⟨-, -, hguards⟩ := h.write.enter hp rfl hin henter
  exact h.goTo hp p' hcount hflag hguards (h.read.move hp hread hex fun heq => absurd heq hne)

/-- The second section is entered. -/
theorem enterReadSection (h : S.Inv) (hp : S.threads[t]? = some p) {C : CriticalSection}
    (henter : S.read.enter t = some C) (hread : p.reader = false) (hex : p.exclusive = false)
    (hinside : p.inWrite = true) (hin : p'.reader = true ∨ p'.exclusive = true)
    (hwrite : p'.inWrite = true) (hcount : p'.counted = p.counted)
    (hflag : p'.flagged = p.flagged) : ({ S with read := C }.goTo t p').Inv := by
  have hother : ∀ u : ℕ, u ≠ t → S.threads[u]? ≠ some .enterRead := fun u hu hq =>
    hu (h.write.unique hp hinside hq rfl)
  exact h.goTo hp p' hcount hflag (h.write.move hp (hwrite.trans hinside.symm))
    (h.read.enter hp hread hex henter hin hother)

/-- **The counter tells the first reader from the others.** -/
theorem increment (h : S.Inv) (hp : S.threads[t]? = some .increment) :
    ({ S with lReader_Count := S.lReader_Count + 1 }.goTo t
      (if S.lReader_Count + 1 = 1 then .enterRead else .leaveWrite)).Inv := by
  -- no other thread is coming in
  have hentering : ∀ u : ℕ, S.threads[u]? ≠ some .enterRead := by
    intro u hq
    have hu := h.write.unique hp rfl hq rfl
    rw [hu, hp] at hq
    cases hq
  have hcount : ∀ p' : LockPc, p'.counted = true →
      S.lReader_Count + 1 = (S.threads.set t p').countP counted := by
    intro p' hp'
    have hmove := countP_move hp p'
    rw [hp'] at hmove
    have hc := h.count
    have hno : (counted .increment).toNat = 0 := rfl
    rw [hno] at hmove
    simp only [Bool.toNat_true] at hmove
    omega
  split_ifs with hone
  · have hnone : ∀ (u : ℕ) (q : LockPc), S.threads[u]? = some q → q.reader = false := by
      intro u q hq
      by_contra hread
      have hpos : 0 < S.threads.countP counted := List.countP_pos_iff.mpr
        ⟨q, List.mem_of_getElem? hq, counted_of_reader (Bool.not_eq_false _ ▸ hread)⟩
      have hc := h.count
      omega
    exact ⟨h.write.move hp rfl, h.read.move hp rfl rfl fun _ => hnone, hcount _ rfl,
      h.flag.trans (flagged_move hp .enterRead rfl).symm, h.misused⟩
  · have hother : ∃ (u : ℕ) (q : LockPc), S.threads[u]? = some q ∧ q.reader = true := by
      have hc := h.count
      have hpos : 0 < S.threads.countP counted := by
        have hnonneg : (0 : ℤ) ≤ S.threads.countP counted := Int.natCast_nonneg _
        omega
      obtain ⟨q, hmem, hq⟩ := List.countP_pos_iff.mp hpos
      obtain ⟨u, hu⟩ := List.getElem?_of_mem hmem
      rcases counted_cases hq with rfl | hread
      · exact absurd hu (hentering u)
      · exact ⟨u, q, hu, hread⟩
    exact ⟨h.write.move hp rfl, h.read.join hp rfl rfl rfl hother hentering, hcount _ rfl,
      h.flag.trans (flagged_move hp .leaveWrite rfl).symm, h.misused⟩

/-- **The reader that is counted last is the one that has the second section.** -/
theorem decrement (h : S.Inv) (hp : S.threads[t]? = some .decrement)
    (hlast : S.read.owner = some t → S.lReader_Count = 1) :
    ({ S with lReader_Count := S.lReader_Count - 1 }.goTo t
      (if S.lReader_Count - 1 = 0 then .lastLeave else .idle)).Inv := by
  have hcount : ∀ p' : LockPc, p'.counted = false →
      S.lReader_Count - 1 = (S.threads.set t p').countP counted := by
    intro p' hp'
    have hmove := countP_move hp p'
    rw [hp'] at hmove
    have hc := h.count
    have hyes : (counted .decrement).toNat = 1 := rfl
    rw [hyes] at hmove
    simp only [Bool.toNat_false] at hmove
    omega
  split_ifs with hzero
  · have halone : ∀ (u : ℕ) (q : LockPc), u ≠ t → S.threads[u]? = some q → q.reader = false := by
      intro u q hu hq
      by_contra hread
      have hq' : (S.threads.set t .lastLeave)[u]? = some q := by
        rw [getElem?_move hp, if_neg hu, hq]
      have hpos : 0 < (S.threads.set t .lastLeave).countP counted := List.countP_pos_iff.mpr
        ⟨q, List.mem_of_getElem? hq', counted_of_reader (Bool.not_eq_false _ ▸ hread)⟩
      have hc := hcount .lastLeave rfl
      omega
    exact ⟨h.write.move hp rfl, h.read.last hp rfl rfl halone, hcount _ rfl,
      h.flag.trans (flagged_move hp .lastLeave rfl).symm, h.misused⟩
  · have howner : S.read.owner ≠ some t := fun heq => hzero (by rw [hlast heq]; rfl)
    have hne : LockPc.idle ≠ .enterRead := by decide
    exact ⟨h.write.move hp rfl, h.read.goes hp rfl rfl hne howner, hcount _ rfl,
      h.flag.trans (flagged_move hp .idle rfl).symm, h.misused⟩

/-- No flag is set while a thread reads, -/
theorem flag_of_reader (h : S.Inv) (hp : S.threads[t]? = some p) (hread : p.reader = true) :
    S.bEnter_Writer = false := by
  by_contra hflag
  obtain ⟨u, q, hq, hqflag⟩ := h.flag.mp (Bool.not_eq_false _ ▸ hflag)
  rw [h.read.reader_eq_false hq (exclusive_of_flagged hqflag) hp] at hread
  cases hread

/-- and it is set and cleared by the one writer. -/
theorem setFlag (h : S.Inv) (hp : S.threads[t]? = some p) (hwrite : p'.inWrite = p.inWrite)
    (hread : p'.reader = p.reader) (hex : p.exclusive = true) (hex' : p'.exclusive = true)
    (hcount : p'.counted = p.counted) :
    ({ S with bEnter_Writer := p'.flagged }.goTo t p').Inv := by
  have hne : p' ≠ .enterRead := by
    rintro rfl
    cases hex'
  have hmove := countP_move hp p'
  rw [hcount, Nat.add_right_cancel_iff] at hmove
  refine ⟨h.write.move hp hwrite, h.read.move hp hread (hex'.trans hex.symm)
    fun heq => absurd heq hne, h.count.trans (congrArg Nat.cast hmove.symm), ?_, h.misused⟩
  have hself : (S.threads.set t p')[t]? = some p' := by rw [getElem?_move hp, if_pos rfl]
  refine ⟨fun hflag => ⟨t, p', hself, hflag⟩, ?_⟩
  rintro ⟨u, q, hq, hflag⟩
  have hq' : (S.threads.set t p')[u]? = some q := hq
  rw [getElem?_move hp] at hq'
  split_ifs at hq' with hu
  · cases hq'
    exact hflag
  · have hsame := held_inj ((h.read.exclusive u q hq' (exclusive_of_flagged hflag)).symm.trans
      (h.read.exclusive t p hp hex))
    exact absurd hsame hu

/-- **A step of a thread keeps the invariant.** -/
theorem stepAt (h : S.Inv) (hp : S.threads[t]? = some p)
    (hok : p = .decrement → S.read.owner = some t → S.lReader_Count = 1) {S' : RWLock}
    (hstep : S.stepAt t p = some S') : S'.Inv := by
  cases p with
  | idle => cases hstep
  | increment =>
    cases hstep
    exact h.increment hp
  | enterRead =>
    obtain ⟨C, henter, rfl⟩ := Option.map_eq_some_iff.mp hstep
    exact h.enterReadSection hp henter rfl rfl rfl (.inl rfl) rfl rfl rfl
  | leaveWrite =>
    cases hstep
    exact h.leaveWriteSection hp rfl rfl rfl rfl (by decide) rfl rfl
  | reading =>
    cases hstep
    rw [h.flag_of_reader hp rfl]
    have hgo : ({ S with write := S.write, read := S.read }.goTo t .decrement).Inv :=
      h.goTo hp .decrement rfl rfl (h.write.move hp rfl)
        (h.read.move hp rfl rfl fun heq => nomatch heq)
    exact hgo
  | writerEnter =>
    obtain ⟨C, henter, rfl⟩ := Option.map_eq_some_iff.mp hstep
    exact h.enterReadSection hp henter rfl rfl rfl (.inr rfl) rfl rfl rfl
  | setWriter =>
    cases hstep
    have hset : ({ S with bEnter_Writer := LockPc.writing.flagged }.goTo t .writing).Inv :=
      h.setFlag hp rfl rfl rfl rfl rfl
    exact hset
  | writing =>
    cases hstep
    rw [h.flag.mpr ⟨t, .writing, hp, rfl⟩]
    have hgo : ({ S with write := S.write, read := S.read }.goTo t .clearWriter).Inv :=
      h.goTo hp .clearWriter rfl rfl (h.write.move hp rfl)
        (h.read.move hp rfl rfl fun heq => nomatch heq)
    exact hgo
  | clearWriter =>
    cases hstep
    have hclear : ({ S with bEnter_Writer := LockPc.writerLeaveRead.flagged }.goTo t
        .writerLeaveRead).Inv := h.setFlag hp rfl rfl rfl rfl rfl
    exact hclear
  | writerLeaveRead =>
    cases hstep
    exact h.leaveReadSection hp rfl rfl rfl rfl rfl rfl
  | writerLeaveWrite =>
    cases hstep
    exact h.leaveWriteSection hp rfl rfl rfl rfl (by decide) rfl rfl
  | decrement =>
    cases hstep
    exact h.decrement hp (hok rfl)
  | lastLeave =>
    cases hstep
    exact h.leaveReadSection hp rfl rfl rfl rfl rfl rfl

/-- **Every step keeps the invariant**, as long as the steps are orderly. -/
theorem next (h : S.Inv) {a : Act} (hok : S.Orderly a) : (S.next a).Inv := by
  unfold RWLock.next
  cases hact : S.act a with
  | none => exact h
  | some S' =>
    rw [Option.getD_some]
    cases a with
    | readLock t =>
      unfold RWLock.act at hact
      dsimp only at hact
      split_ifs at hact with hidle
      obtain ⟨C, henter, rfl⟩ := Option.map_eq_some_iff.mp hact
      exact h.enterWriteSection hidle henter rfl rfl rfl (by decide) rfl rfl
    | writeLock t =>
      unfold RWLock.act at hact
      dsimp only at hact
      split_ifs at hact with hidle
      obtain ⟨C, henter, rfl⟩ := Option.map_eq_some_iff.mp hact
      exact h.enterWriteSection hidle henter rfl rfl rfl (by decide) rfl rfl
    | step t =>
      unfold RWLock.act at hact
      dsimp only at hact
      cases hp : S.threads[t]? with
      | none =>
        rw [hp] at hact
        cases hact
      | some p =>
        rw [hp] at hact
        exact h.stepAt hp (fun heq => hok (heq ▸ hp)) hact

theorem start (n : ℕ) : (start n).Inv := by
  have hidle : ∀ (t : ℕ) (p : LockPc), (List.replicate n LockPc.idle)[t]? = some p → p = .idle := by
    intro t p hp
    exact List.eq_of_mem_replicate (List.mem_of_getElem? hp)
  refine ⟨⟨fun t p hp hin => ?_, .inl rfl⟩, ⟨fun t p hp hex => ?_, fun t p hp hread => ?_, .inl rfl,
    fun t hp => ?_⟩, ?_, ⟨fun hflag => (nomatch hflag), ?_⟩, rfl⟩
  · rw [hidle t p hp] at hin
    cases hin
  · rw [hidle t p hp] at hex
    cases hex
  · rw [hidle t p hp] at hread
    cases hread
  · cases hidle t _ hp
  · show (0 : ℤ) = (List.replicate n LockPc.idle).countP counted
    rw [List.countP_replicate, if_neg (by decide)]
    rfl
  · rintro ⟨t, p, hp, hflag⟩
    rw [hidle t p hp] at hflag
    cases hflag

/-- A thread can go on at once, unless it has to wait for the second section. -/
theorem isSome_stepAt (S : RWLock) (t : ℕ) (hidle : p ≠ .idle) (henter : p ≠ .enterRead)
    (hwriter : p ≠ .writerEnter) : (S.stepAt t p).isSome := by
  cases p with
  | idle => exact absurd rfl hidle
  | enterRead => exact absurd rfl henter
  | writerEnter => exact absurd rfl hwriter
  | _ => rfl

/-- A reader that has the second section and no one beside it is counted alone. -/
theorem count_eq_one (h : S.Inv) (hp : S.threads[t]? = some .decrement)
    (halone : ∀ (u : ℕ) (q : LockPc), u ≠ t → S.threads[u]? = some q → q.reader = false) :
    S.lReader_Count = 1 := by
  have hzero : (S.threads.set t .idle).countP counted = 0 := by
    refine List.countP_eq_zero.mpr fun q hq hcounted => ?_
    obtain ⟨u, hu⟩ := List.getElem?_of_mem hq
    rw [getElem?_move hp] at hu
    split_ifs at hu with hut
    · cases hu
      cases hcounted
    · rcases counted_cases hcounted with rfl | hread
      · -- the first reader is alone
        cases h.read.entering u hu t _ hp
      · rw [halone u q hut hu] at hread
        cases hread
  have hmove := countP_move hp .idle
  rw [hzero] at hmove
  have hc := h.count
  have hyes : (counted .decrement).toNat = 1 := rfl
  have hno : (counted .idle).toNat = 0 := rfl
  omega

/-- **There is always a thread that can go on**, if not all are outside of the lock. -/
theorem progress (h : S.Inv) (hbusy : ∃ (t : ℕ) (p : LockPc), S.threads[t]? = some p ∧ p ≠ .idle) :
    ∃ t, S.Orderly (.step t) ∧ (S.act (.step t)).isSome := by
  have hact : ∀ {t : ℕ} {p : LockPc}, S.threads[t]? = some p → S.act (.step t) = S.stepAt t p := by
    intro t p hp
    unfold RWLock.act
    dsimp only
    rw [hp]
  have horderly : ∀ {t : ℕ} {p : LockPc}, S.threads[t]? = some p → p ≠ .decrement →
      S.Orderly (.step t) := fun hp hne heq =>
    absurd (Option.some.inj (hp.symm.trans heq)) hne
  -- someone who has neither to wait nor to go last,
  by_cases hfree : ∃ (t : ℕ) (p : LockPc), S.threads[t]? = some p ∧ p ≠ .idle ∧ p ≠ .enterRead ∧
      p ≠ .writerEnter ∧ p ≠ .decrement
  · obtain ⟨t, p, hp, hidle, henter, hwriter, hdec⟩ := hfree
    exact ⟨t, horderly hp hdec, by rw [hact hp]; exact isSome_stepAt S t hidle henter hwriter⟩
  have hall : ∀ (t : ℕ) (p : LockPc), S.threads[t]? = some p →
      p = .idle ∨ p = .enterRead ∨ p = .writerEnter ∨ p = .decrement := by
    intro t p hp
    by_contra hno
    simp only [not_or] at hno
    exact hfree ⟨t, p, hp, hno.1, hno.2.1, hno.2.2.1, hno.2.2.2⟩
  have hreader : ∀ (t : ℕ) (p : LockPc), S.threads[t]? = some p → p.reader = true →
      p = .decrement := by
    intro t p hp hread
    rcases hall t p hp with rfl | rfl | rfl | rfl
    · cases hread
    · cases hread
    · cases hread
    · rfl
  by_cases hdec : ∃ t : ℕ, S.threads[t]? = some .decrement
  · -- or a reader that is not the first, or that one if it is alone,
    obtain ⟨t, hp⟩ := hdec
    obtain ⟨u, q, hq, hqread, hC⟩ := h.read.reader t _ hp rfl
    obtain rfl := hreader u q hq hqread
    by_cases hother : ∃ v : ℕ, v ≠ u ∧ S.threads[v]? = some .decrement
    · obtain ⟨v, hvu, hv⟩ := hother
      refine ⟨v, fun _ howner => ?_, by rw [hact hv]; rfl⟩
      rw [hC] at howner
      exact absurd (Option.some.inj howner).symm hvu
    · refine ⟨u, fun _ _ => h.count_eq_one hq fun v r hvu hr => ?_, by rw [hact hq]; rfl⟩
      by_contra hread
      obtain rfl := hreader v r hr (Bool.not_eq_false _ ▸ hread)
      exact hother ⟨v, hvu, hr⟩
  · -- or else the second section is free
    obtain ⟨t, p, hp, hidle⟩ := hbusy
    have hreadFree : S.read = .free := by
      rcases h.read.cases with hC | ⟨u, q, hq, hin, -⟩
      · exact hC
      · rcases hall u q hq with rfl | rfl | rfl | rfl
        · rcases hin with hin | hin <;> cases hin
        · rcases hin with hin | hin <;> cases hin
        · rcases hin with hin | hin <;> cases hin
        · exact absurd ⟨u, hq⟩ hdec
    refine ⟨t, horderly hp fun heq => hdec ⟨t, heq ▸ hp⟩, ?_⟩
    rw [hact hp]
    rcases hall t p hp with rfl | rfl | rfl | rfl
    · exact absurd rfl hidle
    · rw [RWLock.stepAt, hreadFree, enter_free]
      rfl
    · rw [RWLock.stepAt, hreadFree, enter_free]
      rfl
    · exact absurd ⟨t, hp⟩ hdec

end Inv

/-! ## When the first reader goes earlier -/

/-- The thread that has entered the second section for the readers has gone, and they are still
there. -/
structure Abandoned (S : RWLock) (t : ℕ) : Prop where
  write : S.write.Guards inWrite S.threads
  owner : S.read.owner = some t
  gone : S.threads[t]? = some .idle
  flag : S.bEnter_Writer = false
  readers : ∀ (u : ℕ) (q : LockPc), S.threads[u]? = some q → q.counted = true → q.reader = true
  count : S.lReader_Count = S.threads.countP counted

namespace Abandoned

variable {u : ℕ}

theorem ne (h : S.Abandoned t) (hp : S.threads[u]? = some p) (hread : p.reader = true) : u ≠ t := by
  rintro rfl
  rw [h.gone] at hp
  cases hp
  cases hread

/-- A reader moves. -/
theorem goTo (h : S.Abandoned t) (hp : S.threads[u]? = some p) (hread : p.reader = true)
    (p' : LockPc) (hread' : p'.counted = true → p'.reader = true) {C : CriticalSection}
    (hwrite : C.Guards inWrite (S.threads.set u p')) {n : ℤ}
    (hn : n = (S.threads.set u p').countP counted) :
    ({ S with write := C, lReader_Count := n }.goTo u p').Abandoned t where
  write := hwrite
  owner := h.owner
  gone := by
    show (S.threads.set u p')[t]? = some .idle
    rw [getElem?_move hp, if_neg (h.ne hp hread).symm, h.gone]
  flag := h.flag
  readers v q hq hcounted := by
    have hq' : (S.threads.set u p')[v]? = some q := hq
    rw [getElem?_move hp] at hq'
    split_ifs at hq' with hv
    · cases hq'
      exact hread' hcounted
    · exact h.readers v q hq' hcounted
  count := hn

/-- A step of a thread, as the code has it. -/
theorem next_step (hp : S.threads[u]? = some p) {S' : RWLock} (hstep : S.stepAt u p = some S') :
    S.next (.step u) = S' := by
  unfold RWLock.next RWLock.act
  dsimp only
  rw [hp]
  dsimp only
  rw [hstep, Option.getD_some]

/-- The counter stays as a reader moves on. -/
theorem count_move (h : S.Abandoned t) (hp : S.threads[u]? = some p) (p' : LockPc)
    (hsame : p'.counted = p.counted) :
    S.lReader_Count = (S.threads.set u p').countP counted := by
  have hmove := countP_move hp p'
  rw [hsame, Nat.add_right_cancel_iff] at hmove
  exact h.count.trans (congrArg Nat.cast hmove.symm)

/-- A reader can come to the end of its call of `unLock`. -/
theorem to_decrement (h : S.Abandoned t) (hp : S.threads[u]? = some p) (hread : p.reader = true) :
    ∃ acts : List Act, (acts.foldl next S).Abandoned t ∧
      (acts.foldl next S).threads[u]? = some .decrement ∧
      (acts.foldl next S).lReader_Count = S.lReader_Count := by
  have hreading : ∀ {S : RWLock}, S.Abandoned t → S.threads[u]? = some .reading →
      (S.next (.step u)).Abandoned t ∧ (S.next (.step u)).threads[u]? = some .decrement ∧
        (S.next (.step u)).lReader_Count = S.lReader_Count := by
    intro S h hp
    have hstep : S.stepAt u .reading = some (S.goTo u .decrement) := by
      rw [RWLock.stepAt, h.flag]
      rfl
    rw [next_step hp hstep]
    refine ⟨h.goTo hp rfl .decrement (fun _ => rfl) (h.write.move hp rfl)
      (h.count_move hp .decrement rfl), ?_, rfl⟩
    show (S.threads.set u .decrement)[u]? = _
    rw [getElem?_move hp, if_pos rfl]
  cases p with
  | leaveWrite =>
    obtain ⟨hleave, hguards⟩ : S.write.leave u = some .free ∧
        CriticalSection.free.Guards inWrite (S.threads.set u .reading) :=
      h.write.leave hp rfl rfl
    have hstep : S.stepAt u .leaveWrite = some ({ S with write := .free }.goTo u .reading) := by
      rw [RWLock.stepAt, RWLock.leaveWriteSection, hleave]
    have hnext : ({ S with write := .free }.goTo u .reading).Abandoned t :=
      h.goTo hp rfl .reading (fun _ => rfl) hguards (h.count_move hp .reading rfl)
    have hpc : ({ S with write := .free }.goTo u .reading).threads[u]? = some .reading := by
      show (S.threads.set u .reading)[u]? = _
      rw [getElem?_move hp, if_pos rfl]
    refine ⟨[.step u, .step u], ?_⟩
    rw [List.foldl_cons, next_step hp hstep]
    exact hreading hnext hpc
  | reading => exact ⟨[.step u], hreading h hp⟩
  | decrement => exact ⟨[], h, hp, rfl⟩
  | _ => cases hread

/-- A reader is found at the end of its call. -/
theorem exists_decrement (h : S.Abandoned t) (hpos : 0 < S.lReader_Count) :
    ∃ (acts : List Act) (u : ℕ), (acts.foldl next S).Abandoned t ∧
      (acts.foldl next S).threads[u]? = some .decrement ∧
      (acts.foldl next S).lReader_Count = S.lReader_Count := by
  have hcount := h.count
  obtain ⟨q, hmem, hq⟩ := List.countP_pos_iff.mp (by omega : 0 < S.threads.countP counted)
  obtain ⟨u, hu⟩ := List.getElem?_of_mem hmem
  obtain ⟨acts, hacts⟩ := h.to_decrement hu (h.readers u q hu hq)
  exact ⟨acts, u, hacts⟩

/-- The counter goes down. -/
theorem count_decrement (h : S.Abandoned t) (hp : S.threads[u]? = some .decrement) (p' : LockPc)
    (hout : p'.counted = false) :
    S.lReader_Count - 1 = (S.threads.set u p').countP counted := by
  have hmove := countP_move hp p'
  have hyes : (counted .decrement).toNat = 1 := rfl
  rw [hout, hyes, Bool.toNat_false] at hmove
  have hcount := h.count
  omega

/-- **The last reader leaves a section that is not its own.** -/
theorem misuse (h : S.Abandoned t) {n : ℕ} (hn : S.lReader_Count = n + 1) :
    ∃ acts : List Act, (acts.foldl next S).misused = true := by
  induction n generalizing S with
  | zero =>
    obtain ⟨acts, u, hab, hp, hcount⟩ := h.exists_decrement (by omega)
    set S₁ := acts.foldl next S with hS₁
    have hstep : S₁.stepAt u .decrement
        = some ({ S₁ with lReader_Count := S₁.lReader_Count - 1 }.goTo u .lastLeave) := by
      rw [RWLock.stepAt, if_pos (by show S₁.lReader_Count - 1 = 0; omega)]
    have hpc : ({ S₁ with lReader_Count := S₁.lReader_Count - 1 }.goTo u .lastLeave).threads[u]?
        = some .lastLeave := by
      show (S₁.threads.set u .lastLeave)[u]? = _
      rw [getElem?_move hp, if_pos rfl]
    have hleave : S₁.read.leave u = none := by
      refine if_neg fun howner => ?_
      rw [hab.owner] at howner
      exact hab.ne hp rfl (Option.some.inj howner).symm
    refine ⟨acts ++ [.step u, .step u], ?_⟩
    rw [List.foldl_append, ← hS₁, List.foldl_cons, next_step hp hstep, List.foldl_cons,
      next_step hpc rfl, List.foldl_nil]
    show (RWLock.leaveReadSection _ u .idle).misused = true
    unfold RWLock.leaveReadSection
    show (match S₁.read.leave u with | some C => _ | none => _ : RWLock).misused = true
    rw [hleave]
  | succ n ih =>
    obtain ⟨acts, u, hab, hp, hcount⟩ := h.exists_decrement (by omega)
    set S₁ := acts.foldl next S with hS₁
    have hstep : S₁.stepAt u .decrement
        = some ({ S₁ with lReader_Count := S₁.lReader_Count - 1 }.goTo u .idle) := by
      have hne : ¬ S₁.lReader_Count - 1 = 0 := by
        rw [hcount, hn]
        push_cast
        omega
      rw [RWLock.stepAt, if_neg hne]
    have hnext : ({ S₁ with lReader_Count := S₁.lReader_Count - 1 }.goTo u .idle).Abandoned t :=
      hab.goTo hp rfl .idle (fun hno => nomatch hno) (hab.write.move hp rfl)
        (hab.count_decrement hp .idle rfl)
    obtain ⟨acts', hacts'⟩ := ih hnext (by
      show S₁.lReader_Count - 1 = n + 1
      rw [hcount, hn]
      push_cast
      ring)
    refine ⟨acts ++ .step u :: acts', ?_⟩
    rw [List.foldl_append, ← hS₁, List.foldl_cons, next_step hp hstep]
    exact hacts'

end Abandoned

/-- **A step that is not orderly** can be followed by one that leaves a section of another
thread. -/
theorem misused_of_not_orderly (h : S.Inv) {a : Act} (ha : ¬ S.Orderly a) :
    ∃ acts : List Act, (acts.foldl next (S.next a)).misused = true := by
  cases a with
  | readLock t => exact absurd trivial ha
  | writeLock t => exact absurd trivial ha
  | step t =>
    obtain ⟨hp, howner, hcount⟩ : S.threads[t]? = some .decrement ∧ S.read.owner = some t ∧
        S.lReader_Count ≠ 1 := by
      simpa only [Orderly, Classical.not_imp] using ha
    have hpos : 0 < S.threads.countP counted :=
      List.countP_pos_iff.mpr ⟨.decrement, List.mem_of_getElem? hp, rfl⟩
    have hc := h.count
    have hstep : S.stepAt t .decrement
        = some ({ S with lReader_Count := S.lReader_Count - 1 }.goTo t .idle) := by
      have hne : ¬ S.lReader_Count - 1 = 0 := by omega
      rw [RWLock.stepAt, if_neg hne]
    rw [Abandoned.next_step hp hstep]
    have hmove := countP_move hp .idle
    have hyes : (counted .decrement).toNat = 1 := rfl
    have hno : (counted .idle).toNat = 0 := rfl
    have hab : ({ S with lReader_Count := S.lReader_Count - 1 }.goTo t .idle).Abandoned t := by
      refine ⟨h.write.move hp rfl, howner, ?_, h.flag_of_reader hp rfl, fun u q hq hcounted => ?_,
        ?_⟩
      · show (S.threads.set t .idle)[t]? = _
        rw [getElem?_move hp, if_pos rfl]
      · have hq' : (S.threads.set t .idle)[u]? = some q := hq
        rw [getElem?_move hp] at hq'
        split_ifs at hq' with hu
        · cases hq'
          cases hcounted
        · rcases counted_cases hcounted with rfl | hread
          · cases h.read.entering u hq' t _ hp
          · exact hread
      · show S.lReader_Count - 1 = (S.threads.set t .idle).countP counted
        omega
    refine hab.misuse (n := (S.lReader_Count - 2).toNat) ?_
    show S.lReader_Count - 1 = _
    omega

/-! ## Runs -/

instance (S : RWLock) (a : Act) : Decidable (S.Orderly a) :=
  match a with
  | .step t => inferInstanceAs (Decidable (S.threads[t]? = some .decrement →
      S.read.owner = some t → S.lReader_Count = 1))
  | .readLock _ => .isTrue trivial
  | .writeLock _ => .isTrue trivial

/-- **Readers and writers exclude each other** in every run in which the reader that has entered
the second section goes last. No section is left by a thread that is not its owner, and there is
always a thread that can go on. Once that reader goes earlier, a section can be left by a thread
that is not its owner. -/
theorem safe {n : ℕ} {S : RWLock} (h : Reach next Orderly (start n) S) :
    S.misused = false ∧
      (∀ t u : ℕ, t ≠ u → S.threads[t]? = some .writing →
        S.threads[u]? ≠ some .writing ∧ S.threads[u]? ≠ some .reading) ∧
      ((∃ (t : ℕ) (p : LockPc), S.threads[t]? = some p ∧ p ≠ .idle) →
        ∃ t, S.Orderly (.step t) ∧ (S.act (.step t)).isSome) ∧
      ∀ a, ¬ S.Orderly a → ∃ acts : List Act, (acts.foldl next (S.next a)).misused = true := by
  have hinv : S.Inv := h.invariant Inv (Inv.start n) fun s a hs hok => hs.next hok
  refine ⟨hinv.misused, fun t u hne ht => ⟨fun hu => ?_, fun hu => ?_⟩, hinv.progress,
    fun a ha => misused_of_not_orderly hinv ha⟩
  · exact hne (hinv.write.unique hu rfl ht rfl)
  · cases hinv.read.reader_eq_false ht rfl hu

/-- A thread comes in to read. -/
def reads (t : ℕ) (first : Bool) : List Act :=
  .readLock t :: .step t :: (if first then [.step t, .step t] else [.step t])

/-- Two readers, of which the second goes first, and then a writer. -/
def orderlyActs : List Act :=
  reads 0 true ++ reads 1 false ++ [.step 1, .step 1] ++ [.step 0, .step 0, .step 0] ++
    [.writeLock 1, .step 1, .step 1]

theorem safe_orderlyActs :
    (orderlyActs.foldl next (start 2)).threads = [.idle, .writing] ∧
      (orderlyActs.foldl next (start 2)).misused = false :=
  ⟨by decide, (safe (Reach.of_list .start orderlyActs (by decide))).1⟩

/-- **The first reader goes and comes back as a writer**, and has the second section still, while
the other one reads. -/
theorem not_safe : ∃ acts : List Act,
    (acts.foldl next (start 2)).threads = [.writing, .reading] :=
  ⟨reads 0 true ++ reads 1 false ++ [.step 0, .step 0] ++ [.writeLock 0, .step 0, .step 0],
    by decide⟩

end RWLock
