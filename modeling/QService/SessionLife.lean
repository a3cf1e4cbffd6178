import QService.Handles
import QService.Isolation
import QService.SessionManager

/-!
# What the interface hears of a connection

The worker tells the interface when a connection is there (`onConnected` for
an accepted one, `onLinkedOther` for one it made itself) and when it ends
(`onSockClose`). Sessions end on three paths: the event callback, a close by
ID, and a failure while they are set up. On the first two the interface is
told, on the third it is not.

Here the session manager runs inside the worker, and what is said of each
connection is logged. A connection is a `bufferevent`, known by its number;
its session is found through the socket alone, and the system may hand the
same socket out again. `Life` says in which order things may be said of one
connection. Every run follows it (`WorkThread.lawful_run`), and so an
announced connection is closed exactly once (`WorkThread.closedOnce_of_run`).

What a read does to the bytes is not repeated here: all that matters is whether
it closes the session, and the read loops close their own session at most once
and no other (`Worker.workThreadReadCB_closes`).
-/

/-! ## The life of a connection -/

/-- What is said of a connection. -/
inductive Note
  /-- `onConnected`. -/
  | connected
  /-- `onLinkedOther`. -/
  | linkedOther
  /-- `onSockClose`. -/
  | sockClose
  /-- Its session object goes back to the pool. -/
  | pooled
  /-- Its set-up failed. -/
  | failed
  deriving DecidableEq, Repr

/-- The note announces the connection. -/
def Note.Announces (e : Note) : Prop := e = .connected ∨ e = .linkedOther

instance (e : Note) : Decidable e.Announces := inferInstanceAs (Decidable (_ ∨ _))

/-- Where a connection is in its life. -/
inductive Life
  | fresh
  | announced
  | notified
  | gone
  | dropped
  | failed
  deriving DecidableEq, Repr

namespace Life

/-- What may be said of a connection. A debug connection is not announced, so the
close may also come first. -/
def next : Life → Note → Option Life
  | .fresh, .connected => some .announced
  | .fresh, .linkedOther => some .announced
  | .fresh, .sockClose => some .notified
  | .announced, .sockClose => some .notified
  | .notified, .pooled => some .gone
  | .fresh, .pooled => some .dropped
  | .fresh, .failed => some .failed
  | .dropped, .failed => some .failed
  | _, _ => none

/-- The histories that lead to a point of the life. -/
def histories : Life → List (List Note)
  | .fresh => [[]]
  | .announced => [[.connected], [.linkedOther]]
  | .notified => [[.sockClose], [.connected, .sockClose], [.linkedOther, .sockClose]]
  | .gone => [[.sockClose, .pooled], [.connected, .sockClose, .pooled],
      [.linkedOther, .sockClose, .pooled]]
  | .dropped => [[.pooled]]
  | .failed => [[.failed], [.pooled, .failed]]

theorem histories_next {s s' : Life} {e : Note} {w : List Note} (hw : w ∈ s.histories)
    (h : s.next e = some s') : w ++ [e] ∈ s'.histories := by
  cases s <;> cases e <;> cases h <;> simp only [histories, List.mem_cons, List.not_mem_nil,
    or_false] at hw ⊢ <;> rcases hw with rfl | rfl | rfl <;> simp

/-- **A history that is followed is one of these.** -/
theorem mem_histories {w : List Note} {s : Life} (h : w.foldlM next .fresh = some s) :
    w ∈ s.histories := by
  induction w using List.reverseRecOn generalizing s with
  | nil =>
    cases h
    exact List.mem_singleton_self _
  | append_singleton w e ih =>
    rw [List.foldlM_append] at h
    obtain ⟨t, ht, hs⟩ := Option.bind_eq_some_iff.mp h
    exact histories_next (ih ht) (by simpa using hs)

end Life

/-- **A connection is closed exactly once.** When the session of an announced
connection goes back to the pool, exactly one close has been delivered, after
the announcement; there is never a second one, and none for a connection whose
set-up failed. -/
structure ClosedOnce (w : List Note) : Prop where
  closed : ∀ l₁ l₂, w = l₁ ++ .pooled :: l₂ → (∃ e ∈ w, e.Announces) →
    l₁.count .sockClose = 1 ∧ ∃ e ∈ l₁.takeWhile (· ≠ .sockClose), e.Announces
  once : w.count .sockClose ≤ 1
  failed : .failed ∈ w → .sockClose ∉ w ∧ ∀ e ∈ w, ¬ e.Announces

/-- A history in which nothing is announced, or nothing is pooled. -/
theorem ClosedOnce.of_not {w : List Note} (h : (∀ e ∈ w, ¬ e.Announces) ∨ .pooled ∉ w)
    (honce : w.count .sockClose ≤ 1)
    (hfailed : .failed ∈ w → .sockClose ∉ w ∧ ∀ e ∈ w, ¬ e.Announces) : ClosedOnce w := by
  refine ⟨fun l₁ l₂ hw hann => ?_, honce, hfailed⟩
  obtain ⟨e, he, hae⟩ := hann
  rcases h with h | h
  · exact absurd hae (h e he)
  · exact absurd (hw ▸ List.mem_append_right _ List.mem_cons_self) h

/-- A connection that was announced, closed and pooled. -/
theorem ClosedOnce.of_gone {e : Note} (he : e.Announces) :
    ClosedOnce [e, .sockClose, .pooled] := by
  refine ⟨fun l₁ l₂ hw _ => ?_, ?_, ?_⟩
  · have hl : l₁ = [e, .sockClose] ∧ l₂ = [] := by
      rcases he with rfl | rfl <;> simpa [List.cons_eq_append_iff] using hw
    rw [hl.1]
    rcases he with rfl | rfl <;> decide
  · rcases he with rfl | rfl <;> decide
  · rcases he with rfl | rfl <;> decide

/-- The life of a connection closes it exactly once. -/
theorem Life.closedOnce {w : List Note} {s : Life} (h : w.foldlM next .fresh = some s) :
    ClosedOnce w := by
  have hw := mem_histories h
  cases s with
  | gone =>
    simp only [histories, List.mem_cons, List.not_mem_nil, or_false] at hw
    rcases hw with rfl | rfl | rfl
    · exact .of_not (by decide) (by decide) (by decide)
    · exact .of_gone (.inl rfl)
    · exact .of_gone (.inr rfl)
  | fresh | announced | notified | dropped | failed =>
    simp only [histories, List.mem_cons, List.not_mem_nil, or_false] at hw
    rcases hw with rfl | rfl | rfl <;> exact .of_not (by decide) (by decide) (by decide)

/-! ## What a read closes -/

namespace Worker

/-- Message handlers that close nothing. -/
def quiet : Handler := fun _ _ _ => []

/-- The connections whose close was delivered, in order. -/
def closes (log : List Event) : List ℕ :=
  log.filterMap fun e =>
    match e with
    | .sockClose c => some c
    | _ => none

theorem closes_append (l₁ l₂ : List Event) : closes (l₁ ++ l₂) = closes l₁ ++ closes l₂ :=
  List.filterMap_append

/-- The session of the socket is still that of the connection, and no close was
delivered since there were these. -/
structure Kept (fd : QSock) (c : ℕ) (cs : List ℕ) (W : Worker) : Prop where
  log : closes W.log = cs
  session : ∃ S, W.session fd = some S ∧ S.conn = c

/-- The session is kept, or its close was delivered. -/
def KeptOrClosed (fd : QSock) (c : ℕ) (cs : List ℕ) (W : Worker) : Prop :=
  Kept fd c cs W ∨ closes W.log = cs ++ [c] ∧ W.session fd = none

section Kept

variable {fd : QSock} {c : ℕ} {cs : List ℕ} {W : Worker}

theorem Kept.setSession (h : Kept fd c cs W) {S : Session} (hS : S.conn = c) :
    Kept fd c cs (W.setSession fd S) :=
  ⟨h.log, S, session_setSession_same _ _ _, hS⟩

theorem Kept.delBuffer (h : Kept fd c cs W) (n : ℕ) : Kept fd c cs (W.delBuffer fd n) := by
  obtain ⟨S, hS, hc⟩ := h.session
  rw [delBuffer_of_session hS]
  exact h.setSession hc

theorem Kept.writeBuffer (h : Kept fd c cs W) (bytes : List UInt8) :
    Kept fd c cs (W.writeBuffer fd bytes) := by
  obtain ⟨S, hS, hc⟩ := h.session
  rw [writeBuffer_of_session hS]
  exact h.setSession hc

theorem Kept.setPing (h : Kept fd c cs W) : Kept fd c cs (W.setPing fd) := by
  obtain ⟨S, hS, hc⟩ := h.session
  rw [setPing_of_session hS]
  exact h.setSession hc

theorem Kept.setStatus (h : Kept fd c cs W) (st : SessionStatus) :
    Kept fd c cs (W.setStatus fd st) := by
  obtain ⟨S, hS, hc⟩ := h.session
  rw [setStatus_of_session hS]
  exact h.setSession hc

theorem Kept.setPack (h : Kept fd c cs W) (sock : QSock) (k : Option Continuation) :
    Kept fd c cs (W.setPack sock k) := ⟨h.log, h.session⟩

theorem Kept.countCipher (h : Kept fd c cs W) : Kept fd c cs W.countCipher := ⟨h.log, h.session⟩

/-- What is logged is not a close. -/
theorem Kept.emit (h : Kept fd c cs W) {e : Event} (he : closes [e] = []) :
    Kept fd c cs (W.emit e) :=
  ⟨by rw [log_emit, closes_append, he, List.append_nil, h.log], h.session⟩

theorem Kept.decoded (h : Kept fd c cs W) (conn : ℕ) (data : List UInt8) :
    Kept fd c cs (W.countCipher.emit (.payload conn data)) := h.countCipher.emit rfl

theorem Kept.onSockRead (h : Kept fd c cs W) (S : Session) (msg : List UInt8) :
    Kept fd c cs (W.onSockRead quiet fd S msg) := h.emit rfl

/-- The loops close their own session. -/
theorem Kept.close (h : Kept fd c cs W) : KeptOrClosed fd c cs (W.closeLinkByID fd) := by
  obtain ⟨S, hS, hc⟩ := h.session
  by_cases hfd : fd = invalidSock
  · rw [closeLinkByID, if_pos hfd]
    exact .inl h
  · rw [closeLinkByID_of_session hfd hS]
    refine .inr ⟨?_, Function.update_self _ _ _⟩
    show closes (W.log ++ _) = cs ++ [c]
    rw [closes_append, h.log, ← hc]
    split_ifs <;> rfl

/-- One round of a loop: kept when it goes on, kept or closed when it returns. -/
def KeptRound (fd : QSock) (c : ℕ) (cs : List ℕ) : LoopStep Worker → Prop
  | .next W => Kept fd c cs W
  | .stop W => KeptOrClosed fd c cs W

theorem decodeThen_kept (E : Env) (h : Kept fd c cs W) (S : Session) (msg : List UInt8)
    {k : Worker → List UInt8 → LoopStep Worker}
    (hk : ∀ W data, Kept fd c cs W → KeptRound fd c cs (k W data)) :
    KeptRound fd c cs (decodeThen E W S msg k) := by
  unfold decodeThen
  split
  · exact .inl h.countCipher
  · exact hk _ _ (h.decoded _ _)

theorem dispData_kept (E : Env) (h : Kept fd c cs W) (S : Session)
    (fram : WebSockParser.WebSockFram) (n : ℕ) (msg : List UInt8) :
    KeptRound fd c cs (dispData E quiet fd S fram n msg W) := by
  unfold dispData
  split_ifs
  · refine decodeThen_kept E h S msg fun W data hW => ?_
    dsimp only
    split_ifs
    · exact .inl ((hW.onSockRead S data).setPack _ _)
    · exact (hW.onSockRead S data).delBuffer n
  · split
    · refine decodeThen_kept E h S msg fun W data hW => ?_
      dsimp only
      split_ifs
      · exact .inl (((hW.setPack _ _).onSockRead S _).setPack _ _)
      · exact (((hW.setPack _ _).onSockRead S _).delBuffer n).setPack _ _
    · exact h.delBuffer n
  · refine decodeThen_kept E h S msg fun W data hW => ?_
    rw [addContinuation_eq]
    exact (hW.setPack _ _).delBuffer n

theorem dispWebSockBody_kept (E : Env) (h : Kept fd c cs W) :
    KeptRound fd c cs (dispWebSockBody E quiet fd W) := by
  obtain ⟨S, hS, hc⟩ := h.session
  unfold dispWebSockBody
  rw [hS]
  dsimp only
  split
  · exact Kept.close (h.setPack _ _)
  · exact .inl h
  · rename_i fram n msg buf _
    have hbuf : Kept fd c cs (W.setSession fd { S with input := buf }) := h.setSession hc
    unfold dispFram
    split
    · exact Kept.close (hbuf.setPack _ _)
    · exact (hbuf.writeBuffer _).setPing.delBuffer n
    · exact hbuf.setPing.delBuffer n
    · exact dispData_kept E hbuf S fram n msg

theorem dispTcpBody_kept (E : Env) (h : Kept fd c cs W) :
    (dispTcpBody E quiet fd W).All (Kept fd c cs) := by
  obtain ⟨S, hS, -⟩ := h.session
  unfold dispTcpBody
  rw [hS]
  dsimp only
  split
  · exact h
  · split
    · exact h.countCipher
    · rename_i pack _ _ msg _
      have hdebug := (h.decoded S.conn msg).emit (e := .debug S.conn msg) rfl
      have hread := (h.decoded S.conn msg).onSockRead S msg
      split_ifs
      · exact hdebug.delBuffer _
      · exact hdebug
      · exact hread.delBuffer _
      · exact hread

/-- **A read closes its own session at most once, and no other**; a read of a session
that is not a WebSocket one closes nothing. -/
theorem workThreadReadCB_closes (E : Env) (chunk : List UInt8) {S : Session}
    (hS : W.session fd = some S) :
    if S.type = .webSock then
      KeptOrClosed fd S.conn (closes W.log) (workThreadReadCB E quiet fd chunk W)
    else Kept fd S.conn (closes W.log) (workThreadReadCB E quiet fd chunk W) := by
  have hkept : Kept fd S.conn (closes W.log) (W.arrive fd chunk) := by
    rw [arrive_of_session hS]
    exact Kept.setSession ⟨rfl, S, hS, rfl⟩ rfl
  have htcp : Kept fd S.conn (closes W.log) (dispTcp E quiet fd (W.arrive fd chunk)) :=
    LoopStep.whileTrue_all _ (Worker.pending · fd) (fun _ h => dispTcpBody_kept E h)
      (fun _ _ h => dispTcpBody_next_lt h) _ _ hkept (Nat.lt_succ_self _)
  have hweb : KeptOrClosed fd S.conn (closes W.log)
      (dispWebSock E quiet fd (W.arrive fd chunk)) := by
    obtain ⟨T, hT, -⟩ := hkept.session
    unfold dispWebSock
    rw [hT]
    dsimp only
    split_ifs
    · split
      · exact hkept.close
      · exact .inl hkept
      · exact .inl (((hkept.writeBuffer _).setStatus _).delBuffer _)
    · refine LoopStep.whileTrue_rule (Kept fd S.conn (closes W.log)) _ (Worker.pending · fd)
        (fun W₁ W₂ hI hnext => ?_) (fun W₁ W₂ hI hstop => ?_) _ _ hkept (Nat.lt_succ_self _)
      · have hround := dispWebSockBody_kept E hI
        rw [hnext] at hround
        exact ⟨hround, dispWebSockBody_next_lt hnext⟩
      · have hround := dispWebSockBody_kept E hI
        rw [hstop] at hround
        exact hround
  unfold workThreadReadCB
  rw [hS]
  dsimp only
  cases htype : S.type with
  | webSock => exact hweb
  | tcp | tcpClient | debug => exact htcp

end Kept

end Worker

/-! ## The connection behind a socket -/

namespace SessionManager

variable {M : SessionManager} {fd sd : QSock} {p : ℕ}

/-- The connection of the session of a socket. -/
def conn (M : SessionManager) (fd : QSock) : Option ℕ :=
  (M.umapSession.lookup fd).bind fun p => (M.objects p).buffer.bev.map BufferEvent.id

theorem conn_of_lookup (h : M.umapSession.lookup fd = some p) :
    M.conn fd = (M.objects p).buffer.bev.map BufferEvent.id := by
  rw [conn, h]
  rfl

theorem conn_of_none (h : M.umapSession.lookup fd = none) : M.conn fd = none := by
  rw [conn, h]
  rfl

/-- The sessions of two managers are of the same connection. -/
theorem conn_congr {N : SessionManager}
    (hlook : N.umapSession.lookup sd = M.umapSession.lookup sd)
    (hobj : ∀ p, M.umapSession.lookup sd = some p → (N.objects p).buffer = (M.objects p).buffer) :
    N.conn sd = M.conn sd := by
  cases hp : M.umapSession.lookup sd with
  | none => rw [conn_of_none hp, conn_of_none (hlook.trans hp)]
  | some p => rw [conn_of_lookup hp, conn_of_lookup (hlook.trans hp), hobj p hp]

/-- A setter does not touch the connections. -/
theorem conn_set (M : SessionManager) (p : ℕ) (call : SessionObject.Setter) (sd : QSock) :
    (M.modify p (SessionObject.set · call)).conn sd = M.conn sd := by
  refine conn_congr rfl fun q _ => ?_
  rw [objects_modify]
  split_ifs with hq
  · rw [(set_ids _ call).2, hq]
  · rfl

/-- Recycling a session takes its connection out. -/
theorem conn_recycle (h : Inv M) (hp : M.umapSession.lookup fd = some p) :
    (M.recycle fd p).conn = Function.update M.conn fd none := by
  funext sd
  by_cases hsd : sd = fd
  · rw [hsd, Function.update_self]
    exact conn_of_none (AList.lookup_erase _ _)
  · rw [Function.update_of_ne hsd]
    have hlook : (M.recycle fd p).umapSession.lookup sd = M.umapSession.lookup sd :=
      AList.lookup_erase_ne hsd
    refine conn_congr hlook fun q hq => ?_
    rw [objects_recycle_ne (h.ne_of_lookup hq hp hsd)]

/-- Adding a session puts its connection in. -/
theorem conn_addSession_of_ok (h : Inv M) {bev : BufferEvent} (hok : BufferOk bev) :
    (M.addSession bev).2.conn = Function.update M.conn bev.fd (some bev.id) := by
  funext sd
  by_cases hsd : sd = bev.fd
  · rw [hsd, Function.update_self, conn_of_lookup (lookup_addSession hok),
      objects_addSession hok]
    rfl
  · rw [Function.update_of_ne hsd, addSession_of_ok hok]
    refine conn_congr (AList.lookup_insert_ne hsd) fun q hq => ?_
    dsimp only
    rw [Function.update_of_ne (h.ne_malloc_of_lookup hq)]

theorem conn_addSession_of_not_ok (h : Inv M) {bev : BufferEvent} (hok : ¬ BufferOk bev) :
    (M.addSession bev).2.conn = M.conn := by
  funext sd
  rw [addSession_of_not_ok hok]
  refine conn_congr rfl fun q hq => ?_
  dsimp only
  rw [Function.update_of_ne (h.ne_malloc_of_lookup hq)]

end SessionManager

/-! ## The worker -/

/-- `TriggerSock`: a socket that the worker is given, and the type of its session. -/
structure TriggerSock where
  iSock : QSock
  emType : SessionType
  deriving DecidableEq, Repr

/-- What a handler may do to the sessions: call a setter, or close a session. -/
inductive Act
  | set (p : ℕ) (call : SessionObject.Setter)
  | closeLinkByID (iID : QSock)

/-- How the steps of a set-up come out: whether there is a `bufferevent`, whether it
has its buffers, whether it can be enabled, and what the handler of the
announcement does. -/
structure SetUpOutcome where
  made : Bool
  input : Bool
  output : Bool
  enabled : Bool
  acts : List Act

/-- The worker: the session manager, the number of connections so far, and what was
said of each of them. -/
structure WorkThread where
  mgr : SessionManager
  conns : ℕ
  log : List (ℕ × Note)

namespace WorkThread

/-- The worker before the first connection. -/
def start : WorkThread := ⟨.start, 0, []⟩

/-- Something is said of a connection. -/
def note (T : WorkThread) (c : ℕ) (e : Note) : WorkThread := { T with log := T.log ++ [(c, e)] }

/-- Something is said of the connection of a session. -/
def noteSession (T : WorkThread) (p : ℕ) (e : Note) : WorkThread :=
  match (T.mgr.objects p).buffer.bev with
  | none => T
  | some bev => T.note bev.id e

/-- A setter of a session is called. -/
def set (T : WorkThread) (p : ℕ) (call : SessionObject.Setter) : WorkThread :=
  { T with mgr := T.mgr.modify p (SessionObject.set · call) }

/-- `CSessionManager::addSession`, with whether it succeeds. -/
def addSession (T : WorkThread) (bev : BufferEvent) : Bool × WorkThread :=
  let (bOk, mgr) := T.mgr.addSession bev
  if !bOk then (false, { T with mgr := mgr }.note bev.id .pooled)
  else (true, { T with mgr := mgr })

/-- `CSessionManager::dellSession`. -/
def dellSession (T : WorkThread) (bev : BufferEvent) : WorkThread :=
  match T.mgr.umapSession.lookup bev.fd with
  | none => T
  | some pSession => { T.noteSession pSession .pooled with mgr := T.mgr.dellSession bev }

/-- `CSessionManager::closeLinkByID`. -/
def closeLinkByID (T : WorkThread) (iID : QSock) : WorkThread :=
  if iID = invalidSock then T
  else
    match T.mgr.umapSession.lookup iID with
    | none => T
    | some pSession =>
      let T := T.noteSession pSession .sockClose
      { T.noteSession pSession .pooled with mgr := T.mgr.closeLinkByID iID }

/-- What a handler does. -/
def act (T : WorkThread) : Act → WorkThread
  | .set p call => T.set p call
  | .closeLinkByID iID => T.closeLinkByID iID

/-- What both loops do first with a socket: `bufferevent_socket_new`, `addSession`
and `bufferevent_enable`, with the session if all of them succeed. -/
def setUp (T : WorkThread) (stWorkSock : TriggerSock) (o : SetUpOutcome) : Option ℕ × WorkThread :=
  let c := T.conns
  let T := { T with conns := c + 1 }
  if !o.made then (none, T.note c .failed)
  else
    let bev : BufferEvent := ⟨c, stWorkSock.iSock, o.input, o.output⟩
    let (bOk, T) := T.addSession bev
    if !bOk then (none, T.note c .failed)
    else if !o.enabled then (none, (T.dellSession bev).note c .failed)
    else (T.mgr.getSession bev, T)

/-- One round of the loop of `CWorkThreadEvent::onMainRead`. A debug session is not
announced. -/
def onMainSock (T : WorkThread) (stWorkSock : TriggerSock) (o : SetUpOutcome) : WorkThread :=
  match T.setUp stWorkSock o with
  | (none, T) => T
  | (some pSession, T) =>
    let T := T.set pSession (.type stWorkSock.emType)
    let T := T.set pSession (.status .linked)
    let T := if stWorkSock.emType = .webSock then T.set pSession (.status .connect) else T
    if (T.mgr.objects pSession).type ≠ .debug then
      o.acts.foldl act (T.noteSession pSession .connected)
    else T

/-- One round of the loop of `CWorkThreadEvent::onAssistRead`. -/
def onAssistSock (T : WorkThread) (stWorkSock : TriggerSock) (o : SetUpOutcome) : WorkThread :=
  match T.setUp stWorkSock o with
  | (none, T) => T
  | (some pSession, T) =>
    let T := T.set pSession (.type stWorkSock.emType)
    let T := T.set pSession (.status .linked)
    o.acts.foldl act (T.noteSession pSession .linkedOther)

/-- `CWorkThreadEvent::workThreadReadCB`, for the setters that are called while the
bytes are read and whether `dispWebSock` closes the session. `dispTcp` closes
none. -/
def workThreadReadCB (T : WorkThread) (bev : BufferEvent)
    (calls : List (ℕ × SessionObject.Setter)) (bClose : Bool) : WorkThread :=
  match T.mgr.getSession bev with
  | none => T
  | some pSession =>
    let T := { T with mgr := { T.mgr with current := some pSession } }
    let bWebSock : Bool := (T.mgr.objects pSession).type = .webSock
    let T := calls.foldl (fun T call => T.set call.1 call.2) T
    let T :=
      if bWebSock && bClose then T.closeLinkByID (T.mgr.objects pSession).getSessionID else T
    { T with mgr := { T.mgr with current := none } }

/-- `CWorkThreadEvent::workThreadEventCB`. -/
def workThreadEventCB (T : WorkThread) (bev : BufferEvent) : WorkThread :=
  match T.mgr.getSession bev with
  | none => T
  | some pSession => (T.noteSession pSession .sockClose).dellSession bev

/-- A tick of `CWorkThreadEvent::onTimerRead`, for what the handler does. -/
def onTimer (T : WorkThread) (acts : List Act) : WorkThread :=
  acts.foldl act { T with mgr := { T.mgr with count := T.mgr.count + 1 } }

/-- What the worker is woken up for. -/
inductive Input
  | main (socks : List (TriggerSock × SetUpOutcome))
  | assist (socks : List (TriggerSock × SetUpOutcome))
  | read (bev : BufferEvent) (calls : List (ℕ × SessionObject.Setter)) (bClose : Bool)
  | event (bev : BufferEvent)
  | timer (acts : List Act)

/-- The worker handles one input. -/
def step (T : WorkThread) : Input → WorkThread
  | .main socks => socks.foldl (fun T s => T.onMainSock s.1 s.2) T
  | .assist socks => socks.foldl (fun T s => T.onAssistSock s.1 s.2) T
  | .read bev calls bClose => T.workThreadReadCB bev calls bClose
  | .event bev => T.workThreadEventCB bev
  | .timer acts => T.onTimer acts

/-- Where a connection is in its life, if what was said of it follows the law. -/
def life (T : WorkThread) (c : ℕ) : Option Life := follow Life.next .fresh T.log c

/-! ### What is kept -/

/-- The worker follows the law: what was said of a connection is in order; a
connection that is still to come is fresh; every session in the map has a
connection of its own, of which no end has been said. -/
structure Lawful (T : WorkThread) : Prop where
  inv : SessionManager.Inv T.mgr
  follows : ∀ c, ∃ s, T.life c = some s
  new : ∀ c, T.conns ≤ c → T.life c = some .fresh
  held : ∀ fd p, T.mgr.umapSession.lookup fd = some p → ∃ c, T.mgr.conn fd = some c
  alive : ∀ fd c, T.mgr.conn fd = some c →
    c < T.conns ∧ (T.life c = some .fresh ∨ T.life c = some .announced)
  own : ∀ fd sd c, T.mgr.conn fd = some c → T.mgr.conn sd = some c → fd = sd

/-- No session in the map is of the connection. -/
def Loose (T : WorkThread) (c : ℕ) : Prop := ∀ fd, T.mgr.conn fd ≠ some c

theorem life_start (c : ℕ) : start.life c = some .fresh := rfl

theorem Lawful.start : Lawful start where
  inv := SessionManager.Inv.start
  follows c := ⟨_, life_start c⟩
  new c _ := life_start c
  held := nofun
  alive := nofun
  own := nofun

/-- Notes about a connection, with the point of its life they lead to. -/
def notes (T : WorkThread) (c : ℕ) (es : List Note) : WorkThread :=
  { T with log := T.log ++ es.map (Prod.mk c) }

theorem life_notes_same {T : WorkThread} {c : ℕ} {s : Life} (h : T.life c = some s)
    (es : List Note) : (T.notes c es).life c = es.foldlM Life.next s :=
  follow_append_same T.log c es h

theorem life_notes_ne (T : WorkThread) {c d : ℕ} (h : d ≠ c) (es : List Note) :
    (T.notes c es).life d = T.life d :=
  follow_append_ne T.log h es

theorem noteSession_eq {T : WorkThread} {fd : QSock} {p c : ℕ} {e : Note}
    (hp : T.mgr.umapSession.lookup fd = some p) (hc : T.mgr.conn fd = some c) :
    T.noteSession p e = T.notes c [e] := by
  rw [SessionManager.conn_of_lookup hp] at hc
  unfold noteSession
  cases hbev : (T.mgr.objects p).buffer.bev with
  | none =>
    rw [hbev] at hc
    cases hc
  | some bev =>
    rw [hbev] at hc
    rw [← Option.some.inj hc]
    rfl

section Step

variable {T : WorkThread}

/-- **The manager may change as long as the connections do not.** -/
theorem Lawful.withMgr (h : Lawful T) {mgr : SessionManager} (hinv : mgr.Inv)
    (hmap : mgr.umapSession = T.mgr.umapSession) (hconn : mgr.conn = T.mgr.conn) :
    Lawful { T with mgr := mgr } where
  inv := hinv
  follows := h.follows
  new := h.new
  held fd p hp := by
    show ∃ c, mgr.conn fd = some c
    rw [hconn]
    exact h.held fd p (by rw [← hmap]; exact hp)
  alive fd c hc := h.alive fd c (by rw [← hconn]; exact hc)
  own fd sd c h₁ h₂ := h.own fd sd c (by rw [← hconn]; exact h₁) (by rw [← hconn]; exact h₂)

/-- **Notes about a connection that no session has**, or that leave it alive. -/
theorem Lawful.notes (h : Lawful T) (es : List Note) {c : ℕ} {s s' : Life} (hc : c < T.conns)
    (hs : T.life c = some s) (hes : es.foldlM Life.next s = some s')
    (hlive : T.Loose c ∨ s' = .announced) : Lawful (T.notes c es) where
  inv := h.inv
  follows d := by
    by_cases hd : d = c
    · rw [hd, life_notes_same hs]
      exact ⟨s', hes⟩
    · rw [life_notes_ne T hd]
      exact h.follows d
  new d hd := by
    have hne : d ≠ c := by
      rintro rfl
      exact absurd hc (not_lt.mpr hd)
    rw [life_notes_ne T hne]
    exact h.new d hd
  held := h.held
  alive fd d hd := by
    obtain ⟨hlt, hlife⟩ := h.alive fd d hd
    refine ⟨hlt, ?_⟩
    by_cases hdc : d = c
    · rcases hlive with hloose | rfl
      · exact absurd (hdc ▸ hd) (hloose fd)
      · rw [hdc, life_notes_same hs]
        exact .inr hes
    · rw [life_notes_ne T hdc]
      exact hlife
  own := h.own

/-- **A session is recycled**, after notes that end the life of its connection. -/
theorem Lawful.recycle (h : Lawful T) (es : List Note) {fd : QSock} {p c : ℕ} {s s' : Life}
    (hp : T.mgr.umapSession.lookup fd = some p) (hc : T.mgr.conn fd = some c)
    (hs : T.life c = some s) (hes : es.foldlM Life.next s = some s') :
    Lawful { T.notes c es with mgr := T.mgr.recycle fd p }
      ∧ Loose { T.notes c es with mgr := T.mgr.recycle fd p } c := by
  -- first the session goes, then the notes are about a connection that none has
  have hconn := SessionManager.conn_recycle h.inv hp
  have hsub : ∀ sd d, (T.mgr.recycle fd p).conn sd = some d →
      sd ≠ fd ∧ T.mgr.conn sd = some d := by
    intro sd d hd
    rw [hconn] at hd
    exact update_none_cases hd
  have hgone : Lawful { T with mgr := T.mgr.recycle fd p } :=
    { inv := h.inv.recycle hp
      follows := h.follows
      new := h.new
      held := by
        intro sd q hq
        obtain ⟨hsd, hlook⟩ := SessionManager.lookup_recycle hq
        obtain ⟨d, hd⟩ := h.held sd q hlook
        refine ⟨d, ?_⟩
        show (T.mgr.recycle fd p).conn sd = some d
        rw [hconn, Function.update_of_ne hsd, hd]
      alive := fun sd d hd => h.alive sd d (hsub sd d hd).2
      own := fun sd rd d h₁ h₂ => h.own sd rd d (hsub sd d h₁).2 (hsub rd d h₂).2 }
  have hloose : Loose { T with mgr := T.mgr.recycle fd p } c := by
    intro sd hsd
    obtain ⟨hne, hin⟩ := hsub sd c hsd
    exact hne (h.own sd fd c hin hc)
  exact ⟨hgone.notes es (h.alive fd c hc).1 hs hes (.inl hloose), hloose⟩

/-- A connection that is alive can be closed. -/
theorem foldlM_close {T : WorkThread} {c : ℕ}
    (h : T.life c = some .fresh ∨ T.life c = some .announced) :
    ∃ s, T.life c = some s ∧ [Note.sockClose, .pooled].foldlM Life.next s = some .gone := by
  rcases h with h | h
  · exact ⟨_, h, rfl⟩
  · exact ⟨_, h, rfl⟩

/-- What a close can do: nothing, or say the close and recycle the session. -/
theorem Lawful.closeLinkByID_cases (h : Lawful T) (iID : QSock) :
    T.closeLinkByID iID = T
      ∨ ∃ p c, T.mgr.umapSession.lookup iID = some p ∧ T.mgr.conn iID = some c
        ∧ T.closeLinkByID iID
          = { T.notes c [.sockClose, .pooled] with mgr := T.mgr.recycle iID p } := by
  unfold closeLinkByID
  by_cases hid : iID = invalidSock
  · rw [if_pos hid]
    exact .inl rfl
  · rw [if_neg hid]
    cases hp : T.mgr.umapSession.lookup iID with
    | none => exact .inl rfl
    | some p =>
      obtain ⟨c, hc⟩ := h.held iID p hp
      refine .inr ⟨p, c, rfl, hc, ?_⟩
      have hmgr : T.mgr.closeLinkByID iID = T.mgr.recycle iID p := by
        rw [SessionManager.closeLinkByID, if_neg hid, hp]
      dsimp only
      rw [noteSession_eq hp hc, noteSession_eq (T := T.notes c [.sockClose]) hp hc]
      show ({ mgr := T.mgr.closeLinkByID iID, .. } : WorkThread) = _
      rw [hmgr, WorkThread.notes, WorkThread.notes, WorkThread.notes, List.append_assoc]
      rfl

theorem Lawful.closeLinkByID (h : Lawful T) (iID : QSock) : Lawful (T.closeLinkByID iID) := by
  rcases h.closeLinkByID_cases iID with heq | ⟨p, c, hp, hc, heq⟩
  · rw [heq]
    exact h
  · obtain ⟨s, hs, hes⟩ := foldlM_close (h.alive iID c hc).2
    rw [heq]
    exact (h.recycle _ hp hc hs hes).1

theorem Lawful.set (h : Lawful T) (p : ℕ) (call : SessionObject.Setter) : Lawful (T.set p call) :=
  h.withMgr (h.inv.step (.set p call)) rfl (funext (SessionManager.conn_set _ p call))

/-- **A handler keeps the law.** -/
theorem Lawful.acts (h : Lawful T) (acts : List Act) : Lawful (acts.foldl act T) := by
  induction acts generalizing T with
  | nil => exact h
  | cons a acts ih =>
    refine ih ?_
    cases a with
    | set p call => exact h.set p call
    | closeLinkByID iID => exact h.closeLinkByID iID

theorem Lawful.sets (h : Lawful T) (calls : List (ℕ × SessionObject.Setter)) :
    Lawful (calls.foldl (fun T call => T.set call.1 call.2) T) := by
  induction calls generalizing T with
  | nil => exact h
  | cons call calls ih => exact ih (h.set call.1 call.2)

/-- The current session and the count are not part of the law. -/
theorem Lawful.withCurrent (h : Lawful T) (current : Option ℕ) (count : ℕ) :
    Lawful { T with mgr := { T.mgr with current := current, count := count } } :=
  h.withMgr ⟨h.inv.nodup, h.inv.used, h.inv.ids⟩ rfl rfl

theorem Lawful.workThreadReadCB (h : Lawful T) (bev : BufferEvent)
    (calls : List (ℕ × SessionObject.Setter)) (bClose : Bool) :
    Lawful (T.workThreadReadCB bev calls bClose) := by
  unfold WorkThread.workThreadReadCB
  cases T.mgr.getSession bev with
  | none => exact h
  | some p =>
    dsimp only
    refine Lawful.withCurrent ?_ none _
    have hset := (h.withCurrent (some p) T.mgr.count).sets calls
    split_ifs
    · exact hset.closeLinkByID _
    · exact hset

/-- The session that `getSession` finds is the one in the map. -/
theorem lookup_of_getSession {M : SessionManager} {bev : BufferEvent} {p : ℕ}
    (h : M.getSession bev = some p) : M.umapSession.lookup bev.fd = some p := by
  unfold SessionManager.getSession at h
  split_ifs at h
  exact h

theorem dellSession_eq {bev : BufferEvent} {p c : ℕ}
    (hp : T.mgr.umapSession.lookup bev.fd = some p) (hc : T.mgr.conn bev.fd = some c) :
    T.dellSession bev = { T.notes c [.pooled] with mgr := T.mgr.recycle bev.fd p } := by
  have hmgr : T.mgr.dellSession bev = T.mgr.recycle bev.fd p := by
    rw [SessionManager.dellSession, hp]
  rw [dellSession, hp]
  dsimp only
  rw [noteSession_eq hp hc, hmgr]

theorem Lawful.workThreadEventCB (h : Lawful T) (bev : BufferEvent) :
    Lawful (T.workThreadEventCB bev) := by
  unfold WorkThread.workThreadEventCB
  cases hget : T.mgr.getSession bev with
  | none => exact h
  | some p =>
    have hp := lookup_of_getSession hget
    obtain ⟨c, hc⟩ := h.held bev.fd p hp
    obtain ⟨s, hs, hes⟩ := foldlM_close (h.alive bev.fd c hc).2
    dsimp only
    rw [noteSession_eq hp hc]
    have heq := dellSession_eq (T := T.notes c [.sockClose]) hp hc
    rw [heq, WorkThread.notes, WorkThread.notes, List.append_assoc]
    exact (h.recycle _ hp hc hs hes).1

/-! ### Setting a connection up -/

/-- The number of the next connection is taken. -/
theorem Lawful.take (h : Lawful T) : Lawful { T with conns := T.conns + 1 } where
  inv := h.inv
  follows := h.follows
  new c hc := h.new c (by have : T.conns + 1 ≤ c := hc; omega)
  held := h.held
  alive fd c hc := ⟨Nat.lt_succ_of_lt (h.alive fd c hc).1, (h.alive fd c hc).2⟩
  own := h.own

/-- No session has a connection that is still to come. -/
theorem Lawful.loose_conns (h : Lawful T) : T.Loose T.conns :=
  fun fd hfd => absurd (h.alive fd _ hfd).1 (lt_irrefl _)

/-- A connection that no session has and of which nothing bad was said has failed. -/
theorem Lawful.fail (h : Lawful T) {c : ℕ} (hc : c < T.conns)
    (hs : T.life c = some .fresh ∨ T.life c = some .dropped) (hloose : T.Loose c) :
    Lawful (T.note c .failed) := by
  rcases hs with hs | hs
  · exact h.notes [.failed] hc hs rfl (.inl hloose)
  · exact h.notes [.failed] hc hs rfl (.inl hloose)

/-- A session is added for a connection that has none: it is the connection of its
socket now. -/
theorem Lawful.addSession_of_ok (h : Lawful T) {bev : BufferEvent}
    (hok : SessionManager.BufferOk bev) (hc : bev.id < T.conns)
    (hs : T.life bev.id = some .fresh) (hloose : T.Loose bev.id) :
    Lawful { T with mgr := (T.mgr.addSession bev).2 } := by
  have hconn := SessionManager.conn_addSession_of_ok h.inv hok
  have hcases : ∀ fd c, (T.mgr.addSession bev).2.conn fd = some c →
      (fd = bev.fd ∧ c = bev.id) ∨ (fd ≠ bev.fd ∧ T.mgr.conn fd = some c) := by
    intro fd c hfd
    rw [hconn] at hfd
    exact update_some_cases hfd
  refine ⟨h.inv.addSession bev, h.follows, h.new, fun fd p hp => ?_, fun fd c hfd => ?_,
    fun fd sd c h₁ h₂ => ?_⟩
  · show ∃ c, (T.mgr.addSession bev).2.conn fd = some c
    rw [hconn]
    by_cases hne : fd = bev.fd
    · exact ⟨bev.id, by rw [hne, Function.update_self]⟩
    · rw [Function.update_of_ne hne]
      dsimp only at hp
      rw [SessionManager.addSession_of_ok hok] at hp
      dsimp only at hp
      rw [AList.lookup_insert_ne hne] at hp
      exact h.held fd p hp
  · rcases hcases fd c hfd with ⟨-, rfl⟩ | ⟨-, hold⟩
    · exact ⟨hc, .inl hs⟩
    · exact h.alive fd c hold
  · rcases hcases fd c h₁ with ⟨rfl, rfl⟩ | ⟨-, hold⟩
    · rcases hcases sd _ h₂ with ⟨rfl, -⟩ | ⟨-, hold⟩
      · rfl
      · exact absurd hold (hloose sd)
    · rcases hcases sd c h₂ with ⟨-, rfl⟩ | ⟨-, hold'⟩
      · exact absurd hold (hloose fd)
      · exact h.own fd sd c hold hold'

/-- **Adding the session of a fresh connection.** When it succeeds the session is of
that connection; when it fails, the connection is dropped. -/
theorem Lawful.addSession (h : Lawful T) (bev : BufferEvent) (hc : bev.id < T.conns)
    (hs : T.life bev.id = some .fresh) (hloose : T.Loose bev.id) :
    Lawful (T.addSession bev).2 ∧ (T.addSession bev).2.conns = T.conns
      ∧ if (T.addSession bev).1 then
          (T.addSession bev).2.mgr.conn bev.fd = some bev.id
            ∧ (T.addSession bev).2.life bev.id = some .fresh
        else
          (T.addSession bev).2.life bev.id = some .dropped
            ∧ (T.addSession bev).2.Loose bev.id := by
  by_cases hok : SessionManager.BufferOk bev
  · have hadd : T.addSession bev = (true, { T with mgr := (T.mgr.addSession bev).2 }) := by
      rw [WorkThread.addSession, SessionManager.addSession_of_ok hok]
      rfl
    have hnew : (T.mgr.addSession bev).2.conn bev.fd = some bev.id := by
      rw [SessionManager.conn_addSession_of_ok h.inv hok, Function.update_self]
    rw [hadd]
    exact ⟨h.addSession_of_ok hok hc hs hloose, rfl, hnew, hs⟩
  · have hconn := SessionManager.conn_addSession_of_not_ok h.inv hok
    have hadd : T.addSession bev
        = (false, { T with mgr := (T.mgr.addSession bev).2 }.notes bev.id [.pooled]) := by
      rw [WorkThread.addSession, SessionManager.addSession_of_not_ok hok]
      rfl
    have hmap : (T.mgr.addSession bev).2.umapSession = T.mgr.umapSession := by
      rw [SessionManager.addSession_of_not_ok hok]
    have hmgr := h.withMgr (h.inv.addSession bev) hmap hconn
    have hloose' : Loose { T with mgr := (T.mgr.addSession bev).2 } bev.id := by
      intro fd hfd
      exact hloose fd (by rw [← hconn]; exact hfd)
    rw [hadd]
    refine ⟨hmgr.notes [.pooled] hc hs rfl (.inl hloose'), rfl, ?_, hloose'⟩
    exact life_notes_same (T := { T with mgr := (T.mgr.addSession bev).2 }) hs _

/-- The session is that of a connection of which nothing has been said. -/
def Silent (T : WorkThread) (p : ℕ) : Prop :=
  ∃ fd c, T.mgr.umapSession.lookup fd = some p ∧ T.mgr.conn fd = some c ∧ T.life c = some .fresh

theorem Silent.set {p q : ℕ} (h : T.Silent p) (call : SessionObject.Setter) :
    (T.set q call).Silent p := by
  obtain ⟨fd, c, hp, hc, hs⟩ := h
  exact ⟨fd, c, hp, (SessionManager.conn_set _ q call fd).trans hc, hs⟩

/-- **An announcement keeps the law.** -/
theorem Lawful.announce (h : Lawful T) {p : ℕ} {e : Note} (hp : T.Silent p) (he : e.Announces) :
    Lawful (T.noteSession p e) := by
  obtain ⟨fd, c, hp, hc, hs⟩ := hp
  rw [noteSession_eq hp hc]
  refine h.notes [e] (h.alive fd c hc).1 hs ?_ (.inr rfl)
  rcases he with rfl | rfl
  · rfl
  · rfl

/-- **A set-up keeps the law**, and when it succeeds nothing has been said yet. -/
theorem Lawful.setUp (h : Lawful T) (stWorkSock : TriggerSock) (o : SetUpOutcome) :
    Lawful (T.setUp stWorkSock o).2
      ∧ ∀ p, (T.setUp stWorkSock o).1 = some p → (T.setUp stWorkSock o).2.Silent p := by
  have hT := h.take
  have hs : ({ T with conns := T.conns + 1 } : WorkThread).life T.conns = some .fresh :=
    h.new _ le_rfl
  have hlt := Nat.lt_succ_self T.conns
  have hloose : Loose { T with conns := T.conns + 1 } T.conns := h.loose_conns
  unfold WorkThread.setUp
  dsimp only
  by_cases hmade : o.made = true
  · rw [hmade]
    set bev : BufferEvent := ⟨T.conns, stWorkSock.iSock, o.input, o.output⟩
    obtain ⟨hadd, hconns, hres⟩ := hT.addSession bev hlt hs hloose
    cases hok : (({ T with conns := T.conns + 1 } : WorkThread).addSession bev).1 with
    | false =>
      rw [hok] at hres
      exact ⟨hadd.fail (by rw [hconns]; exact hlt) (.inr hres.1) hres.2, nofun⟩
    | true =>
      rw [hok] at hres
      obtain ⟨hconn, hfresh⟩ := hres
      by_cases hen : o.enabled = true
      · rw [hen]
        refine ⟨hadd, fun p hp => ?_⟩
        exact ⟨bev.fd, bev.id, lookup_of_getSession hp, hconn, hfresh⟩
      · rw [Bool.not_eq_true] at hen
        rw [hen]
        refine ⟨?_, nofun⟩
        -- the session that was just added is taken out again
        obtain ⟨p, hp⟩ : ∃ p, (({ T with conns := T.conns + 1 } : WorkThread).addSession
            bev).2.mgr.umapSession.lookup bev.fd = some p := by
          cases hl : (({ T with conns := T.conns + 1 } : WorkThread).addSession
            bev).2.mgr.umapSession.lookup bev.fd with
          | none =>
            rw [SessionManager.conn_of_none hl] at hconn
            cases hconn
          | some p => exact ⟨p, rfl⟩
        obtain ⟨hdell, hout⟩ := hadd.recycle [.pooled] hp hconn hfresh rfl
        show Lawful ((WorkThread.dellSession _ bev).note T.conns .failed)
        rw [dellSession_eq hp hconn]
        refine hdell.fail ?_ (.inr ?_) hout
        · show T.conns < (({ T with conns := T.conns + 1 } : WorkThread).addSession bev).2.conns
          rw [hconns]
          exact hlt
        · exact life_notes_same hfresh _
  · rw [Bool.not_eq_true] at hmade
    rw [hmade]
    exact ⟨hT.fail hlt (.inl hs) hloose, nofun⟩

theorem Lawful.onMainSock (h : Lawful T) (stWorkSock : TriggerSock) (o : SetUpOutcome) :
    Lawful (T.onMainSock stWorkSock o) := by
  obtain ⟨hlaw, hsilent⟩ := h.setUp stWorkSock o
  unfold WorkThread.onMainSock
  rcases hup : T.setUp stWorkSock o with ⟨_ | p, T'⟩
  · rw [hup] at hlaw
    exact hlaw
  · rw [hup] at hlaw hsilent
    dsimp only
    have hp := ((hsilent p rfl).set (q := p) (.type stWorkSock.emType)).set (q := p)
      (.status .linked)
    have hl := (hlaw.set p (.type stWorkSock.emType)).set p (.status .linked)
    split_ifs
    · exact ((hl.set p _).announce (hp.set _) (.inl rfl)).acts _
    · exact hl.set p _
    · exact (hl.announce hp (.inl rfl)).acts _
    · exact hl

theorem Lawful.onAssistSock (h : Lawful T) (stWorkSock : TriggerSock) (o : SetUpOutcome) :
    Lawful (T.onAssistSock stWorkSock o) := by
  obtain ⟨hlaw, hsilent⟩ := h.setUp stWorkSock o
  unfold WorkThread.onAssistSock
  rcases hup : T.setUp stWorkSock o with ⟨_ | p, T'⟩
  · rw [hup] at hlaw
    exact hlaw
  · rw [hup] at hlaw hsilent
    have hp := ((hsilent p rfl).set (q := p) (.type stWorkSock.emType)).set (q := p)
      (.status .linked)
    exact (((hlaw.set p _).set p _).announce hp (.inr rfl)).acts _

/-- **Every input keeps the law.** -/
theorem Lawful.step (h : Lawful T) (i : Input) : Lawful (T.step i) := by
  cases i with
  | main socks =>
    show Lawful (socks.foldl _ T)
    induction socks generalizing T with
    | nil => exact h
    | cons s socks ih => exact ih (h.onMainSock s.1 s.2)
  | assist socks =>
    show Lawful (socks.foldl _ T)
    induction socks generalizing T with
    | nil => exact h
    | cons s socks ih => exact ih (h.onAssistSock s.1 s.2)
  | read bev calls bClose => exact h.workThreadReadCB bev calls bClose
  | event bev => exact h.workThreadEventCB bev
  | timer acts => exact (h.withCurrent T.mgr.current (T.mgr.count + 1)).acts acts

end Step

/-! ### Runs -/

/-- **Every run follows the law.** -/
theorem lawful_run (is : List Input) : Lawful (is.foldl step start) := by
  suffices h : ∀ T : WorkThread, Lawful T → Lawful (is.foldl step T) from h _ Lawful.start
  induction is with
  | nil => exact fun _ h => h
  | cons i is ih => exact fun T h => ih _ (h.step i)

/-- **Every announced connection is closed exactly once**, in every run of the
worker and whatever comes of the steps in it. -/
theorem closedOnce_of_run (is : List Input) (c : ℕ) :
    ClosedOnce (history (is.foldl step start).log c) := by
  obtain ⟨s, hs⟩ := (lawful_run is).follows c
  exact Life.closedOnce hs

/-- A connection is accepted and closed by a timer; the next one gets its socket, and
its peer disconnects; a third one cannot be enabled. -/
example :
    let ok : SetUpOutcome := ⟨true, true, true, true, []⟩
    let T := [Input.main [(⟨5, .tcp⟩, ok)], .timer [.closeLinkByID 5], .main [(⟨5, .tcp⟩, ok)],
      .event ⟨1, 5, true, true⟩, .assist [(⟨5, .tcpClient⟩, { ok with enabled := false })]].foldl
        step start
    history T.log 0 = [.connected, .sockClose, .pooled]
      ∧ history T.log 1 = [.connected, .sockClose, .pooled]
      ∧ history T.log 2 = [.pooled, .failed] := by
  decide +kernel

end WorkThread
