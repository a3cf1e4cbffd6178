import QService.SessionLife

/-!
# The sessions as the scripts know them

Scripts keep what they know of a connection under its session ID, which is its
socket, and under its ID card, which `OnConnected.lua` gives to every connection
that is announced. A socket is handed out again as soon as it is closed; a card is
not. `SessionUtile.lua` and `RegLinkOther.lua` hold such knowledge over time: a
close that is asked for is made five ticks later, and a server that has registered
itself stays in `g_LinkedOther` until it is closed.

Here the scripts run on the worker of `SessionLife`. Everything they do happens in
the thread of the worker: one input of the worker is one step.
-/

/-! ## The session of a socket -/

/-- The connection of a session object. -/
def SessionObject.conn (O : SessionObject) : Option ℕ := O.buffer.bev.map BufferEvent.id

namespace SessionManager

variable {M : SessionManager} {fd : QSock} {p : ℕ} {O : SessionObject}

/-- The session of a socket. -/
def session (M : SessionManager) (fd : QSock) : Option SessionObject :=
  (M.umapSession.lookup fd).map M.objects

/-- `CSessionManager::getSessionByID`. -/
def getSessionByID (M : SessionManager) (iID : QSock) : Option ℕ :=
  if iID = invalidSock then none else M.umapSession.lookup iID

theorem session_of_lookup (h : M.umapSession.lookup fd = some p) :
    M.session fd = some (M.objects p) := by
  rw [session, h]
  rfl

theorem exists_of_session (h : M.session fd = some O) :
    ∃ p, M.umapSession.lookup fd = some p ∧ M.objects p = O :=
  Option.map_eq_some_iff.mp h

theorem lookup_of_getSessionByID {iID : QSock} (h : M.getSessionByID iID = some p) :
    M.umapSession.lookup iID = some p := by
  unfold getSessionByID at h
  split_ifs at h
  exact h

/-- Two managers with the same sessions. -/
theorem session_congr {N : SessionManager} {sd : QSock}
    (hlook : N.umapSession.lookup sd = M.umapSession.lookup sd)
    (hobj : ∀ p, M.umapSession.lookup sd = some p → N.objects p = M.objects p) :
    N.session sd = M.session sd := by
  cases hp : M.umapSession.lookup sd with
  | none => rw [session, session, hlook, hp, Option.map_none, Option.map_none]
  | some p => rw [session_of_lookup hp, session_of_lookup (hlook.trans hp), hobj p hp]

/-- A session that is recycled is gone. -/
theorem session_recycle (h : Inv M) (hp : M.umapSession.lookup fd = some p) :
    (M.recycle fd p).session = Function.update M.session fd none := by
  funext sd
  by_cases hsd : sd = fd
  · rw [hsd, Function.update_self, session]
    exact Option.map_eq_none_iff.mpr (AList.lookup_erase _ _)
  · rw [Function.update_of_ne hsd]
    exact session_congr (AList.lookup_erase_ne hsd) fun q hq =>
      objects_recycle_ne (h.ne_of_lookup hq hp hsd)

/-- The objects of the pool are not sessions. -/
theorem session_update_malloc (h : Inv M) {N : SessionManager} {sd : QSock} {O : SessionObject}
    (hlook : N.umapSession.lookup sd = M.umapSession.lookup sd)
    (hobj : N.objects = Function.update M.objects M.sessionPool.malloc.1 O) :
    N.session sd = M.session sd := by
  refine session_congr hlook fun q hq => ?_
  rw [hobj, Function.update_of_ne (h.ne_malloc_of_lookup hq)]

/-- A session that is added. -/
theorem session_addSession_of_ok (h : Inv M) {bev : BufferEvent} (hok : BufferOk bev) :
    (M.addSession bev).2.session = Function.update M.session bev.fd (some { M.mallocObject with
      buffer := ⟨some bev, bev.fd⟩, sessionID := bev.fd, ping := M.count }) := by
  funext sd
  by_cases hsd : sd = bev.fd
  · rw [hsd, Function.update_self, session_of_lookup (lookup_addSession hok),
      objects_addSession hok]
  · rw [Function.update_of_ne hsd, addSession_of_ok hok]
    exact session_update_malloc h (AList.lookup_insert_ne hsd) rfl

theorem session_addSession_of_not_ok (h : Inv M) {bev : BufferEvent} (hok : ¬ BufferOk bev) :
    (M.addSession bev).2.session = M.session := by
  funext sd
  rw [addSession_of_not_ok hok]
  exact session_update_malloc h rfl rfl

/-- A session whose object is changed. -/
theorem session_modify (h : Inv M) (hp : M.umapSession.lookup fd = some p)
    (f : SessionObject → SessionObject) :
    (M.modify p f).session = Function.update M.session fd (some (f (M.objects p))) := by
  funext sd
  by_cases hsd : sd = fd
  · have hp' : (M.modify p f).umapSession.lookup sd = some p := by
      rw [hsd]
      exact hp
    rw [session_of_lookup hp', objects_modify, if_pos rfl, hsd, Function.update_self]
  · rw [Function.update_of_ne hsd]
    refine session_congr rfl fun q hq => ?_
    rw [objects_modify, if_neg (h.ne_of_lookup hq hp hsd)]

/-- The socket of a session is its session ID. -/
theorem Inv.sessionID (h : Inv M) (hs : M.session fd = some O) : O.sessionID = fd := by
  obtain ⟨p, hp, rfl⟩ := exists_of_session hs
  exact (h.ids fd p hp).1

end SessionManager

/-! ## What the worker does to the sessions -/

namespace SessionManager

variable {M : SessionManager} {fd : QSock} {p : ℕ}

/-- Setters of a session are called. -/
theorem Clean.sets (h : Clean M) (hp : M.umapSession.lookup fd = some p)
    (calls : List SessionObject.Setter) :
    let N := calls.foldl (fun N call => N.modify p (SessionObject.set · call)) M
    Clean N ∧ N.session
      = Function.update M.session fd (some (calls.foldl SessionObject.set (M.objects p))) := by
  induction calls generalizing M with
  | nil =>
    refine ⟨h, ?_⟩
    rw [List.foldl_nil, List.foldl_nil, ← session_of_lookup hp, Function.update_eq_self]
  | cons call calls ih =>
    have hproper : M.ClearedFrees (.set p call) := ⟨h.used p (mem_values hp), trivial⟩
    have hset : Clean (M.modify p (SessionObject.set · call)) := h.step hproper
    obtain ⟨hclean, hsession⟩ := ih hset hp
    refine ⟨hclean, ?_⟩
    rw [List.foldl_cons, hsession, session_modify h.toInv hp, Function.update_idem,
      objects_modify, if_pos rfl, List.foldl_cons]

end SessionManager

namespace WorkThread

variable {T : WorkThread} {stWorkSock : TriggerSock} {o : SetUpOutcome}

@[simp] theorem mgr_noteSession (T : WorkThread) (p : ℕ) (e : Note) :
    (T.noteSession p e).mgr = T.mgr := by
  unfold noteSession
  split
  · rfl
  · rfl

/-- A close by ID is the manager's. -/
theorem mgr_closeLinkByID (T : WorkThread) (iID : QSock) :
    (T.closeLinkByID iID).mgr = T.mgr.closeLinkByID iID := by
  rw [closeLinkByID]
  split
  · rw [SessionManager.closeLinkByID, if_pos ‹_›]
  · cases hp : T.mgr.umapSession.lookup iID with
    | none => rw [SessionManager.closeLinkByID, if_neg ‹_›, hp]
    | some p =>
      show (T.noteSession p .sockClose).mgr.closeLinkByID iID = T.mgr.closeLinkByID iID
      rw [mgr_noteSession]

/-- The end of a connection takes its session out. -/
theorem mgr_workThreadEventCB {bev : BufferEvent} {p : ℕ} (h : T.mgr.getSession bev = some p) :
    (T.workThreadEventCB bev).mgr = T.mgr.recycle bev.fd p := by
  have hp := lookup_of_getSession h
  unfold workThreadEventCB dellSession
  rw [h]
  dsimp only
  rw [mgr_noteSession, hp]
  dsimp only
  rw [SessionManager.dellSession, hp]

/-- The new session of a connection, before it is given anything. -/
structure IsNew (T : WorkThread) (fd : QSock) (O : SessionObject) : Prop where
  idCard : O.idCard = []
  conn : O.conn = some T.conns
  valid : fd ≠ invalidSock

/-- **A set-up opens a session, or leaves the sessions as they were.** -/
theorem setUp_cases (h : T.mgr.Clean) (hfree : stWorkSock.iSock ∉ T.mgr.umapSession) :
    (T.setUp stWorkSock o).2.mgr.Clean
      ∧ ((T.setUp stWorkSock o).1 = none
          ∧ (T.setUp stWorkSock o).2.mgr.session = T.mgr.session
        ∨ ∃ p, (T.setUp stWorkSock o).1 = some p
          ∧ (T.setUp stWorkSock o).2.mgr.umapSession.lookup stWorkSock.iSock = some p
          ∧ T.IsNew stWorkSock.iSock ((T.setUp stWorkSock o).2.mgr.objects p)
          ∧ (T.setUp stWorkSock o).2.mgr.session = Function.update T.mgr.session
            stWorkSock.iSock (some ((T.setUp stWorkSock o).2.mgr.objects p))) := by
  set bev : BufferEvent := ⟨T.conns, stWorkSock.iSock, o.input, o.output⟩
  have hadd : (T.mgr.addSession bev).2.Clean := h.addSession (h.toInv.addSession bev)
  unfold WorkThread.setUp
  dsimp only
  cases o.made with
  | false => exact ⟨h, .inl ⟨rfl, rfl⟩⟩
  | true =>
    by_cases hok : SessionManager.BufferOk bev
    · have hT : WorkThread.addSession { T with conns := T.conns + 1 } bev
          = (true, { T with conns := T.conns + 1, mgr := (T.mgr.addSession bev).2 }) := by
        rw [WorkThread.addSession, SessionManager.addSession_of_ok hok]
        rfl
      have hp := SessionManager.lookup_addSession (M := T.mgr) hok
      have hsession := SessionManager.session_addSession_of_ok h.toInv hok
      rw [if_neg (by decide), hT]
      cases o.enabled with
      | false =>
        -- the session is taken out again, and there was none before
        have hdell : (T.mgr.addSession bev).2.dellSession bev
            = (T.mgr.addSession bev).2.recycle bev.fd T.mgr.sessionPool.malloc.1 := by
          rw [SessionManager.dellSession, hp]
        have hnone : T.mgr.session bev.fd = none := by
          rw [SessionManager.session, AList.lookup_eq_none.mpr hfree, Option.map_none]
        have hmgr : (WorkThread.dellSession { T with
            conns := T.conns + 1, mgr := (T.mgr.addSession bev).2 } bev).mgr
              = (T.mgr.addSession bev).2.dellSession bev := by
          rw [WorkThread.dellSession]
          dsimp only
          rw [hp]
        refine ⟨?_, .inl ⟨rfl, ?_⟩⟩
        · show (WorkThread.dellSession _ bev).mgr.Clean
          rw [hmgr, hdell]
          exact hadd.recycle (hadd.toInv.recycle hp)
        · show (WorkThread.dellSession _ bev).mgr.session = _
          rw [hmgr, hdell, SessionManager.session_recycle hadd.toInv hp, hsession,
            Function.update_idem, ← hnone, Function.update_eq_self]
      | true =>
        have hget : (T.mgr.addSession bev).2.getSession bev
            = some T.mgr.sessionPool.malloc.1 := by
          rw [SessionManager.getSession, if_neg hok.2.2, hp]
        have hobj := SessionManager.objects_addSession (M := T.mgr) hok
        refine ⟨hadd, .inr ⟨T.mgr.sessionPool.malloc.1, hget, hp, ?_, ?_⟩⟩
        · show T.IsNew bev.fd ((T.mgr.addSession bev).2.objects _)
          rw [hobj]
          exact ⟨h.mallocObject.2.1, rfl, hok.2.2⟩
        · show (T.mgr.addSession bev).2.session = Function.update T.mgr.session bev.fd
            (some ((T.mgr.addSession bev).2.objects _))
          rw [hsession, hobj]
    · have hT : WorkThread.addSession { T with conns := T.conns + 1 } bev
          = (false, { T with conns := T.conns + 1, mgr := (T.mgr.addSession bev).2 }.note
            bev.id .pooled) := by
        rw [WorkThread.addSession, SessionManager.addSession_of_not_ok hok]
        rfl
      rw [if_neg (by decide), hT]
      exact ⟨hadd, .inl ⟨rfl, SessionManager.session_addSession_of_not_ok h.toInv hok⟩⟩

/-- `clientOnConnected` and `linkOtherOnConnected`: the session that is announced gets a
card. -/
def onConnected (strIDCard : List UInt8) (pSession : Option ℕ) : List Act :=
  pSession.toList.map fun p => .set p (.idCard strIDCard)

/-- What is set in a session that was accepted. -/
def mainCalls (emType : SessionType) (strIDCard : List UInt8) : List SessionObject.Setter :=
  [.type emType, .status .linked] ++ (if emType = .webSock then [.status .connect] else [])
    ++ (if emType = .debug then [] else [.idCard strIDCard])

/-- What is set in a session that the server has opened itself. -/
def assistCalls (emType : SessionType) (strIDCard : List UInt8) : List SessionObject.Setter :=
  [.type emType, .status .linked, .idCard strIDCard]

theorem mgr_onMainSock {p : ℕ} {T' : WorkThread} (strIDCard : List UInt8)
    (hup : T.setUp stWorkSock o = (some p, T')) :
    (T.onMainSock stWorkSock { o with acts := onConnected strIDCard (some p) }).mgr
      = (mainCalls stWorkSock.emType strIDCard).foldl
        (fun N call => N.modify p (SessionObject.set · call)) T'.mgr := by
  have hup' : T.setUp stWorkSock { o with acts := onConnected strIDCard (some p) }
      = (some p, T') := hup
  unfold onMainSock
  rw [hup']
  cases stWorkSock.emType
  all_goals
    simp [mainCalls, onConnected, act, WorkThread.set, SessionManager.modify, SessionObject.set]

theorem mgr_onAssistSock {p : ℕ} {T' : WorkThread} (strIDCard : List UInt8)
    (hup : T.setUp stWorkSock o = (some p, T')) :
    (T.onAssistSock stWorkSock { o with acts := onConnected strIDCard (some p) }).mgr
      = (assistCalls stWorkSock.emType strIDCard).foldl
        (fun N call => N.modify p (SessionObject.set · call)) T'.mgr := by
  have hup' : T.setUp stWorkSock { o with acts := onConnected strIDCard (some p) }
      = (some p, T') := hup
  unfold onAssistSock
  rw [hup']
  simp [assistCalls, onConnected, act, WorkThread.set]

theorem conn_sets (calls : List SessionObject.Setter) (O : SessionObject) :
    (calls.foldl SessionObject.set O).conn = O.conn := by
  induction calls generalizing O with
  | nil => rfl
  | cons call calls ih =>
    rw [List.foldl_cons, ih, SessionObject.conn, SessionObject.conn,
      (SessionManager.set_ids O call).2]

theorem idCard_mainCalls (emType : SessionType) (strIDCard : List UInt8) {O : SessionObject}
    (hO : O.idCard = []) :
    ((mainCalls emType strIDCard).foldl SessionObject.set O).idCard
      = if emType = .debug then [] else strIDCard := by
  cases emType
  all_goals simp [mainCalls, SessionObject.set, hO]

/-- The worker has opened a session with this card on the socket of the connection. -/
structure Opened (T T' : WorkThread) (fd : QSock) (strIDCard : List UInt8) (O : SessionObject) :
    Prop where
  session : T'.mgr.session = Function.update T.mgr.session fd (some O)
  conn : O.conn = some T.conns
  idCard : O.idCard = strIDCard
  valid : fd ≠ invalidSock

/-- What a round does to the sessions that sets one up and then, if that worked, gives it
what its type needs. -/
theorem cases_of_setUp (h : T.mgr.Clean) (hfree : stWorkSock.iSock ∉ T.mgr.umapSession)
    {U : WorkThread} {strIDCard : List UInt8} {calls : List SessionObject.Setter}
    (hfails : ∀ T', T.setUp stWorkSock o = (none, T') → U = T')
    (hworks : ∀ p T', T.setUp stWorkSock o = (some p, T') →
      U.mgr = calls.foldl (fun N call => N.modify p (SessionObject.set · call)) T'.mgr)
    (hcard : ∀ O : SessionObject, O.idCard = [] →
      (calls.foldl SessionObject.set O).idCard = strIDCard) :
    U.mgr.Clean ∧ ((T.setUp stWorkSock o).1 = none ∧ U.mgr.session = T.mgr.session
      ∨ (T.setUp stWorkSock o).1.isSome ∧ ∃ O, Opened T U stWorkSock.iSock strIDCard O) := by
  obtain ⟨hclean, hcases⟩ := setUp_cases (o := o) h hfree
  rcases hup : T.setUp stWorkSock o with ⟨_ | p, T₁⟩
  · rw [hup] at hclean hcases
    rcases hcases with ⟨-, hsession⟩ | ⟨p, hp, -⟩
    · rw [hfails T₁ hup]
      exact ⟨hclean, .inl ⟨rfl, hsession⟩⟩
    · cases hp
  · rw [hup] at hclean hcases
    rcases hcases with ⟨hnone, -⟩ | ⟨q, hq, hlook, hnew, hsession⟩
    · cases hnone
    · obtain rfl := Option.some.inj hq
      obtain ⟨hclean', hsession'⟩ := hclean.sets hlook calls
      dsimp only at hsession hlook hnew
      rw [← hworks p T₁ hup] at hclean' hsession'
      rw [hsession, Function.update_idem] at hsession'
      exact ⟨hclean', .inr ⟨rfl, _, hsession', (conn_sets calls _).trans hnew.conn,
        hcard _ hnew.idCard, hnew.valid⟩⟩

/-- What one round of `onMainRead` does to the sessions. -/
theorem onMainSock_cases (h : T.mgr.Clean) (hfree : stWorkSock.iSock ∉ T.mgr.umapSession)
    (strIDCard : List UInt8) {T' : WorkThread}
    (hT' : T' = T.onMainSock stWorkSock
      { o with acts := onConnected strIDCard (T.setUp stWorkSock o).1 }) :
    T'.mgr.Clean ∧ ((T.setUp stWorkSock o).1 = none ∧ T'.mgr.session = T.mgr.session
      ∨ (T.setUp stWorkSock o).1.isSome ∧ ∃ O, Opened T T' stWorkSock.iSock
        (if stWorkSock.emType = .debug then [] else strIDCard) O) := by
  refine cases_of_setUp h hfree (fun T₁ hup => ?_) (fun p T₁ hup => ?_)
    (fun O hO => idCard_mainCalls stWorkSock.emType strIDCard hO)
  · rw [hT', hup]
    unfold onMainSock
    rw [show T.setUp stWorkSock { o with acts := onConnected strIDCard none } = (none, T₁)
      from hup]
  · rw [hT', hup]
    exact mgr_onMainSock strIDCard hup

/-- What one round of `onAssistRead` does to the sessions. -/
theorem onAssistSock_cases (h : T.mgr.Clean) (hfree : stWorkSock.iSock ∉ T.mgr.umapSession)
    (strIDCard : List UInt8) {T' : WorkThread}
    (hT' : T' = T.onAssistSock stWorkSock
      { o with acts := onConnected strIDCard (T.setUp stWorkSock o).1 }) :
    T'.mgr.Clean ∧ ((T.setUp stWorkSock o).1 = none ∧ T'.mgr.session = T.mgr.session
      ∨ (T.setUp stWorkSock o).1.isSome ∧ ∃ O, Opened T T' stWorkSock.iSock strIDCard O) := by
  have hcard : ∀ O : SessionObject, O.idCard = [] →
      ((assistCalls stWorkSock.emType strIDCard).foldl SessionObject.set O).idCard = strIDCard :=
    fun _ _ => rfl
  refine cases_of_setUp h hfree (fun T₁ hup => ?_) (fun p T₁ hup => ?_) hcard
  · rw [hT', hup]
    unfold onAssistSock
    rw [show T.setUp stWorkSock { o with acts := onConnected strIDCard none } = (none, T₁)
      from hup]
  · rw [hT', hup]
    exact mgr_onAssistSock strIDCard hup

end WorkThread
