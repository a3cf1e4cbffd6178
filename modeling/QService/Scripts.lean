import QService.LuaSession

/-!
# Delayed closes and registered servers

The scripts of `SessionUtile.lua` and `RegLinkOther.lua` on the worker. A step is one
input of the worker with what the scripts do then. The table `g_LinkedOther` and the
closes that wait name a connection by its session ID and its card; the model notes
the connection itself beside them.

* **The table holds only live sessions** (`linkedOther_live`): the entry of a
  connection is removed on every path on which its session is closed.
* **A delayed close closes the connection it was asked for** (`close_own`) unless it
  was asked for one without a card. A debug connection has none, and two of them on
  the same socket are not told apart (`realClose_other`).

The wheel of `TimeWheel` runs a delayed event when its ticks are over; here the due
ones are run at each tick.
-/

/-- An entry of `g_LinkedOther`, and the connection whose message made it. -/
structure Linked (ν : Type) where
  strName : ν
  iSessionID : QSock
  conn : Option ℕ
  deriving DecidableEq, Repr

/-- A `realClose` that waits: when it is due, its arguments, and the connection it was
asked for. -/
structure DelayedClose where
  due : ℕ
  iSessionID : QSock
  strIDCard : List UInt8
  conn : Option ℕ
  deriving DecidableEq, Repr

/-- The worker and the scripts. -/
structure Scripts (ν : Type) where
  work : WorkThread
  /-- the cards that `getID` has given, and to which connection -/
  given : List (List UInt8 × ℕ)
  /-- `g_LinkedOther` -/
  linkedOther : AList fun _ : List UInt8 => Linked ν
  tick : ℕ
  delayed : List DelayedClose
  /-- the closes that `realClose` has made: for which connection, and of which -/
  closed : List (Option ℕ × Option ℕ)

namespace Scripts

variable {ν : Type}

/-- What the worker is woken up for. -/
inductive Input (ν : Type)
  /-- a socket for `onMainRead` -/
  | main (stWorkSock : TriggerSock) (o : SetUpOutcome)
  /-- a socket for `onAssistRead` -/
  | assist (stWorkSock : TriggerSock) (o : SetUpOutcome)
  /-- a message `SYS_RegLinkOther` -/
  | regLinkOther (bev : BufferEvent) (strName : ν)
  /-- the end of a connection -/
  | event (bev : BufferEvent)
  /-- a script calls `closeLinkByID` -/
  | closeLinkByID (iID : QSock)
  /-- a script calls `closeCur` when a message is read -/
  | closeCur (bev : BufferEvent)
  /-- a script calls `closeID` -/
  | closeID (iSessionID : QSock)
  /-- a second has passed -/
  | onDelayEvent

def start : Scripts ν := ⟨.start, [], ∅, 0, [], []⟩

/-- A socket that is taken over is announced, unless it is that of a debug session;
the announced session gets the next card. -/
def onMainSock (getID : ℕ → List UInt8) (S : Scripts ν) (stWorkSock : TriggerSock)
    (o : SetUpOutcome) : Scripts ν :=
  let pSession := (S.work.setUp stWorkSock o).1
  let strIDCard := getID S.given.length
  { S with
    work := S.work.onMainSock stWorkSock
      { o with acts := WorkThread.onConnected strIDCard pSession }
    given := if pSession.isSome ∧ stWorkSock.emType ≠ .debug then
      S.given ++ [(strIDCard, S.work.conns)] else S.given }

def onAssistSock (getID : ℕ → List UInt8) (S : Scripts ν) (stWorkSock : TriggerSock)
    (o : SetUpOutcome) : Scripts ν :=
  let pSession := (S.work.setUp stWorkSock o).1
  let strIDCard := getID S.given.length
  { S with
    work := S.work.onAssistSock stWorkSock
      { o with acts := WorkThread.onConnected strIDCard pSession }
    given := if pSession.isSome then S.given ++ [(strIDCard, S.work.conns)] else S.given }

/-- `regLinkedOther`, called when a message is read. The messages of a debug session go
to `onDebug`. -/
def regLinkedOther (S : Scripts ν) (bev : BufferEvent) (strName : ν) : Scripts ν :=
  match S.work.mgr.getSession bev with
  | none => S
  | some p =>
    let objCurSession := S.work.mgr.objects p
    let entry : Linked ν := ⟨strName, objCurSession.getSessionID, objCurSession.conn⟩
    if objCurSession.type = .debug then S
    else { S with linkedOther := S.linkedOther.insert objCurSession.idCard entry }

/-- `removeLinkedOther`, called by `onSockClose`. -/
def removeLinkedOther (S : Scripts ν) (p : ℕ) : Scripts ν :=
  { S with linkedOther := S.linkedOther.erase (S.work.mgr.objects p).idCard }

/-- `CWorkThreadEvent::workThreadEventCB`. -/
def workThreadEventCB (S : Scripts ν) (bev : BufferEvent) : Scripts ν :=
  match S.work.mgr.getSession bev with
  | none => S
  | some p => { S.removeLinkedOther p with work := S.work.workThreadEventCB bev }

/-- `CSessionManager::closeLinkByID`. -/
def closeLinkByID (S : Scripts ν) (iID : QSock) : Scripts ν :=
  match S.work.mgr.getSessionByID iID with
  | none => S
  | some p => { S.removeLinkedOther p with work := S.work.closeLinkByID iID }

/-- `realClose`. A session that is gone is a `nil`, and the call of its `getIDCard` an
error, which ends the script. -/
def realClose (S : Scripts ν) (d : DelayedClose) : Scripts ν :=
  match S.work.mgr.getSessionByID d.iSessionID with
  | none => S
  | some p =>
    if (S.work.mgr.objects p).idCard ≠ d.strIDCard then S
    else { S.closeLinkByID d.iSessionID with
      closed := S.closed ++ [(d.conn, S.work.mgr.conn d.iSessionID)] }

/-- `regDelayEvent(5, realClose, iSessionID, strIDCard)` for a session. -/
def delayClose (S : Scripts ν) (p : ℕ) : Scripts ν :=
  let objSession := S.work.mgr.objects p
  let d : DelayedClose :=
    ⟨S.tick + 5, objSession.getSessionID, objSession.idCard, objSession.conn⟩
  { S with delayed := S.delayed ++ [d] }

/-- `closeCur`, in the read of a connection. -/
def closeCur (S : Scripts ν) (bev : BufferEvent) : Scripts ν :=
  match S.work.mgr.getSession bev with
  | none => S
  | some p => S.delayClose p

def closeID (S : Scripts ν) (iSessionID : QSock) : Scripts ν :=
  match S.work.mgr.getSessionByID iSessionID with
  | none => S
  | some p => S.delayClose p

/-- `onDelayEvent`: the delayed closes that are due are made. The wheel goes through a slot from
its end. -/
def onDelayEvent (S : Scripts ν) : Scripts ν :=
  let tick := S.tick + 1
  (S.delayed.filter (·.due = tick)).reverse.foldl realClose
    { S with tick := tick, delayed := S.delayed.filter (·.due ≠ tick) }

/-- One step. -/
def step (getID : ℕ → List UInt8) (S : Scripts ν) : Input ν → Scripts ν
  | .main stWorkSock o => S.onMainSock getID stWorkSock o
  | .assist stWorkSock o => S.onAssistSock getID stWorkSock o
  | .regLinkOther bev strName => S.regLinkedOther bev strName
  | .event bev => S.workThreadEventCB bev
  | .closeLinkByID iID => S.closeLinkByID iID
  | .closeCur bev => S.closeCur bev
  | .closeID iSessionID => S.closeID iSessionID
  | .onDelayEvent => S.onDelayEvent

/-- `returnToName`: the connections that the message is sent to. -/
def returnToName [DecidableEq ν] (S : Scripts ν) (strName : ν) : List (Option ℕ) :=
  (S.linkedOther.entries.filter (·.2.strName = strName)).filterMap fun e =>
    (S.work.mgr.getSessionByID e.2.iSessionID).map fun p => (S.work.mgr.objects p).conn

/-- The system hands out a socket only when no session has it, and sockets are numbers
that an `int` holds. -/
def FreeSock (S : Scripts ν) : Input ν → Prop
  | .main stWorkSock _ | .assist stWorkSock _ =>
    stWorkSock.iSock ∉ S.work.mgr.umapSession ∧ CInt.int.Fits stWorkSock.iSock
  | _ => True

instance (S : Scripts ν) : DecidablePred S.FreeSock
  | .main _ _ | .assist _ _ => inferInstanceAs (Decidable (_ ∧ _))
  | .regLinkOther _ _ | .event _ | .closeLinkByID _ | .closeCur _ | .closeID _
  | .onDelayEvent => .isTrue trivial

/-! ## What a step can do -/

variable {getID : ℕ → List UInt8} {S S' : Scripts ν}

/-- What a script or a callback of the worker does to the sessions and to what the
scripts know. A delayed close is `realCloses`. -/
inductive Move (getID : ℕ → List UInt8) (S : Scripts ν) : Scripts ν → Prop
  | stay : Move getID S S
  | fails {W : WorkThread} (hclean : W.mgr.Clean) (hW : W.mgr.session = S.work.mgr.session) :
      Move getID S { S with work := W }
  | opens {W : WorkThread} {fd : QSock} {strIDCard : List UInt8} {O : SessionObject}
      {given : List (List UInt8 × ℕ)} (hclean : W.mgr.Clean)
      (hO : WorkThread.Opened S.work W fd strIDCard O) (hfree : S.work.mgr.session fd = none)
      (hfits : CInt.int.Fits fd)
      (hgiven : strIDCard = [] ∧ given = S.given ∨ strIDCard = getID S.given.length
        ∧ given = S.given ++ [(strIDCard, S.work.conns)]) :
      Move getID S { S with work := W, given := given }
  | registers {fd : QSock} {O : SessionObject} (strName : ν)
      (hs : S.work.mgr.session fd = some O) :
      Move getID S { S with
        linkedOther := S.linkedOther.insert O.idCard ⟨strName, O.getSessionID, O.conn⟩ }
  | closes {W : WorkThread} {fd : QSock} {O : SessionObject} (hclean : W.mgr.Clean)
      (hs : S.work.mgr.session fd = some O)
      (hW : W.mgr.session = Function.update S.work.mgr.session fd none) :
      Move getID S { S with work := W, linkedOther := S.linkedOther.erase O.idCard }
  | delays {fd : QSock} {O : SessionObject} (due : ℕ) (hs : S.work.mgr.session fd = some O) :
      Move getID S { S with
        delayed := S.delayed ++ [⟨due, O.getSessionID, O.idCard, O.conn⟩] }

/-- A socket that is free has no session. -/
theorem session_eq_none {M : SessionManager} {fd : QSock} (h : fd ∉ M.umapSession) :
    M.session fd = none := by
  rw [SessionManager.session, AList.lookup_eq_none.mpr h, Option.map_none]

theorem move_onMainSock (h : S.work.mgr.Clean) {stWorkSock : TriggerSock} {o : SetUpOutcome}
    (hfree : stWorkSock.iSock ∉ S.work.mgr.umapSession ∧ CInt.int.Fits stWorkSock.iSock) :
    Move getID S (S.onMainSock getID stWorkSock o) := by
  obtain ⟨hclean, ⟨hnone, hsession⟩ | ⟨hsome, O, hO⟩⟩ :=
    WorkThread.onMainSock_cases (o := o) h hfree.1 (getID S.given.length) rfl
  · unfold onMainSock
    rw [hnone] at hclean hsession ⊢
    exact .fails hclean hsession
  · unfold onMainSock
    refine .opens hclean hO (session_eq_none hfree.1) hfree.2 ?_
    by_cases hdebug : stWorkSock.emType = .debug
    · rw [if_pos hdebug, if_neg (fun hc => hc.2 hdebug)]
      exact .inl ⟨rfl, rfl⟩
    · rw [if_neg hdebug, if_pos ⟨hsome, hdebug⟩]
      exact .inr ⟨rfl, rfl⟩

theorem move_onAssistSock (h : S.work.mgr.Clean) {stWorkSock : TriggerSock} {o : SetUpOutcome}
    (hfree : stWorkSock.iSock ∉ S.work.mgr.umapSession ∧ CInt.int.Fits stWorkSock.iSock) :
    Move getID S (S.onAssistSock getID stWorkSock o) := by
  obtain ⟨hclean, ⟨hnone, hsession⟩ | ⟨hsome, O, hO⟩⟩ :=
    WorkThread.onAssistSock_cases (o := o) h hfree.1 (getID S.given.length) rfl
  · unfold onAssistSock
    rw [hnone] at hclean hsession ⊢
    exact .fails hclean hsession
  · unfold onAssistSock
    refine .opens hclean hO (session_eq_none hfree.1) hfree.2 (.inr ⟨rfl, ?_⟩)
    rw [if_pos hsome]

theorem move_regLinkedOther (bev : BufferEvent) (strName : ν) :
    Move getID S (S.regLinkedOther bev strName) := by
  unfold regLinkedOther
  split
  · exact .stay
  case h_2 p hp =>
    dsimp only
    split
    · exact .stay
    · exact .registers strName
        (SessionManager.session_of_lookup (WorkThread.lookup_of_getSession hp))

/-- A session that is recycled, with its entry. -/
theorem move_recycle (h : S.work.mgr.Clean) {W : WorkThread} {fd : QSock} {p : ℕ}
    (hp : S.work.mgr.umapSession.lookup fd = some p)
    (hW : W.mgr = S.work.mgr.recycle fd p) :
    Move getID S { S.removeLinkedOther p with work := W } := by
  refine .closes ?_ (SessionManager.session_of_lookup hp) ?_
  · rw [hW]
    exact h.recycle (h.toInv.recycle hp)
  · rw [hW]
    exact SessionManager.session_recycle h.toInv hp

theorem move_workThreadEventCB (h : S.work.mgr.Clean) (bev : BufferEvent) :
    Move getID S (S.workThreadEventCB bev) := by
  unfold workThreadEventCB
  split
  · exact .stay
  case h_2 p hp =>
    exact move_recycle h (WorkThread.lookup_of_getSession hp)
      (WorkThread.mgr_workThreadEventCB hp)

theorem mgr_closeLinkByID {iID : QSock} {p : ℕ}
    (hp : S.work.mgr.getSessionByID iID = some p) :
    (S.work.closeLinkByID iID).mgr = S.work.mgr.recycle iID p := by
  have hne : iID ≠ invalidSock := by
    rintro rfl
    cases hp
  rw [WorkThread.mgr_closeLinkByID, SessionManager.closeLinkByID, if_neg hne,
    SessionManager.lookup_of_getSessionByID hp]

theorem move_closeLinkByID (h : S.work.mgr.Clean) (iID : QSock) :
    Move getID S (S.closeLinkByID iID) := by
  unfold closeLinkByID
  split
  · exact .stay
  case h_2 p hp =>
    exact move_recycle h (SessionManager.lookup_of_getSessionByID hp) (mgr_closeLinkByID hp)

theorem move_closeCur (bev : BufferEvent) : Move getID S (S.closeCur bev) := by
  unfold closeCur
  split
  · exact .stay
  case h_2 p hp =>
    exact .delays _ (SessionManager.session_of_lookup (WorkThread.lookup_of_getSession hp))

theorem move_closeID (iSessionID : QSock) : Move getID S (S.closeID iSessionID) := by
  unfold closeID
  split
  · exact .stay
  case h_2 p hp =>
    exact .delays _ (SessionManager.session_of_lookup (SessionManager.lookup_of_getSessionByID hp))

/-- **Every step but a tick is one of these.** -/
theorem move_step (h : S.work.mgr.Clean) {i : Input ν} (hi : S.FreeSock i)
    (hne : i ≠ .onDelayEvent) : Move getID S (S.step getID i) := by
  cases i with
  | main stWorkSock o => exact move_onMainSock h hi
  | assist stWorkSock o => exact move_onAssistSock h hi
  | regLinkOther bev strName => exact move_regLinkedOther bev strName
  | event bev => exact move_workThreadEventCB h bev
  | closeLinkByID iID => exact move_closeLinkByID h iID
  | closeCur bev => exact move_closeCur bev
  | closeID iSessionID => exact move_closeID iSessionID
  | onDelayEvent => exact absurd rfl hne

/-- A delayed close is made only of a session with its card. -/
theorem realClose_cases (S : Scripts ν) (d : DelayedClose) :
    S.realClose d = S ∨ ∃ O, S.work.mgr.session d.iSessionID = some O ∧ O.idCard = d.strIDCard
      ∧ S.realClose d
        = { S.closeLinkByID d.iSessionID with closed := S.closed ++ [(d.conn, O.conn)] } := by
  unfold realClose
  split
  · exact .inl rfl
  case h_2 p hp =>
    split
    · exact .inl rfl
    case isFalse hcard =>
      have hlook := SessionManager.lookup_of_getSessionByID hp
      refine .inr ⟨_, SessionManager.session_of_lookup hlook, not_not.mp hcard, ?_⟩
      rw [SessionManager.conn_of_lookup hlook]
      rfl

/-- A tick keeps what its delayed closes keep. -/
theorem onDelayEvent_rule {I : Scripts ν → Prop}
    (htick : I { S with
      tick := S.tick + 1, delayed := S.delayed.filter (·.due ≠ S.tick + 1) })
    (hclose : ∀ S' d, d ∈ S.delayed → I S' → I (S'.realClose d)) : I S.onDelayEvent :=
  List.foldlRecOn _ _ htick fun S' hS' d hd =>
    hclose S' d (List.mem_of_mem_filter (List.mem_reverse.mp hd)) hS'

/-! ## The table of linked servers -/

/-- Every session has a connection and a socket that is a session ID, and every entry of
the table is that of a session. -/
structure Tracks (S : Scripts ν) : Prop where
  clean : S.work.mgr.Clean
  valid : ∀ fd O, S.work.mgr.session fd = some O →
    O.getSessionID = fd ∧ fd ≠ invalidSock ∧ O.conn.isSome
  live : ∀ card l, S.linkedOther.lookup card = some l →
    ∃ O, S.work.mgr.session l.iSessionID = some O ∧ O.idCard = card ∧ O.conn = l.conn

theorem Tracks.start : (start : Scripts ν).Tracks where
  clean := SessionManager.Clean.start
  valid fd O h := by cases h
  live card l h := by cases h

theorem Tracks.move (h : S.Tracks) (hm : Move getID S S') : S'.Tracks := by
  cases hm with
  | stay => exact h
  | fails hclean hW =>
    refine ⟨hclean, ?_, ?_⟩
    · rw [hW]
      exact h.valid
    · rw [hW]
      exact h.live
  | @opens W fd strIDCard O given hclean hO hfree hfits =>
    refine ⟨hclean, fun sd O' hs => ?_, fun card l hl => ?_⟩
    · have hid := hclean.toInv.sessionID hs
      dsimp only at hs
      rw [hO.session] at hs
      rcases update_some_cases hs with ⟨rfl, rfl⟩ | ⟨-, hs⟩
      · refine ⟨?_, hO.valid, by rw [hO.conn]; rfl⟩
        rw [SessionObject.getSessionID, hid, CInt.cast_of_fits hfits]
      · exact h.valid sd O' hs
    · obtain ⟨O', hs, hcard, hconn⟩ := h.live card l hl
      refine ⟨O', ?_, hcard, hconn⟩
      have hne : l.iSessionID ≠ fd := by
        rintro rfl
        rw [hfree] at hs
        cases hs
      dsimp only
      rw [hO.session, Function.update_of_ne hne, hs]
  | @registers fd O strName hs =>
    refine ⟨h.clean, h.valid, fun card l hl => ?_⟩
    dsimp only at hl
    by_cases hcard : card = O.idCard
    · rw [hcard, AList.lookup_insert] at hl
      obtain rfl := Option.some.inj hl
      refine ⟨O, ?_, hcard.symm, rfl⟩
      rw [show (Linked.mk strName O.getSessionID O.conn).iSessionID = O.getSessionID from rfl,
        (h.valid fd O hs).1]
      exact hs
    · rw [AList.lookup_insert_ne hcard] at hl
      exact h.live card l hl
  | @closes W fd O hclean hs hW =>
    refine ⟨hclean, fun sd O' hs' => ?_, fun card l hl => ?_⟩
    · dsimp only at hs'
      rw [hW] at hs'
      exact h.valid sd O' (update_none_cases hs').2
    · dsimp only at hl ⊢
      -- the entry of the session that is closed is gone
      have hcard : card ≠ O.idCard := by
        rintro rfl
        rw [AList.lookup_erase] at hl
        cases hl
      rw [AList.lookup_erase_ne hcard] at hl
      obtain ⟨O', hs', hcard', hconn⟩ := h.live card l hl
      have hne : l.iSessionID ≠ fd := by
        intro hfd
        rw [hfd, hs] at hs'
        exact hcard (hcard'.symm.trans (congrArg _ (Option.some.inj hs').symm))
      rw [hW, Function.update_of_ne hne]
      exact ⟨O', hs', hcard', hconn⟩
  | delays due hs => exact ⟨h.clean, h.valid, h.live⟩

theorem Tracks.realClose (h : S.Tracks) (d : DelayedClose) : (S.realClose d).Tracks := by
  rcases S.realClose_cases d with heq | ⟨O, -, -, heq⟩
  · rw [heq]
    exact h
  · have hmove : Move (fun _ => []) S (S.closeLinkByID d.iSessionID) :=
      move_closeLinkByID h.clean d.iSessionID
    have hclose := h.move hmove
    rw [heq]
    exact ⟨hclose.clean, hclose.valid, hclose.live⟩

theorem Tracks.step (h : S.Tracks) {i : Input ν} (hi : S.FreeSock i) :
    (S.step getID i).Tracks := by
  by_cases hne : i = .onDelayEvent
  · subst hne
    refine onDelayEvent_rule ⟨h.clean, h.valid, h.live⟩ fun S' d _ hS' => ?_
    exact hS'.realClose d
  · exact h.move (move_step h.clean hi hne)

/-- **The table of linked servers holds only live sessions**: in every run, each entry
is under the card of a session that exists, with the ID of this session and of the
connection that has registered itself; so a message that is returned to a name goes
to the connections that have registered under it, and to no other. -/
theorem linkedOther_live [DecidableEq ν] (h : Reach (step getID) FreeSock start S) :
    (∀ card l, S.linkedOther.lookup card = some l →
      ∃ p, S.work.mgr.umapSession.lookup l.iSessionID = some p
        ∧ (S.work.mgr.objects p).getSessionID = l.iSessionID
        ∧ (S.work.mgr.objects p).idCard = card ∧ (S.work.mgr.objects p).conn = l.conn
        ∧ l.conn.isSome)
      ∧ ∀ strName, S.returnToName strName
        = (S.linkedOther.entries.filter (·.2.strName = strName)).map (·.2.conn) := by
  have hT : S.Tracks := h.invariant Tracks .start fun S i hS hi => hS.step hi
  have hlive : ∀ card l, S.linkedOther.lookup card = some l →
      ∃ p, S.work.mgr.getSessionByID l.iSessionID = some p
        ∧ S.work.mgr.umapSession.lookup l.iSessionID = some p
        ∧ (S.work.mgr.objects p).getSessionID = l.iSessionID
        ∧ (S.work.mgr.objects p).idCard = card ∧ (S.work.mgr.objects p).conn = l.conn
        ∧ l.conn.isSome := by
    intro card l hl
    obtain ⟨O, hs, hcard, hconn⟩ := hT.live card l hl
    obtain ⟨hid, hne, hsome⟩ := hT.valid _ O hs
    obtain ⟨p, hp, rfl⟩ := SessionManager.exists_of_session hs
    exact ⟨p, by rw [SessionManager.getSessionByID, if_neg hne, hp], hp, hid, hcard, hconn,
      hconn ▸ hsome⟩
  refine ⟨fun card l hl => ?_, fun strName => ?_⟩
  · obtain ⟨p, -, hp⟩ := hlive card l hl
    exact ⟨p, hp⟩
  · unfold returnToName
    rw [← List.filterMap_eq_map]
    refine List.filterMap_congr fun e he => ?_
    obtain ⟨p, hget, -, -, -, hconn, -⟩ :=
      hlive e.1 e.2 (AList.mem_lookup_iff.mpr (List.mem_of_mem_filter he))
    rw [hget, Option.map_some, hconn]
    rfl

/-- A socket with everything a set-up needs. -/
def setUpOk : SetUpOutcome := ⟨true, true, true, true, []⟩

/-- Two servers register, the second one twice; the first one goes, and its socket is
given to a client. -/
def registerTwice : List (Input ℕ) :=
  [.main ⟨5, .tcp⟩ setUpOk, .regLinkOther ⟨0, 5, true, true⟩ 1, .main ⟨6, .tcp⟩ setUpOk,
    .regLinkOther ⟨1, 6, true, true⟩ 1, .regLinkOther ⟨1, 6, true, true⟩ 2,
    .event ⟨0, 5, true, true⟩, .main ⟨5, .webSock⟩ setUpOk]

/-- Cards for an example. -/
def cardOf (n : ℕ) : List UInt8 := List.replicate (n + 1) 48

theorem linkedOther_live_registerTwice :
    let S := registerTwice.foldl (step cardOf) start
    S.returnToName 2 = [some 1] ∧ S.returnToName 1 = [] := by
  intro S
  have hrun : Reach (step cardOf) FreeSock start S :=
    Reach.start.of_list registerTwice (by decide +kernel)
  rw [(linkedOther_live hrun).2, (linkedOther_live hrun).2]
  decide +kernel

/-! ## Delayed closes -/

/-- A close is asked for only of a session that has a card, and a socket that is handed
out is free. -/
def Identified (S : Scripts ν) (i : Input ν) : Prop :=
  S.FreeSock i ∧ match i with
    | .closeCur bev => ∀ p ∈ S.work.mgr.getSession bev, (S.work.mgr.objects p).idCard ≠ []
    | .closeID iID => ∀ p ∈ S.work.mgr.getSessionByID iID, (S.work.mgr.objects p).idCard ≠ []
    | _ => True

instance (S : Scripts ν) : DecidablePred S.Identified
  | .closeCur bev => inferInstanceAs (Decidable (S.FreeSock (.closeCur bev) ∧ ∀ p ∈ _, _))
  | .closeID iID => inferInstanceAs (Decidable (S.FreeSock (.closeID iID) ∧ ∀ p ∈ _, _))
  | .main stWorkSock o => inferInstanceAs (Decidable (S.FreeSock (.main stWorkSock o) ∧ True))
  | .assist stWorkSock o => inferInstanceAs (Decidable (S.FreeSock (.assist stWorkSock o) ∧ True))
  | .regLinkOther .. | .event _ | .closeLinkByID _ | .onDelayEvent => .isTrue ⟨trivial, trivial⟩

/-- A delayed close has the card of the connection it was asked for. -/
structure Asked (given : List (List UInt8 × ℕ)) (d : DelayedClose) : Prop where
  card : d.strIDCard ≠ []
  conn : ∃ c, d.conn = some c ∧ (d.strIDCard, c) ∈ given

/-- Every session without a card apart, a session has the card that its connection was
given; so has every delayed close; and the closes that were made are right. -/
structure Carded (getID : ℕ → List UInt8) (S : Scripts ν) : Prop where
  clean : S.work.mgr.Clean
  given : ∀ i e, S.given[i]? = some e → e.1 = getID i
  conn : ∀ fd O, S.work.mgr.session fd = some O →
    O.idCard = [] ∨ ∃ c, O.conn = some c ∧ (O.idCard, c) ∈ S.given
  asked : ∀ d ∈ S.delayed, Asked S.given d
  closed : ∀ e ∈ S.closed, ∃ c, e = (some c, some c)

theorem Carded.start : Carded getID (start : Scripts ν) where
  clean := SessionManager.Clean.start
  given i e h := by simp [Scripts.start] at h
  conn fd O h := by cases h
  asked d hd := by cases hd
  closed e he := by cases he

/-- A card is given to one connection. -/
theorem Carded.given_unique (h : Carded getID S) (hinj : Function.Injective getID)
    {card : List UInt8} {c c' : ℕ} (hc : (card, c) ∈ S.given) (hc' : (card, c') ∈ S.given) :
    c = c' := by
  obtain ⟨i, hi⟩ := List.mem_iff_getElem?.mp hc
  obtain ⟨j, hj⟩ := List.mem_iff_getElem?.mp hc'
  have hcard : getID i = getID j := (h.given i _ hi).symm.trans (h.given j (card, c') hj)
  have hij : i = j := hinj hcard
  rw [hij, hj] at hi
  exact congrArg Prod.snd (Option.some.inj hi).symm

/-- More cards are given. -/
theorem Asked.append {given : List (List UInt8 × ℕ)} {d : DelayedClose} (h : Asked given d)
    (more : List (List UInt8 × ℕ)) : Asked (given ++ more) d := by
  obtain ⟨c, hc, hmem⟩ := h.conn
  exact ⟨h.card, c, hc, List.mem_append_left _ hmem⟩

theorem Carded.move (h : Carded getID S) (hm : Move getID S S')
    (hcards : ∀ d ∈ S'.delayed, d.strIDCard ≠ []) : Carded getID S' := by
  cases hm with
  | stay => exact h
  | fails hclean hW =>
    refine ⟨hclean, h.given, ?_, h.asked, h.closed⟩
    rw [hW]
    exact h.conn
  | @opens W fd strIDCard O given hclean hO hfree hfits hgiven =>
    rcases hgiven with ⟨hcard, rfl⟩ | ⟨hcard, rfl⟩
    · refine ⟨hclean, h.given, fun sd O' hs => ?_, h.asked, h.closed⟩
      dsimp only at hs ⊢
      rw [hO.session] at hs
      rcases update_some_cases hs with ⟨-, rfl⟩ | ⟨-, hs⟩
      · exact .inl (hO.idCard.trans hcard)
      · exact h.conn sd O' hs
    · refine ⟨hclean, fun i e hi => ?_, fun sd O' hs => ?_, fun d hd => ?_, h.closed⟩
      · dsimp only at hi
        rcases Nat.lt_or_ge i S.given.length with hlt | hge
        · rw [List.getElem?_append_left hlt] at hi
          exact h.given i e hi
        · rw [List.getElem?_append_right hge] at hi
          obtain ⟨hlt, rfl⟩ := List.getElem?_eq_some_iff.mp hi
          have hlen : i = S.given.length := by
            rw [List.length_singleton] at hlt
            omega
          rw [List.getElem_singleton, hlen]
          exact hcard
      · dsimp only at hs ⊢
        rw [hO.session] at hs
        rcases update_some_cases hs with ⟨-, rfl⟩ | ⟨-, hs⟩
        · refine .inr ⟨S.work.conns, hO.conn, ?_⟩
          rw [hO.idCard]
          exact List.mem_append_right _ (List.mem_singleton_self _)
        · rcases h.conn sd O' hs with hempty | ⟨c, hc, hmem⟩
          · exact .inl hempty
          · exact .inr ⟨c, hc, List.mem_append_left _ hmem⟩
      · exact (h.asked d hd).append _
  | registers strName hs => exact ⟨h.clean, h.given, h.conn, h.asked, h.closed⟩
  | @closes W fd O hclean hs hW =>
    refine ⟨hclean, h.given, fun sd O' hs' => ?_, h.asked, h.closed⟩
    dsimp only at hs'
    rw [hW] at hs'
    exact h.conn sd O' (update_none_cases hs').2
  | @delays fd O due hs =>
    refine ⟨h.clean, h.given, h.conn, fun d hd => ?_, h.closed⟩
    rcases List.mem_append.mp hd with hold | hnew
    · exact h.asked d hold
    · obtain rfl := List.mem_singleton.mp hnew
      exact ⟨hcards _ hd, (h.conn fd O hs).resolve_left (hcards _ hd)⟩

/-- **A delayed close** of a connection with a card closes this connection or none. -/
theorem Carded.realClose (h : Carded getID S) (hinj : Function.Injective getID)
    {d : DelayedClose} (hd : Asked S.given d) : Carded getID (S.realClose d) := by
  rcases S.realClose_cases d with heq | ⟨O, hs, hcard, heq⟩
  · rw [heq]
    exact h
  · have hsame : (S.closeLinkByID d.iSessionID).given = S.given
        ∧ (S.closeLinkByID d.iSessionID).delayed = S.delayed
        ∧ (S.closeLinkByID d.iSessionID).closed = S.closed := by
      unfold closeLinkByID
      split
      · exact ⟨rfl, rfl, rfl⟩
      · exact ⟨rfl, rfl, rfl⟩
    obtain ⟨hgiven, hdelayed, hclosed⟩ := hsame
    have hclose := h.move (move_closeLinkByID h.clean d.iSessionID) (fun d' hd' => by
      rw [hdelayed] at hd'
      exact (h.asked d' hd').card)
    rw [heq]
    refine ⟨hclose.clean, hclose.given, hclose.conn, hclose.asked, fun e he => ?_⟩
    rcases List.mem_append.mp he with he | he
    · exact h.closed e he
    · obtain rfl := List.mem_singleton.mp he
      -- the session has the card, which was given to its connection alone
      obtain ⟨c, hc, hmem⟩ := hd.conn
      rcases h.conn _ O hs with hempty | ⟨c', hc', hmem'⟩
      · exact absurd (hcard.symm.trans hempty) hd.card
      · rw [hcard] at hmem'
        obtain rfl := h.given_unique hinj hmem hmem'
        exact ⟨c, by rw [hc, hc']⟩

/-- No step but a request changes the closes that wait, a tick apart. -/
theorem delayed_card (h : ∀ d ∈ S.delayed, d.strIDCard ≠ []) {i : Input ν}
    (hi : S.Identified i) (hne : i ≠ .onDelayEvent) :
    ∀ d ∈ (S.step getID i).delayed, d.strIDCard ≠ [] := by
  have hdelay : ∀ p, (S.work.mgr.objects p).idCard ≠ [] →
      ∀ d ∈ (S.delayClose p).delayed, d.strIDCard ≠ [] := by
    intro p hp d hd
    rcases List.mem_append.mp hd with hd | hd
    · exact h d hd
    · obtain rfl := List.mem_singleton.mp hd
      exact hp
  cases i with
  | main | assist => exact h
  | regLinkOther bev strName =>
    rw [step, regLinkedOther]
    split
    · exact h
    · dsimp only
      split
      · exact h
      · exact h
  | event bev =>
    rw [step, workThreadEventCB]
    split
    · exact h
    · exact h
  | closeLinkByID iID =>
    rw [step, closeLinkByID]
    split
    · exact h
    · exact h
  | closeCur bev =>
    rw [step, closeCur]
    split
    · exact h
    case h_2 p hp => exact hdelay p (hi.2 p hp)
  | closeID iSessionID =>
    rw [step, closeID]
    split
    · exact h
    case h_2 p hp => exact hdelay p (hi.2 p hp)
  | onDelayEvent => exact absurd rfl hne

theorem Carded.step (h : Carded getID S) (hinj : Function.Injective getID) {i : Input ν}
    (hi : S.Identified i) : Carded getID (S.step getID i) := by
  by_cases hne : i = .onDelayEvent
  · subst hne
    -- the cards that were given stay the same while the delayed closes are made
    refine (onDelayEvent_rule (I := fun S' => Carded getID S' ∧ S'.given = S.given)
      ⟨⟨h.clean, h.given, h.conn, fun d hd => ?_, h.closed⟩, rfl⟩ fun S' d hd hS' => ?_).1
    · exact h.asked d (List.mem_of_mem_filter hd)
    · refine ⟨hS'.1.realClose hinj (hS'.2 ▸ h.asked d hd), ?_⟩
      rw [← hS'.2, Scripts.realClose, closeLinkByID]
      split
      · rfl
      · split
        · rfl
        · split
          · rfl
          · rfl
  · exact h.move (move_step h.clean hi.1 hne)
      (delayed_card (fun d hd => (h.asked d hd).card) hi hne)

/-- **A delayed close hits its own connection** in every run in which closes are asked for
only of sessions with a card. -/
theorem close_own (hinj : Function.Injective getID)
    (h : Reach (step getID) Identified (start : Scripts ν) S) :
    ∀ e ∈ S.closed, ∃ c, e = (some c, some c) :=
  (h.invariant (Carded getID) .start fun _ _ hS hi => hS.step hinj hi).closed

theorem cardOf_injective : Function.Injective cardOf := by
  intro m n h
  simpa [cardOf] using congrArg List.length h

/-- Two closes are asked for; the first connection goes before its tick, and its socket is
given to another one, which stays; the second connection is closed. -/
def closeTwo : List (Input ℕ) :=
  [.main ⟨5, .tcp⟩ setUpOk, .main ⟨6, .webSock⟩ setUpOk, .closeCur ⟨0, 5, true, true⟩,
    .closeID 6, .event ⟨0, 5, true, true⟩, .main ⟨5, .debug⟩ setUpOk]
    ++ List.replicate 5 .onDelayEvent

theorem close_own_closeTwo :
    (closeTwo.foldl (step cardOf) start).closed ≠ []
      ∧ ∀ e ∈ (closeTwo.foldl (step cardOf) start).closed, ∃ c, e = (some c, some c) := by
  have hrun : Reach (step cardOf) Identified start (closeTwo.foldl (step cardOf) start) :=
    Reach.start.of_list closeTwo (by decide +kernel)
  exact ⟨by decide +kernel, close_own cardOf_injective hrun⟩

/-- A debug connection asks for its close and goes; the next debug connection gets its
socket before the five ticks are over. -/
def debugTwice : List (Input ℕ) :=
  [.main ⟨5, .debug⟩ setUpOk, .closeCur ⟨0, 5, true, true⟩, .event ⟨0, 5, true, true⟩,
    .main ⟨5, .debug⟩ setUpOk] ++ List.replicate 5 .onDelayEvent

theorem realClose_other :
    ¬ ∀ getID : ℕ → List UInt8, Function.Injective getID →
      ∀ S : Scripts ℕ, Reach (step getID) FreeSock start S →
        ∀ e ∈ S.closed, ∃ c, e = (some c, some c) := by
  intro h
  have hrun : Reach (step cardOf) FreeSock start (debugTwice.foldl (step cardOf) start) :=
    Reach.start.of_list debugTwice (by decide +kernel)
  have hclosed : (debugTwice.foldl (step cardOf) start).closed = [(some 0, some 1)] := by
    decide +kernel
  obtain ⟨c, hc⟩ := h cardOf cardOf_injective _ hrun (some 0, some 1) (by simp [hclosed])
  rw [Prod.mk.injEq] at hc
  exact absurd (Option.some.inj (hc.1.trans hc.2.symm)) (by decide)

end Scripts
