import QService.QString
import QService.Runs
import QService.TcpDispatch
import QService.WebSockDispatch

/-!
# Runs of the worker, and the isolation of connections

`Worker.step` is what the worker thread does on each of its events: a
connection is handed over by the main or the assist thread, bytes arrive, a
connection ends, the timer fires. The callbacks of the Lua side are part of
the event, as the sessions they close.

A message that is handed over for a connection should be made of what that
connection sent (`Isolated`). The places that keep it so are the ones that
erase a continuation entry when its session ends, and one is missing:
`closeLinkByID` leaves the entry of a WebSocket session alone. Where the
session ends inside `dispWebSock` or by `workThreadEventCB` the entry goes;
where a timer callback or the handler of another session closes it, the entry
stays for the next connection that gets the same socket (`stale_entry_leaks`).
A run in which no such close hits a session with an entry keeps the
connections apart (`isolated_of_cleanCloses`).
-/

namespace Worker

/-- What the worker thread is given. The lists are the sessions that a callback
closes with `closeLinkByID`. -/
inductive Input
  /-- A connection comes from a listening socket of the given type. -/
  | accept (fd : QSock) (type : SessionType) (ids : List QSock)
  /-- A connection to another server is made. -/
  | linkOther (fd : QSock) (ids : List QSock)
  /-- Bytes arrive. -/
  | read (fd : QSock) (chunk : List UInt8) (h : Handler)
  /-- The peer disconnects, or the connection breaks. -/
  | gone (fd : QSock)
  /-- The timer fires. -/
  | timer (ids : List QSock)

/-- `CSessionManager::addSession` and the type and status set after it. -/
def addSession (W : Worker) (fd : QSock) (type : SessionType) (status : SessionStatus) :
    Worker :=
  { W with
    session := Function.update W.session fd (some ⟨type, status, W.count, [], [], W.conns⟩)
    conns := W.conns + 1 }

/-- `CWorkThreadEvent::onMainRead` for one connection. -/
def onMainRead (W : Worker) (fd : QSock) (type : SessionType) (ids : List QSock) : Worker :=
  let status := if type = .webSock then .connect else .linked
  let W₁ := W.addSession fd type status
  if type ≠ .debug then (W₁.emit (.connected W.conns)).closeAll ids else W₁

/-- `CWorkThreadEvent::onAssistRead` for one connection. -/
def onAssistRead (W : Worker) (fd : QSock) (ids : List QSock) : Worker :=
  let W₁ := (W.addSession fd .tcpClient .linked).emit (.linkStatus fd .linked)
  (W₁.emit (.linkedOther W.conns)).closeAll ids

/-- `CWorkThreadEvent::workThreadReadCB`, after `chunk` was added to the read
buffer. -/
def workThreadReadCB (E : Env) (h : Handler) (fd : QSock) (chunk : List UInt8) (W : Worker) :
    Worker :=
  match W.session fd with
  | none => W
  | some S =>
    match S.type with
    | .webSock => dispWebSock E h fd (W.arrive fd chunk)
    | _ => dispTcp E h fd (W.arrive fd chunk)

/-- `CWorkThreadEvent::workThreadEventCB`. -/
def workThreadEventCB (W : Worker) (fd : QSock) : Worker :=
  match W.session fd with
  | none => W
  | some S =>
    let W := W.emit (.sockClose S.conn)
    let W :=
      match S.type with
      | .webSock => W.delContinuation fd
      | .tcpClient => W.emit (.linkStatus fd .closed)
      | _ => W
    { W with session := Function.update W.session fd none }

/-- `CWorkThreadEvent::onTimerRead` for one timer event. -/
def onTimerRead (W : Worker) (ids : List QSock) : Worker :=
  { W with count := W.count + 1 }.closeAll ids

/-- One event of the worker thread. -/
def step (E : Env) (W : Worker) : Input → Worker
  | .accept fd type ids => W.onMainRead fd type ids
  | .linkOther fd ids => W.onAssistRead fd ids
  | .read fd chunk h => workThreadReadCB E h fd chunk W
  | .gone fd => W.workThreadEventCB fd
  | .timer ids => W.onTimerRead ids

/-- The system gives a socket out only when no open connection has it. -/
def Enabled (W : Worker) : Input → Prop
  | .accept fd _ _ => fd ≠ invalidSock ∧ W.session fd = none
  | .linkOther fd _ => fd ≠ invalidSock ∧ W.session fd = none
  | _ => True

/-! ## Isolation -/

/-- The payloads received on a connection, in order. -/
def payloads (conn : ℕ) (log : List Event) : List (List UInt8) :=
  log.filterMap fun e =>
    match e with
    | .payload c data => if c = conn then some data else none
    | _ => none

/-- The message is put together from payloads received on the connection. -/
def Built (conn : ℕ) (msg : List UInt8) (log : List Event) : Prop :=
  ∃ parts : List (List UInt8), parts.Sublist (payloads conn log) ∧ msg = parts.flatten

/-- **The connections are kept apart**: every message handed over was built from
payloads received on its own connection before, and every continuation entry
was created by the connection that now has the socket. Connections are told
apart by their numbers, and the next number is unused. -/
structure Isolated (W : Worker) : Prop where
  reads : ∀ pre conn msg post, W.log = pre ++ .sockRead conn msg :: post → Built conn msg pre
  entries : ∀ fd c, W.webSockPack fd = some c → ∃ S, W.session fd = some S ∧ c.owner = S.conn
  fresh : payloads W.conns W.log = [] ∧ ∀ fd S, W.session fd = some S → S.conn < W.conns

/-- A close of `id` from outside its own read loop leaves no entry behind. -/
def Quiet (W : Worker) (id : QSock) : Prop :=
  ∀ S, W.session id = some S → S.type = .webSock → W.webSockPack id = none

/-- No callback closes a WebSocket session, other than the one whose message it
handles, while the session has a continuation entry. -/
def CleanCloses (W : Worker) : Input → Prop
  | .accept _ _ ids => ∀ id ∈ ids, W.Quiet id
  | .linkOther _ ids => ∀ id ∈ ids, W.Quiet id
  | .read fd _ h => ∀ log msg, ∀ id ∈ h log fd msg, id ≠ fd → W.Quiet id
  | .gone _ => True
  | .timer ids => ∀ id ∈ ids, W.Quiet id

theorem payloads_append (conn : ℕ) (l₁ l₂ : List Event) :
    payloads conn (l₁ ++ l₂) = payloads conn l₁ ++ payloads conn l₂ :=
  List.filterMap_append

theorem Built.append {conn : ℕ} {msg : List UInt8} {log : List Event}
    (h : Built conn msg log) (es : List Event) : Built conn msg (log ++ es) := by
  obtain ⟨parts, hsub, hmsg⟩ := h
  refine ⟨parts, ?_, hmsg⟩
  rw [payloads_append]
  exact hsub.trans (List.sublist_append_left _ _)

/-- A payload that has just arrived extends what was built before it. -/
theorem Built.payload {conn : ℕ} {msg : List UInt8} {log : List Event}
    (h : Built conn msg log) (data : List UInt8) :
    Built conn (msg ++ data) (log ++ [.payload conn data]) := by
  obtain ⟨parts, hsub, hmsg⟩ := h
  refine ⟨parts ++ [data], ?_, ?_⟩
  · rw [payloads_append, show payloads conn [.payload conn data] = [data] by simp [payloads]]
    exact hsub.append (List.Sublist.refl _)
  · rw [List.flatten_append, hmsg, List.flatten_singleton]

theorem Built.nil (conn : ℕ) (log : List Event) : Built conn [] log :=
  ⟨[], List.nil_sublist _, rfl⟩

/-! ## The invariant -/

/-- The continuation entry `c` of `fd` belongs to the session of `fd`, which has
had its handshake, and holds payloads of its connection. -/
def Owned (W : Worker) (fd : QSock) (c : Continuation) : Prop :=
  ∃ S, W.session fd = some S ∧ S.type = .webSock ∧ S.status ≠ .connect
    ∧ c.owner = S.conn ∧ Built S.conn c.data W.log

/-- Every entry has its owner. In the middle of a read of the socket `hole` its
session may be gone with its entry still there. -/
structure Inv (hole : Option QSock) (W : Worker) : Prop where
  entries : ∀ fd c, W.webSockPack fd = some c →
    W.Owned fd c ∨ (hole = some fd ∧ W.session fd = none)
  reads : ∀ pre conn msg post, W.log = pre ++ .sockRead conn msg :: post → Built conn msg pre
  fresh : ∀ conn, W.conns ≤ conn → payloads conn W.log = []
  sessions : ∀ fd S, W.session fd = some S → S.conn < W.conns

theorem Inv.start : Inv none start where
  entries fd c hc := by cases hc
  reads pre conn msg post h := by simp [Worker.start] at h
  fresh conn _ := rfl
  sessions fd S hS := by cases hS

theorem Inv.isolated {W : Worker} (h : Inv none W) : Isolated W where
  reads := h.reads
  entries fd c hc := by
    rcases h.entries fd c hc with ⟨S, hS, -, -, howner, -⟩ | ⟨hhole, -⟩
    · exact ⟨S, hS, howner⟩
    · cases hhole
  fresh := ⟨h.fresh _ le_rfl, h.sessions⟩

section Ops

variable {hole : Option QSock} {W : Worker}

theorem Owned.append {fd : QSock} {c : Continuation} (h : W.Owned fd c) (es : List Event)
    {W' : Worker} (hs : W'.session = W.session) (hlog : W'.log = W.log ++ es) :
    W'.Owned fd c := by
  obtain ⟨S, hS, htype, hst, howner, hbuilt⟩ := h
  refine ⟨S, by rw [hs, hS], htype, hst, howner, ?_⟩
  rw [hlog]
  exact hbuilt.append es

/-- An event is recorded: a message must be built, a payload must belong to a
connection that there is. -/
theorem Inv.emit (h : Inv hole W) (e : Event)
    (hread : ∀ conn msg, e = .sockRead conn msg → Built conn msg W.log)
    (hpay : ∀ conn data, e = .payload conn data → conn < W.conns) :
    Inv hole (W.emit e) where
  entries fd c hc := by
    rcases h.entries fd c hc with ho | hno
    · exact .inl (ho.append [e] rfl rfl)
    · exact .inr hno
  reads pre conn msg post hlog := by
    rcases List.append_eq_append_iff.mp (show W.log ++ [e] = _ from hlog) with
      ⟨mid, rfl, hmid⟩ | ⟨mid, hW, hmid⟩
    · cases mid with
      | nil =>
        rw [List.append_nil]
        exact hread conn msg (List.cons.inj hmid).1
      | cons d mid => simp at hmid
    · cases mid with
      | nil =>
        rw [List.append_nil] at hW
        rw [← hW]
        exact hread conn msg (List.cons.inj hmid).1.symm
      | cons d mid =>
        obtain ⟨rfl, -⟩ := List.cons.inj hmid
        exact h.reads pre conn msg mid hW
  fresh conn hconn := by
    show payloads conn (W.log ++ [e]) = []
    rw [payloads_append, h.fresh conn hconn, List.nil_append]
    refine List.filterMap_eq_nil_iff.mpr (fun e' he' => ?_)
    rw [List.mem_singleton.mp he']
    cases e with
    | payload c data =>
      have hc := hpay c data rfl
      exact if_neg (by have : W.conns ≤ conn := hconn; omega)
    | _ => rfl
  sessions := h.sessions

theorem Inv.countCipher (h : Inv hole W) : Inv hole W.countCipher :=
  ⟨h.entries, h.reads, h.fresh, h.sessions⟩

/-- The session of a socket is changed, but not its connection or its type, and
not back to the handshake. -/
theorem Inv.setSession (h : Inv hole W) {fd : QSock} {S S' : Session}
    (hS : W.session fd = some S) (htype : S'.type = S.type) (hconn : S'.conn = S.conn)
    (hst : S'.status = S.status ∨ S'.status ≠ .connect) : Inv hole (W.setSession fd S') where
  entries sd c hc := by
    rcases h.entries sd c hc with ⟨T, hT, hTt, hTs, howner, hbuilt⟩ | ⟨hhole, hnone⟩
    · refine .inl ?_
      by_cases hsd : sd = fd
      · rw [hsd] at hT ⊢
        rw [hS] at hT
        obtain rfl := Option.some.inj hT
        refine ⟨S', session_setSession_same _ _ _, htype.trans hTt, ?_, howner.trans hconn.symm,
          hconn ▸ hbuilt⟩
        rcases hst with hst | hst
        · rw [hst]
          exact hTs
        · exact hst
      · exact ⟨T, (session_setSession_ne W S' hsd).trans hT, hTt, hTs, howner, hbuilt⟩
    · refine .inr ⟨hhole, ?_⟩
      have hsd : sd ≠ fd := by
        rintro rfl
        rw [hS] at hnone
        cases hnone
      rw [session_setSession_ne W S' hsd, hnone]
  reads := h.reads
  fresh := h.fresh
  sessions sd T hT := by
    by_cases hsd : sd = fd
    · rw [hsd, session_setSession_same] at hT
      rw [← Option.some.inj hT, hconn]
      exact h.sessions fd S hS
    · rw [session_setSession_ne W S' hsd] at hT
      exact h.sessions sd T hT

theorem Inv.delBuffer (h : Inv hole W) (fd : QSock) (n : ℕ) :
    Inv hole (W.delBuffer fd n) := by
  cases hS : W.session fd with
  | none => rwa [Worker.delBuffer, hS]
  | some S =>
    rw [delBuffer_of_session hS]
    exact h.setSession hS rfl rfl (.inl rfl)

theorem Inv.writeBuffer (h : Inv hole W) (fd : QSock) (bytes : List UInt8) :
    Inv hole (W.writeBuffer fd bytes) := by
  cases hS : W.session fd with
  | none => rwa [Worker.writeBuffer, hS]
  | some S =>
    rw [writeBuffer_of_session hS]
    exact h.setSession hS rfl rfl (.inl rfl)

theorem Inv.arrive (h : Inv hole W) (fd : QSock) (chunk : List UInt8) :
    Inv hole (W.arrive fd chunk) := by
  cases hS : W.session fd with
  | none => rwa [Worker.arrive, hS]
  | some S =>
    rw [arrive_of_session hS]
    exact h.setSession hS rfl rfl (.inl rfl)

theorem Inv.setLinked (h : Inv hole W) (fd : QSock) : Inv hole (W.setStatus fd .linked) := by
  cases hS : W.session fd with
  | none => rwa [Worker.setStatus, hS]
  | some S =>
    rw [setStatus_of_session hS]
    exact h.setSession hS rfl rfl (.inr (by decide : SessionStatus.linked ≠ .connect))

/-- An entry is written that has its owner. -/
theorem Inv.setPack (h : Inv hole W) {fd : QSock} {c : Continuation} (hc : W.Owned fd c) :
    Inv hole (W.setPack fd (some c)) where
  entries sd d hd := by
    by_cases hsd : sd = fd
    · rw [hsd] at hd ⊢
      rw [webSockPack_setPack_same] at hd
      obtain rfl := Option.some.inj hd
      exact .inl hc
    · rw [webSockPack_setPack_ne W _ hsd] at hd
      exact h.entries sd d hd
  reads := h.reads
  fresh := h.fresh
  sessions := h.sessions

/-- Erasing the entry of the socket that is being read closes the hole. -/
theorem Inv.delContinuation {fd : QSock} (h : Inv hole W)
    (hhole : hole = none ∨ hole = some fd) : Inv none (W.delContinuation fd) where
  entries sd d hd := by
    by_cases hsd : sd = fd
    · rw [hsd] at hd
      rw [Worker.delContinuation, webSockPack_setPack_same] at hd
      cases hd
    · rw [Worker.delContinuation, webSockPack_setPack_ne W _ hsd] at hd
      rcases h.entries sd d hd with ho | ⟨heq, -⟩
      · exact .inl ho
      · rcases hhole with hno | hfd
        · rw [hno] at heq
          cases heq
        · rw [hfd] at heq
          exact absurd (Option.some.inj heq).symm hsd
  reads := h.reads
  fresh := h.fresh
  sessions := h.sessions

/-- A socket whose session is open is no hole. -/
theorem Inv.of_open {fd : QSock} (h : Inv (some fd) W) (hst : W.status fd ≠ .closed) :
    Inv none W where
  entries sd c hc := by
    rcases h.entries sd c hc with ho | ⟨heq, hnone⟩
    · exact .inl ho
    · rw [← Option.some.inj heq] at hnone
      rw [status, hnone] at hst
      exact absurd rfl hst
  reads := h.reads
  fresh := h.fresh
  sessions := h.sessions

theorem Inv.widen {fd : QSock} (h : Inv none W) : Inv (some fd) W where
  entries sd c hc := by
    rcases h.entries sd c hc with ho | ⟨heq, -⟩
    · exact .inl ho
    · cases heq
  reads := h.reads
  fresh := h.fresh
  sessions := h.sessions

/-- The session of a socket ends with nothing to erase, or while it is read. -/
theorem Inv.dropSession (h : Inv hole W) {id : QSock}
    (hid : hole = some id ∨ W.webSockPack id = none) :
    Inv hole { W with session := Function.update W.session id none } where
  entries sd c hc := by
    by_cases hsd : sd = id
    · rw [hsd] at hc ⊢
      rcases hid with hhole | hnone
      · exact .inr ⟨hhole, Function.update_self _ _ _⟩
      · rw [show W.webSockPack id = some c from hc] at hnone
        cases hnone
    · rcases h.entries sd c hc with ⟨T, hT, hrest⟩ | ⟨heq, hnone⟩
      · exact .inl ⟨T, (Function.update_of_ne hsd _ _).trans hT, hrest⟩
      · exact .inr ⟨heq, (Function.update_of_ne hsd _ _).trans hnone⟩
  reads := h.reads
  fresh := h.fresh
  sessions sd T hT := by
    by_cases hsd : sd = id
    · rw [hsd] at hT
      cases (Function.update_self id none W.session).symm.trans hT
    · exact h.sessions sd T ((Function.update_of_ne hsd _ _).symm.trans hT)

/-- Events other than messages and payloads are recorded. -/
theorem Inv.appendLog (h : Inv hole W) (es : List Event)
    (hes : ∀ e ∈ es, (∀ conn msg, e ≠ .sockRead conn msg) ∧ ∀ conn data, e ≠ .payload conn data) :
    Inv hole { W with log := W.log ++ es } := by
  induction es generalizing W with
  | nil =>
    rw [List.append_nil]
    exact h
  | cons e es ih =>
    have he := hes e List.mem_cons_self
    have hemit := h.emit e (fun c m hm => absurd hm (he.1 c m)) (fun c d hd => absurd hd (he.2 c d))
    have hrest := ih hemit (fun e' he' => hes e' (List.mem_cons_of_mem _ he'))
    rwa [log_emit, List.append_assoc, List.singleton_append] at hrest

/-- **A close keeps the invariant** when there is nothing to erase, or when the
socket is the one being read. -/
theorem Inv.closeLinkByID (h : Inv hole W) {id : QSock}
    (hid : hole = some id ∨ W.session id = none ∨ W.webSockPack id = none) :
    Inv hole (W.closeLinkByID id) := by
  rcases W.closeLinkByID_cases id with heq | ⟨S, hS, es, hes, heq⟩
  · rw [heq]
    exact h
  · rw [heq]
    have hid' : hole = some id ∨ W.webSockPack id = none := by
      rcases hid with hhole | hnone | hpack
      · exact .inl hhole
      · rw [hS] at hnone
        cases hnone
      · exact .inr hpack
    refine (h.dropSession hid').appendLog es (fun e he => ?_)
    rcases List.mem_cons.mp (hes he) with rfl | he
    · exact ⟨nofun, nofun⟩
    · rw [List.mem_singleton.mp he]
      exact ⟨nofun, nofun⟩

/-- A close leaves the entries alone and opens no session. -/
theorem closeLinkByID_keeps (W : Worker) (id : QSock) :
    (W.closeLinkByID id).webSockPack = W.webSockPack
      ∧ ∀ sd, W.session sd = none → (W.closeLinkByID id).session sd = none := by
  rcases W.closeLinkByID_cases id with heq | ⟨S, -, es, -, heq⟩
  · rw [heq]
    exact ⟨rfl, fun _ h => h⟩
  · rw [heq]
    refine ⟨rfl, fun sd hsd => ?_⟩
    by_cases hid : sd = id
    · rw [hid]
      exact Function.update_self _ _ _
    · exact (Function.update_of_ne hid _ _).trans hsd

/-- The closes of a callback keep the invariant. -/
theorem Inv.closeAll (h : Inv hole W) (ids : List QSock)
    (hids : ∀ id ∈ ids, hole = some id ∨ W.session id = none ∨ W.webSockPack id = none) :
    Inv hole (W.closeAll ids) := by
  induction ids generalizing W with
  | nil => exact h
  | cons id ids ih =>
    rw [Worker.closeAll, List.foldl_cons, ← Worker.closeAll]
    refine ih (h.closeLinkByID (hids id List.mem_cons_self)) (fun sd hsd => ?_)
    obtain ⟨hpack, hnone⟩ := W.closeLinkByID_keeps id
    rcases hids sd (List.mem_cons_of_mem _ hsd) with h₁ | h₂ | h₃
    · exact .inl h₁
    · exact .inr (.inl (hnone sd h₂))
    · exact .inr (.inr (by rw [hpack, h₃]))

/-- Only a WebSocket session after its handshake has an entry. -/
theorem Inv.noEntry (h : Inv none W) {fd : QSock} {S : Session} (hS : W.session fd = some S)
    (hno : S.type ≠ .webSock ∨ S.status = .connect) : W.webSockPack fd = none := by
  cases hc : W.webSockPack fd with
  | none => rfl
  | some c =>
    rcases h.entries fd c hc with ⟨T, hT, htype, hst, -⟩ | ⟨hhole, -⟩
    · rw [hS] at hT
      obtain rfl := Option.some.inj hT
      rcases hno with hne | hcon
      · exact absurd htype hne
      · exact absurd hcon hst
    · cases hhole

/-- A session that may be closed has no entry. -/
theorem Inv.closable (h : Inv none W) {id : QSock} (hq : W.Quiet id) :
    W.session id = none ∨ W.webSockPack id = none := by
  cases hS : W.session id with
  | none => exact .inl rfl
  | some S =>
    refine .inr ?_
    by_cases htype : S.type = .webSock
    · exact hq S hS htype
    · exact h.noEntry hS (.inl htype)

/-- A message is handed over. -/
theorem Inv.onSockRead {fd : QSock} (h : Inv hole W) {hd : Handler} {S : Session}
    {msg : List UInt8} (hbuilt : Built S.conn msg W.log)
    (hids : ∀ id ∈ hd W.log fd msg,
      hole = some id ∨ W.session id = none ∨ W.webSockPack id = none) :
    Inv hole (W.onSockRead hd fd S msg) := by
  refine Inv.closeAll (h.emit (.sockRead S.conn msg) ?_ nofun) _ hids
  intro conn m hm
  cases hm
  exact hbuilt

theorem Inv.onDebug {fd : QSock} (h : Inv hole W) {hd : Handler} {S : Session}
    {msg : List UInt8}
    (hids : ∀ id ∈ hd W.log fd msg,
      hole = some id ∨ W.session id = none ∨ W.webSockPack id = none) :
    Inv hole (W.onDebug hd fd S msg) :=
  Inv.closeAll (h.emit (.debug S.conn msg) nofun nofun) _ hids

end Ops

/-! ## The read loops -/

section Loops

variable {E : Env} {hd : Handler} {fd : QSock}

/-- The handler of `fd` closes no other session that has an entry. -/
def Clean (fd : QSock) (hd : Handler) (W : Worker) : Prop :=
  ∀ log msg, ∀ id ∈ hd log fd msg, id ≠ fd → W.session id = none ∨ W.webSockPack id = none

theorem Clean.setSession {W : Worker} (h : Clean fd hd W) (S : Session) :
    Clean fd hd (W.setSession fd S) := by
  intro log msg id hid hne
  rw [session_setSession_ne W S hne]
  exact h log msg id hid hne

theorem Clean.setPack {W : Worker} (h : Clean fd hd W) (c : Option Continuation) :
    Clean fd hd (W.setPack fd c) := by
  intro log msg id hid hne
  rw [webSockPack_setPack_ne W c hne]
  exact h log msg id hid hne

theorem Clean.closeLinkByID {W : Worker} (h : Clean fd hd W) (id : QSock) :
    Clean fd hd (W.closeLinkByID id) := by
  intro log msg sd hsd hne
  obtain ⟨hpack, hnone⟩ := W.closeLinkByID_keeps id
  rcases h log msg sd hsd hne with h₁ | h₂
  · exact .inl (hnone sd h₁)
  · exact .inr (by rw [hpack, h₂])

theorem Clean.closeAll {W : Worker} (h : Clean fd hd W) (ids : List QSock) :
    Clean fd hd (W.closeAll ids) := by
  induction ids generalizing W with
  | nil => exact h
  | cons id ids ih => exact ih (h.closeLinkByID id)

/-- What holds in the middle of a read of the WebSocket session of `fd`. -/
structure Good (hole : Option QSock) (fd : QSock) (hd : Handler) (W : Worker) : Prop where
  inv : Inv hole W
  clean : Clean fd hd W
  webSock : ∀ S, W.session fd = some S → S.type = .webSock ∧ S.status ≠ .connect

section Ops

variable {hole : Option QSock} {W : Worker}

theorem Good.setSession (h : Good hole fd hd W) {S S' : Session}
    (hS : W.session fd = some S) (htype : S'.type = S.type) (hconn : S'.conn = S.conn)
    (hst : S'.status = S.status) : Good hole fd hd (W.setSession fd S') where
  inv := h.inv.setSession hS htype hconn (.inl hst)
  clean := h.clean.setSession S'
  webSock T hT := by
    rw [session_setSession_same] at hT
    rw [← Option.some.inj hT, htype, hst]
    exact h.webSock S hS

theorem Good.delBuffer (h : Good hole fd hd W) (n : ℕ) :
    Good hole fd hd (W.delBuffer fd n) := by
  cases hS : W.session fd with
  | none => rwa [Worker.delBuffer, hS]
  | some S =>
    rw [delBuffer_of_session hS]
    exact h.setSession hS rfl rfl rfl

theorem Good.writeBuffer (h : Good hole fd hd W) (bytes : List UInt8) :
    Good hole fd hd (W.writeBuffer fd bytes) := by
  cases hS : W.session fd with
  | none => rwa [Worker.writeBuffer, hS]
  | some S =>
    rw [writeBuffer_of_session hS]
    exact h.setSession hS rfl rfl rfl

theorem Good.setPing (h : Good hole fd hd W) : Good hole fd hd (W.setPing fd) := by
  cases hS : W.session fd with
  | none => rwa [Worker.setPing, hS]
  | some S =>
    rw [setPing_of_session hS]
    exact h.setSession hS rfl rfl rfl

theorem Good.delContinuation (h : Good hole fd hd W) (hhole : hole = none ∨ hole = some fd) :
    Good none fd hd (W.delContinuation fd) :=
  ⟨h.inv.delContinuation hhole, h.clean.setPack none, h.webSock⟩

/-- The session ends inside its own read loop. -/
theorem Good.closeOwn (h : Good none fd hd W) :
    Good none fd hd ((W.delContinuation fd).closeLinkByID fd) := by
  have h₁ := h.delContinuation (.inl rfl)
  refine ⟨h₁.inv.closeLinkByID (.inr (.inr (webSockPack_setPack_same _ _ _))),
    h₁.clean.closeLinkByID fd, fun S hS => h₁.webSock S ?_⟩
  exact @session_of_closeAll (W.delContinuation fd) [fd] fd S hS

theorem Good.decoded (h : Good none fd hd W) {S : Session} (hlt : S.conn < W.conns)
    (data : List UInt8) :
    Good none fd hd (W.countCipher.emit (.payload S.conn data)) where
  inv := h.inv.countCipher.emit _ nofun fun c d hc => by
    cases hc
    exact hlt
  clean := h.clean
  webSock := h.webSock

/-- A message is handed over; the handler may close its own session. -/
theorem Good.onSockRead (h : Good none fd hd W) {S : Session} {msg : List UInt8}
    (hbuilt : Built S.conn msg W.log) :
    Good (some fd) fd hd (W.onSockRead hd fd S msg) where
  inv := by
    refine h.inv.widen.onSockRead hbuilt (fun id hid => ?_)
    by_cases heq : id = fd
    · exact .inl (congrArg some heq.symm)
    · exact .inr (h.clean W.log msg id hid heq)
  clean := Clean.closeAll (W := W.emit _) h.clean _
  webSock T hT := h.webSock T (session_of_closeAll (W := W.emit _) hT)

/-- An entry of a session is its own. -/
theorem Good.entry (h : Good none fd hd W) {S : Session} (hS : W.session fd = some S)
    {c : Continuation} (hc : W.webSockPack fd = some c) :
    c.owner = S.conn ∧ Built S.conn c.data W.log := by
  rcases h.inv.entries fd c hc with ⟨T, hT, -, -, howner, hbuilt⟩ | ⟨hhole, -⟩
  · rw [hS] at hT
    obtain rfl := Option.some.inj hT
    exact ⟨howner, hbuilt⟩
  · cases hhole

/-- An entry is written for the session. -/
theorem Good.setPack (h : Good none fd hd W) {S : Session} (hS : W.session fd = some S)
    {c : Continuation} (howner : c.owner = S.conn) (hbuilt : Built S.conn c.data W.log) :
    Good none fd hd (W.setPack fd (some c)) :=
  ⟨h.inv.setPack ⟨S, hS, (h.webSock S hS).1, (h.webSock S hS).2, howner, hbuilt⟩,
    h.clean.setPack _, h.webSock⟩

end Ops

theorem built_decoded (W : Worker) (conn : ℕ) (data : List UInt8) :
    Built conn data (W.countCipher.emit (.payload conn data)).log :=
  (Built.nil conn W.log).payload data

theorem webSockPack_delBuffer (W : Worker) (sd : QSock) (n : ℕ) :
    (W.delBuffer sd n).webSockPack = W.webSockPack := by
  unfold Worker.delBuffer
  split <;> rfl

/-- What a decoded payload may go on with. -/
theorem decodeThen_good {W : Worker} (h : Good none fd hd W) {S : Session}
    (hlt : S.conn < W.conns) (msg : List UInt8) {k : Worker → List UInt8 → LoopStep Worker}
    (hk : ∀ data, Good none fd hd (W.countCipher.emit (.payload S.conn data)) →
      (k (W.countCipher.emit (.payload S.conn data)) data).All (Good none fd hd)) :
    (decodeThen E W S msg k).All (Good none fd hd) := by
  unfold decodeThen
  split
  · exact ⟨h.inv.countCipher, h.clean, h.webSock⟩
  · exact hk _ (h.decoded hlt _)

/-- What a message handed over may go on with: the handler may have closed the
session, and then its entry is erased. -/
theorem readThen_good {W : Worker} (h : Good (some fd) fd hd W) {W' : Worker}
    (hk : Good none fd hd W → W.session fd ≠ none → Good none fd hd W') :
    (if W.status fd = .closed then LoopStep.stop (W.delContinuation fd)
      else .next W').All (Good none fd hd) := by
  split
  · exact h.delContinuation (.inr rfl)
  · rename_i hopen
    refine hk ⟨h.inv.of_open hopen, h.clean, h.webSock⟩ (fun hnone => hopen ?_)
    rw [status, hnone]

/-- **The data frames of a session keep the connections apart.** -/
theorem dispData_good {W : Worker} (h : Good none fd hd W) {S T : Session}
    (hT : W.session fd = some T) (hconn : T.conn = S.conn)
    (fram : WebSockParser.WebSockFram) (parsedLens : ℕ) (msg : List UInt8) :
    (dispData E hd fd S fram parsedLens msg W).All (Good none fd hd) := by
  have hlt : S.conn < W.conns := hconn ▸ h.inv.sessions fd T hT
  unfold dispData
  split
  · -- a whole message
    refine decodeThen_good h hlt msg (fun data h₁ => ?_)
    exact readThen_good (h₁.onSockRead (built_decoded W S.conn data)) fun h₂ _ => h₂.delBuffer _
  · split
    · -- the last fragment, after what the entry holds
      split
      · rename_i c hc
        refine decodeThen_good h hlt msg (fun data h₁ => ?_)
        obtain ⟨howner, hb⟩ := h.entry hT hc
        have hbuilt : Built T.conn (c.data ++ data)
            (W.countCipher.emit (.payload S.conn data)).log := hconn ▸ hb.payload data
        have h₂ := h₁.setPack (c := { c with data := c.data ++ data }) hT howner hbuilt
        refine readThen_good (h₂.onSockRead (hconn ▸ hbuilt)) fun h₃ hne => ?_
        -- the entry is still there, and still its owner's when it is emptied
        have h₄ := h₃.delBuffer parsedLens
        obtain ⟨U, hU⟩ : ∃ U, Worker.session _ fd = some U := Option.ne_none_iff_exists'.mp hne
        rw [delBuffer_of_session hU] at h₄ ⊢
        refine h₄.setPack (session_setSession_same _ _ _) ?_ (.nil _ _)
        refine (h₃.entry hU (c := { c with data := c.data ++ data }) ?_).1
        rw [Worker.onSockRead, webSockPack_closeAll]
        exact webSockPack_setPack_same _ _ _
      · exact h.delBuffer _
    · -- another fragment, which makes the entry or extends it
      refine decodeThen_good h hlt msg (fun data h₁ => ?_)
      rw [addContinuation_eq]
      refine Good.delBuffer (h₁.setPack hT ?_ ?_) _
      · show (W.webSockPack fd).elim S.conn Continuation.owner = T.conn
        cases hc : W.webSockPack fd with
        | none => exact hconn.symm
        | some c => exact (h.entry hT hc).1
      · show Built T.conn ((W.webSockPack fd).elim [] Continuation.data ++ data) _
        cases hc : W.webSockPack fd with
        | none => exact hconn ▸ built_decoded W S.conn data
        | some c => exact hconn ▸ (h.entry hT hc).2.payload data

/-- **A round of `dispWebSock` keeps the connections apart.** -/
theorem dispWebSockBody_good {W : Worker} (h : Good none fd hd W) :
    (dispWebSockBody E hd fd W).All (Good none fd hd) := by
  unfold dispWebSockBody
  cases hS : W.session fd with
  | none => exact h
  | some S =>
    dsimp only
    split
    · exact h.closeOwn
    · exact h
    · rename_i fram parsedLens msg buf hpack
      have h₁ : Good none fd hd (W.setSession fd { S with input := buf }) :=
        h.setSession hS rfl rfl rfl
      unfold dispFram
      split
      · exact h₁.closeOwn
      · exact (h₁.writeBuffer _).setPing.delBuffer _
      · exact h₁.setPing.delBuffer _
      · exact dispData_good h₁ (session_setSession_same _ _ _) rfl fram parsedLens msg

/-- What holds in the middle of a read of a session that has no entry. -/
structure GoodTcp (fd : QSock) (hd : Handler) (W : Worker) : Prop where
  inv : Inv none W
  clean : Clean fd hd W
  pack : W.webSockPack fd = none

/-- Without an entry every session the handler closes may be closed. -/
theorem GoodTcp.closable {W : Worker} (h : GoodTcp fd hd W) (log : List Event)
    (msg : List UInt8) :
    ∀ id ∈ hd log fd msg,
      none = some id ∨ W.session id = none ∨ W.webSockPack id = none := by
  intro id hid
  by_cases heq : id = fd
  · rw [heq]
    exact .inr (.inr h.pack)
  · exact .inr (h.clean log msg id hid heq)

/-- **A round of `dispTcp` keeps the connections apart.** -/
theorem dispTcpBody_good {W : Worker} (h : GoodTcp fd hd W) :
    (dispTcpBody E hd fd W).All (GoodTcp fd hd) := by
  unfold dispTcpBody
  cases hS : W.session fd with
  | none => exact h
  | some S =>
    dsimp only
    split
    · exact h
    · split
      · exact ⟨h.inv.countCipher, h.clean, h.pack⟩
      · rename_i msg hmsg
        set W₁ := W.countCipher.emit (.payload S.conn msg)
        have h₁ : GoodTcp fd hd W₁ := by
          refine ⟨h.inv.countCipher.emit _ nofun fun c d hc => ?_, h.clean, h.pack⟩
          cases hc
          exact h.inv.sessions fd S hS
        have h₂ : GoodTcp fd hd
            (if S.type = .debug then W₁.onDebug hd fd S msg else W₁.onSockRead hd fd S msg) := by
          split
          · exact ⟨h₁.inv.onDebug (h₁.closable _ msg), Clean.closeAll (W := W₁.emit _) h₁.clean _,
              (congrFun (webSockPack_closeAll _ _) fd).trans h₁.pack⟩
          · exact ⟨h₁.inv.onSockRead (built_decoded W S.conn msg) (h₁.closable _ msg),
              Clean.closeAll (W := W₁.emit _) h₁.clean _,
              (congrFun (webSockPack_closeAll _ _) fd).trans h₁.pack⟩
        generalize (if S.type = .debug then _ else _ : Worker) = W₂ at h₂ ⊢
        split
        · refine ⟨h₂.inv.delBuffer fd _, ?_,
            (congrFun (webSockPack_delBuffer _ _ _) fd).trans h₂.pack⟩
          unfold Worker.delBuffer
          split
          · exact h₂.clean
          · exact h₂.clean.setSession _
        · exact h₂

end Loops

/-! ## The events -/

/-- A new connection gets a socket that has no entry. -/
theorem Inv.addSession {W : Worker} (h : Inv none W) {fd : QSock} (hfd : W.session fd = none)
    (type : SessionType) (status : SessionStatus) :
    Inv none (W.addSession fd type status) where
  entries sd c hc := by
    rcases h.entries sd c hc with ⟨T, hT, hrest⟩ | ⟨hhole, -⟩
    · have hsd : sd ≠ fd := by
        rintro rfl
        rw [hfd] at hT
        cases hT
      exact .inl ⟨T, (Function.update_of_ne hsd _ _).trans hT, hrest⟩
    · cases hhole
  reads := h.reads
  fresh conn hconn := h.fresh conn (Nat.le_of_succ_le hconn)
  sessions sd T hT := by
    by_cases hsd : sd = fd
    · rw [hsd] at hT
      rw [← Option.some.inj ((Function.update_self fd _ W.session).symm.trans hT)]
      exact Nat.lt_succ_self _
    · exact Nat.lt_succ_of_lt
        (h.sessions sd T ((Function.update_of_ne hsd _ _).symm.trans hT))

/-- What a callback that runs after a connection was added may close. -/
theorem Inv.closable_addSession {W : Worker} (h : Inv none W) {fd : QSock}
    (hfd : W.session fd = none) (type : SessionType) (status : SessionStatus)
    {ids : List QSock} (hids : ∀ id ∈ ids, W.Quiet id) :
    ∀ id ∈ ids, none = some id ∨ (W.addSession fd type status).session id = none
      ∨ (W.addSession fd type status).webSockPack id = none := by
  intro id hid
  by_cases heq : id = fd
  · refine .inr (.inr ?_)
    rw [heq]
    cases hc : W.webSockPack fd with
    | none => exact hc
    | some c =>
      rcases h.entries fd c hc with ⟨T, hT, -⟩ | ⟨hhole, -⟩
      · rw [hfd] at hT
        cases hT
      · cases hhole
  · rcases h.closable (hids id hid) with hnone | hpack
    · exact .inr (.inl ((Function.update_of_ne heq _ _).trans hnone))
    · exact .inr (.inr hpack)

theorem Inv.onMainRead {W : Worker} (h : Inv none W) {fd : QSock} (hfd : W.session fd = none)
    (type : SessionType) {ids : List QSock} (hids : ∀ id ∈ ids, W.Quiet id) :
    Inv none (W.onMainRead fd type ids) := by
  unfold Worker.onMainRead
  dsimp only
  split
  · exact Inv.closeAll ((h.addSession hfd type _).emit (.connected W.conns) nofun nofun) ids
      (h.closable_addSession hfd type _ hids)
  · exact h.addSession hfd type _

theorem Inv.onAssistRead {W : Worker} (h : Inv none W) {fd : QSock} (hfd : W.session fd = none)
    {ids : List QSock} (hids : ∀ id ∈ ids, W.Quiet id) :
    Inv none (W.onAssistRead fd ids) :=
  Inv.closeAll (((h.addSession hfd .tcpClient .linked).emit (.linkStatus fd .linked)
    nofun nofun).emit (.linkedOther W.conns) nofun nofun) ids
    (h.closable_addSession hfd _ _ hids)

theorem Inv.onTimerRead {W : Worker} (h : Inv none W) {ids : List QSock}
    (hids : ∀ id ∈ ids, W.Quiet id) : Inv none (W.onTimerRead ids) := by
  have h₁ : Inv none { W with count := W.count + 1 } :=
    ⟨h.entries, h.reads, h.fresh, h.sessions⟩
  exact h₁.closeAll ids fun id hid => .inr (h.closable (hids id hid))

theorem Inv.workThreadEventCB {W : Worker} (h : Inv none W) (fd : QSock) :
    Inv none (W.workThreadEventCB fd) := by
  unfold Worker.workThreadEventCB
  cases hS : W.session fd with
  | none => exact h
  | some S =>
    have h₁ := h.emit (.sockClose S.conn) nofun nofun
    -- only a WebSocket session can have an entry, and there it is erased
    have hpack : S.type ≠ .webSock → W.webSockPack fd = none :=
      fun hne => h.noEntry hS (.inl hne)
    dsimp only
    cases htype : S.type with
    | webSock =>
      exact (h₁.delContinuation (.inl rfl)).dropSession
        (.inr (webSockPack_setPack_same _ _ _))
    | tcpClient =>
      exact (h₁.emit (.linkStatus fd .closed) nofun nofun).dropSession
        (.inr (hpack (by rw [htype]; nofun)))
    | tcp => exact h₁.dropSession (.inr (hpack (by rw [htype]; nofun)))
    | debug => exact h₁.dropSession (.inr (hpack (by rw [htype]; nofun)))

theorem Inv.workThreadReadCB {E : Env} {W : Worker} (h : Inv none W) {fd : QSock}
    {hd : Handler} (chunk : List UInt8)
    (hids : ∀ log msg, ∀ id ∈ hd log fd msg, id ≠ fd → W.Quiet id) :
    Inv none (workThreadReadCB E hd fd chunk W) := by
  unfold Worker.workThreadReadCB
  cases hS : W.session fd with
  | none => exact h
  | some S =>
    have hclean : Clean fd hd (W.arrive fd chunk) := by
      rw [arrive_of_session hS]
      exact Clean.setSession (fun log msg id hid hne => h.closable (hids log msg id hid hne)) _
    have h₁ := h.arrive fd chunk
    have hS₁ : (W.arrive fd chunk).session fd = some { S with input := S.input ++ chunk } := by
      rw [arrive_of_session hS, session_setSession_same]
    have htcp : S.type ≠ .webSock → Inv none (dispTcp E hd fd (W.arrive fd chunk)) := by
      intro hne
      refine (LoopStep.whileTrue_all (GoodTcp fd hd) (Worker.pending · fd)
        (fun _ hg => dispTcpBody_good hg) (fun _ _ hnext => dispTcpBody_next_lt hnext) _ _ ?_
        (Nat.lt_succ_self _)).inv
      exact ⟨h₁, hclean, h₁.noEntry hS₁ (.inl hne)⟩
    dsimp only
    cases htype : S.type with
    | tcp => exact htcp (by rw [htype]; nofun)
    | tcpClient => exact htcp (by rw [htype]; nofun)
    | debug => exact htcp (by rw [htype]; nofun)
    | webSock =>
      dsimp only
      unfold dispWebSock
      rw [hS₁]
      dsimp only
      by_cases hst : S.status = .connect
      · rw [if_pos hst]
        split
        · exact h₁.closeLinkByID (.inr (.inr (h₁.noEntry hS₁ (.inr hst))))
        · exact h₁
        · exact ((h₁.writeBuffer fd _).setLinked fd).delBuffer fd _
      · rw [if_neg hst]
        refine (LoopStep.whileTrue_all (Good none fd hd) (Worker.pending · fd)
          (fun _ hg => dispWebSockBody_good hg) (fun _ _ hnext => dispWebSockBody_next_lt hnext)
          _ _ ?_ (Nat.lt_succ_self _)).inv
        refine ⟨h₁, hclean, fun T hT => ?_⟩
        rw [hS₁] at hT
        rw [← Option.some.inj hT]
        exact ⟨htype, hst⟩

/-- **Every event keeps the invariant**, if its callbacks close cleanly. -/
theorem Inv.step {E : Env} {W : Worker} (h : Inv none W) (i : Input) (hen : W.Enabled i)
    (hclean : W.CleanCloses i) : Inv none (W.step E i) := by
  cases i with
  | accept fd type ids => exact h.onMainRead hen.2 type hclean
  | linkOther fd ids => exact h.onAssistRead hen.2 hclean
  | read fd chunk hd => exact h.workThreadReadCB chunk hclean
  | gone fd => exact h.workThreadEventCB fd
  | timer ids => exact h.onTimerRead hclean

/-- **No bytes leak between connections in a run that closes cleanly.** In every
run from the start in which no callback closes a WebSocket session with a
continuation entry, other than the session whose message it handles, every
message handed over was built from payloads of its own connection, and every
continuation entry belongs to the connection that has its socket. -/
theorem isolated_of_cleanCloses (E : Env) (W : Worker)
    (hrun : Reach (step E) (fun W i => W.Enabled i ∧ W.CleanCloses i) start W) :
    Isolated W :=
  (hrun.invariant (Inv none) Inv.start fun _ i h hi => h.step i hi.1 hi.2).isolated

/-! ## A stale entry -/

/-- A handshake request. -/
def request : List UInt8 :=
  ascii ("GET / HTTP/1.1\r\nUpgrade: websocket\r\nConnection: Upgrade\r\n"
    ++ "Sec-WebSocket-Key: dGhlIHNhbXBsZSBub25jZQ==\r\nSec-WebSocket-Version: 13\r\n\r\n")

/-- The response to it. -/
def response : List UInt8 :=
  ascii ("HTTP/1.1 101 Switching Protocols\r\nUpgrade: websocket\r\n"
    ++ "Connection: Upgrade\r\nServer: QServer version:1-0-5\r\n"
    ++ "Sec-WebSocket-Accept: s3pPLMBiTxaQ9kYGzzhZRbK+xOo=\r\n"
    ++ "Sec-WebSocket-Origin: null\r\n\r\n")

/-- A worker without ciphers, on inputs whose only handshake request is
`request`. -/
def plainEnv : Env :=
  .plain .bits64 fun buf => if buf = request then .accept response request.length else .more

/-- A client frame with a zero mask key. -/
def clientFrame (fin : Bool) (opCode : WebSockOpCode) (h : opCode.Valid) (payload : List UInt8) :
    List UInt8 := WebSockParser.Frame.bytes ⟨fin, opCode, h, [0, 0, 0, 0], rfl, payload⟩

/-- A first connection on socket 5 sends the first fragment of a message and is
closed by a timer callback; a second one gets the socket and sends an empty
last fragment. -/
def staleRun : List Input :=
  [.accept 5 .webSock [],
    .read 5 request fun _ _ _ => [],
    .read 5 (clientFrame false .textFrame (by decide) (ascii "hi")) fun _ _ _ => [],
    .timer [5],
    .accept 5 .webSock [],
    .read 5 request fun _ _ _ => [],
    .read 5 (clientFrame true .continuation (by decide) []) fun _ _ _ => []]

theorem log_staleRun : (staleRun.foldl (step plainEnv) start).log
    = [.connected 0, .payload 0 (ascii "hi"), .sockClose 0, .connected 1, .payload 1 [],
        .sockRead 1 (ascii "hi")] := by
  decide +kernel

/-- **A close by a timer callback leaks a message**: the second connection is
handed what the first one sent. -/
theorem stale_entry_leaks :
    Reach (step plainEnv) Enabled start (staleRun.foldl (step plainEnv) start)
      ∧ ¬ Isolated (staleRun.foldl (step plainEnv) start) := by
  constructor
  · exact Reach.start.of_list staleRun
      ⟨⟨by decide, rfl⟩, trivial, trivial, trivial, ⟨by decide, by decide +kernel⟩, trivial,
        trivial, trivial⟩
  · intro h
    obtain ⟨parts, hsub, hmsg⟩ := h.reads
      [.connected 0, .payload 0 (ascii "hi"), .sockClose 0, .connected 1, .payload 1 []] 1
      (ascii "hi") [] log_staleRun
    have hnil : ∀ p ∈ parts, p = [] := fun p hp => List.mem_singleton.mp (hsub.subset hp)
    rw [List.flatten_eq_nil_iff.mpr hnil] at hmsg
    exact absurd hmsg (by decide)

/-- Connections that get the socket of earlier ones: the first is closed by a
timer callback before it sends a fragment, the second disconnects after it. -/
def reuseRun : List Input :=
  [.accept 5 .webSock [],
    .timer [5],
    .accept 5 .webSock [],
    .read 5 request fun _ _ _ => [],
    .read 5 (clientFrame false .textFrame (by decide) (ascii "hi")) fun _ _ _ => [],
    .gone 5,
    .accept 5 .webSock [],
    .read 5 request fun _ _ _ => [],
    .read 5 (clientFrame false .textFrame (by decide) (ascii "yo")) fun _ _ _ => [],
    .read 5 (clientFrame true .continuation (by decide) (ascii "!")) fun _ _ _ => []]

theorem isolated_reuseRun :
    (.sockRead 2 (ascii "yo!") : Event) ∈ (reuseRun.foldl (step plainEnv) start).log
      ∧ Isolated (reuseRun.foldl (step plainEnv) start) := by
  refine ⟨by decide +kernel, isolated_of_cleanCloses plainEnv _ (Reach.start.of_list reuseRun ?_)⟩
  have hnone : ∀ (W : Worker), ∀ id ∈ ([] : List QSock), W.Quiet id := fun _ _ hid => by cases hid
  have hread : ∀ (W : Worker) (fd : QSock), ∀ (log : List Event) (msg : List UInt8),
      ∀ id ∈ ([] : List QSock), id ≠ fd → W.Quiet id := fun _ _ _ _ _ hid => by cases hid
  have hquiet : ∀ W : Worker, W.webSockPack 5 = none → ∀ id ∈ [(5 : QSock)], W.Quiet id := by
    intro W hW id hid S hS ht
    rw [List.mem_singleton.mp hid, hW]
  exact ⟨⟨⟨by decide, rfl⟩, hnone _⟩, ⟨trivial, hquiet _ rfl⟩,
    ⟨⟨by decide, by decide +kernel⟩, hnone _⟩, ⟨trivial, hread _ _⟩, ⟨trivial, hread _ _⟩,
    ⟨trivial, trivial⟩, ⟨⟨by decide, by decide +kernel⟩, hnone _⟩, ⟨trivial, hread _ _⟩,
    ⟨trivial, hread _ _⟩, ⟨trivial, hread _ _⟩, trivial⟩

end Worker
