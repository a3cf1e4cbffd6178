import QService.Host

/-!
# Sessions and the worker thread

The worker thread owns every connection. `CSessionManager` keeps a map from
sockets to sessions, `CWorkThreadEvent` a second map from sockets to the
WebSocket messages that have not yet arrived in full, and both hand what they
receive to the Lua interface. A `Worker` is that state.

A socket is the number the operating system gave out, and the system gives
the number of a closed connection out again. So a session also carries the
serial number of its connection, which nothing in the code can read: it is
there to say which connection a byte came from. Likewise a continuation entry
records the connection that created it.

What leaves the worker (calls of the interface, of the link table) is the
log. The pooled session object of a closed connection reads as closed, so a
session that is not in the map is closed.
-/

/-- A socket handle. -/
abbrev QSock := ℤ

/-- `Q_INVALID_SOCK`. -/
def invalidSock : QSock := -1

/-- `enum SessionType`. -/
inductive SessionType
  | tcp
  | tcpClient
  | webSock
  | debug
  deriving DecidableEq, Repr

/-- `enum SessionStatus`. -/
inductive SessionStatus
  | closed
  | connect
  | linked
  | logining
  | logined
  | playing
  | gm
  deriving DecidableEq, Repr

/-- The parts of a `CSession` the worker reads: type, status, ping, and the
contents of the two buffers of its connection. -/
structure Session where
  type : SessionType
  status : SessionStatus
  ping : ℕ
  input : List UInt8
  output : List UInt8
  /-- The serial number of the connection. -/
  conn : ℕ
  deriving DecidableEq, Repr

/-- An entry of `m_mapWebSockPack`. -/
structure Continuation where
  data : List UInt8
  /-- The connection whose frame created the entry. -/
  owner : ℕ
  deriving DecidableEq, Repr

/-- What the worker does to the world outside it. -/
inductive Event
  /-- `onConnected`. -/
  | connected (conn : ℕ)
  /-- `onLinkedOther`. -/
  | linkedOther (conn : ℕ)
  /-- The payload of a frame was decoded to `data`. -/
  | payload (conn : ℕ) (data : List UInt8)
  /-- `onSockRead`. -/
  | sockRead (conn : ℕ) (msg : List UInt8)
  /-- `onDebug`. -/
  | debug (conn : ℕ) (msg : List UInt8)
  /-- `onSockClose`. -/
  | sockClose (conn : ℕ)
  /-- `CLinkOther::setSockStatus`. -/
  | linkStatus (sock : QSock) (status : SessionStatus)
  deriving DecidableEq, Repr

/-- The state of the worker thread. -/
structure Worker where
  /-- `m_umapSession`. -/
  session : QSock → Option Session
  /-- `m_mapWebSockPack`. -/
  webSockPack : QSock → Option Continuation
  /-- `m_uiCount`, the number of timer events. -/
  count : ℕ
  /-- The number of calls of the ciphers so far. -/
  ciphers : ℕ
  /-- The number of connections so far. -/
  conns : ℕ
  log : List Event

/-- What a message handler of the Lua side does: from what has happened, the
session and the message, the sessions it closes with `closeLinkByID`. -/
abbrev Handler := List Event → QSock → List UInt8 → List QSock

/-- What a handshake attempt on the bytes received so far gives: not all there
yet, refused, or the response and the number of bytes it used. -/
inductive ShakeHands
  | more
  | refuse
  | accept (response : List UInt8) (parsedLens : ℕ)
  deriving DecidableEq, Repr

/-- What the worker is built on: the width of `size_t`, the memory after a
pulled-up block, `CCommEncrypt` (what its `n`-th call gives for the link kind
and the bytes), and the handshake parser. -/
structure Env where
  width : Width
  stray : List UInt8
  encode : ℕ → Bool → List UInt8 → Option (List UInt8)
  decode : ℕ → Bool → List UInt8 → Option (List UInt8)
  shakeHands : List UInt8 → ShakeHands

/-- The worker without ciphers: both lists of `CCommEncrypt` are empty. -/
def Env.plain (w : Width) (shakeHands : List UInt8 → ShakeHands) : Env :=
  ⟨w, [], fun _ _ msg => some msg, fun _ _ msg => some msg, shakeHands⟩

/-- `CCommEncrypt::Encode`, which gives an empty message back as it is. -/
def Env.encodeMsg (E : Env) (n : ℕ) (bSVLink : Bool) (msg : List UInt8) :
    Option (List UInt8) :=
  if msg = [] then some [] else E.encode n bSVLink msg

/-- `CCommEncrypt::Decode`, which gives an empty message back as it is. -/
def Env.decodeMsg (E : Env) (n : ℕ) (bSVLink : Bool) (msg : List UInt8) :
    Option (List UInt8) :=
  if msg = [] then some [] else E.decode n bSVLink msg

theorem Env.decodeMsg_of_identity {E : Env} (h : ∀ n b msg, E.decode n b msg = some msg)
    (n : ℕ) (b : Bool) (msg : List UInt8) : E.decodeMsg n b msg = some msg := by
  unfold Env.decodeMsg
  by_cases hnil : msg = []
  · rw [if_pos hnil, hnil]
  · rw [if_neg hnil, h]

namespace Worker

/-- The worker before the first connection. -/
def start : Worker := ⟨fun _ => none, fun _ => none, 0, 0, 0, []⟩

/-- `CSession::getStatus` of the object that was the session of a socket. -/
def status (W : Worker) (fd : QSock) : SessionStatus :=
  match W.session fd with
  | none => .closed
  | some S => S.status

/-- Store a session under a socket. -/
def setSession (W : Worker) (fd : QSock) (S : Session) : Worker :=
  { W with session := Function.update W.session fd (some S) }

/-- Record an event. -/
def emit (W : Worker) (e : Event) : Worker := { W with log := W.log ++ [e] }

/-- Count a call of the ciphers. -/
def countCipher (W : Worker) : Worker := { W with ciphers := W.ciphers + 1 }

/-- `CSessionManager::closeLinkByID`. For a WebSocket session the source has an
empty case here (its comment says that `dispWebSock` has cleaned up). -/
def closeLinkByID (W : Worker) (iID : QSock) : Worker :=
  if iID = invalidSock then W
  else
    match W.session iID with
    | none => W
    | some S =>
      let W := W.emit (.sockClose S.conn)
      let W :=
        match S.type with
        | .webSock => W
        | .tcpClient => W.emit (.linkStatus iID .closed)
        | _ => W
      { W with session := Function.update W.session iID none }

/-- Run a handler that closes the given sessions in order. -/
def closeAll (W : Worker) (ids : List QSock) : Worker := ids.foldl closeLinkByID W

/-- `onSockRead` of the interface for the session `S` of `fd`. -/
def onSockRead (W : Worker) (h : Handler) (fd : QSock) (S : Session) (msg : List UInt8) :
    Worker :=
  (W.emit (.sockRead S.conn msg)).closeAll (h W.log fd msg)

/-- `onDebug` of the interface. -/
def onDebug (W : Worker) (h : Handler) (fd : QSock) (S : Session) (msg : List UInt8) :
    Worker :=
  (W.emit (.debug S.conn msg)).closeAll (h W.log fd msg)

/-- `pSession->getBuffer()->delBuffer(iLens)`. -/
def delBuffer (W : Worker) (fd : QSock) (iLens : ℕ) : Worker :=
  match W.session fd with
  | none => W
  | some S => W.setSession fd { S with input := EventBuffer.delBuffer S.input iLens }

/-- `pSession->getBuffer()->writeBuffer(...)`. -/
def writeBuffer (W : Worker) (fd : QSock) (bytes : List UInt8) : Worker :=
  match W.session fd with
  | none => W
  | some S => W.setSession fd { S with output := S.output ++ bytes }

/-- Bytes arrive in the read buffer of a connection. -/
def arrive (W : Worker) (fd : QSock) (chunk : List UInt8) : Worker :=
  match W.session fd with
  | none => W
  | some S => W.setSession fd { S with input := S.input ++ chunk }

/-- The number of bytes in the read buffer of a socket. -/
def pending (W : Worker) (fd : QSock) : ℕ :=
  match W.session fd with
  | none => 0
  | some S => S.input.length

/-! ## What an operation does to one session -/

@[simp] theorem session_emit (W : Worker) (e : Event) : (W.emit e).session = W.session := rfl

@[simp] theorem log_emit (W : Worker) (e : Event) : (W.emit e).log = W.log ++ [e] := rfl

@[simp] theorem session_countCipher (W : Worker) : W.countCipher.session = W.session := rfl

@[simp] theorem session_setSession_same (W : Worker) (fd : QSock) (S : Session) :
    (W.setSession fd S).session fd = some S := Function.update_self _ _ _

theorem session_setSession_ne (W : Worker) {fd sd : QSock} (S : Session) (h : sd ≠ fd) :
    (W.setSession fd S).session sd = W.session sd := Function.update_of_ne h _ _

@[simp] theorem log_setSession (W : Worker) (fd : QSock) (S : Session) :
    (W.setSession fd S).log = W.log := rfl

theorem pending_of_session {W : Worker} {fd : QSock} {S : Session}
    (h : W.session fd = some S) : W.pending fd = S.input.length := by
  rw [pending, h]

theorem delBuffer_of_session {W : Worker} {fd : QSock} {S : Session}
    (h : W.session fd = some S) (n : ℕ) :
    W.delBuffer fd n = W.setSession fd { S with input := S.input.drop n } := by
  rw [delBuffer, h]
  rfl

theorem writeBuffer_of_session {W : Worker} {fd : QSock} {S : Session}
    (h : W.session fd = some S) (bytes : List UInt8) :
    W.writeBuffer fd bytes = W.setSession fd { S with output := S.output ++ bytes } := by
  rw [writeBuffer, h]

theorem arrive_of_session {W : Worker} {fd : QSock} {S : Session}
    (h : W.session fd = some S) (chunk : List UInt8) :
    W.arrive fd chunk = W.setSession fd { S with input := S.input ++ chunk } := by
  rw [arrive, h]

theorem status_of_session {W : Worker} {fd : QSock} {S : Session}
    (h : W.session fd = some S) : W.status fd = S.status := by
  rw [status, h]

/-- The read buffer of a socket, if it has one, holds at most `n` bytes. -/
def InputLe (fd : QSock) (n : ℕ) (W : Worker) : Prop :=
  ∀ S, W.session fd = some S → S.input.length ≤ n

/-- Dropping bytes of a session, if it is still there, leaves fewer than there
were. -/
theorem pending_delBuffer_lt {W : Worker} {fd : QSock} {n k : ℕ} (hk : 0 < k) (hn : 0 < n)
    (h : InputLe fd n W) : (W.delBuffer fd k).pending fd < n := by
  cases hS : W.session fd with
  | none =>
    rw [delBuffer, hS]
    dsimp only
    rw [pending, hS]
    exact hn
  | some S =>
    have hlen := h S hS
    rw [delBuffer_of_session hS, pending_of_session (session_setSession_same _ _ _)]
    show (S.input.drop k).length < n
    rw [List.length_drop]
    omega

/-- **What a close can do**: nothing, or drop one session and log its close. -/
theorem closeLinkByID_cases (W : Worker) (iID : QSock) :
    W.closeLinkByID iID = W
      ∨ ∃ S, W.session iID = some S ∧ ∃ es, es ⊆ [.sockClose S.conn, .linkStatus iID .closed]
        ∧ W.closeLinkByID iID
          = { W with session := Function.update W.session iID none, log := W.log ++ es } := by
  unfold closeLinkByID
  by_cases hid : iID = invalidSock
  · rw [if_pos hid]
    exact .inl rfl
  · rw [if_neg hid]
    cases hS : W.session iID with
    | none => exact .inl rfl
    | some S =>
      refine .inr ⟨S, rfl, ?_⟩
      obtain ⟨type, status, ping, input, output, conn⟩ := S
      cases type with
      | tcpClient =>
        refine ⟨[.sockClose conn, .linkStatus iID .closed], List.Subset.refl _, ?_⟩
        simp only [emit, List.append_assoc, List.singleton_append]
      | tcp => exact ⟨[.sockClose conn], by simp, rfl⟩
      | webSock => exact ⟨[.sockClose conn], by simp, rfl⟩
      | debug => exact ⟨[.sockClose conn], by simp, rfl⟩

/-- The messages handed over for a connection, in order. -/
def delivered (conn : ℕ) (log : List Event) : List (List UInt8) :=
  log.filterMap fun e =>
    match e with
    | .sockRead c msg => if c = conn then some msg else none
    | .debug c msg => if c = conn then some msg else none
    | _ => none

@[simp] theorem delivered_append (conn : ℕ) (l₁ l₂ : List Event) :
    delivered conn (l₁ ++ l₂) = delivered conn l₁ ++ delivered conn l₂ :=
  List.filterMap_append

@[simp] theorem delivered_sockRead (conn : ℕ) (msg : List UInt8) :
    delivered conn [.sockRead conn msg] = [msg] := by
  simp [delivered]

@[simp] theorem delivered_debug (conn : ℕ) (msg : List UInt8) :
    delivered conn [.debug conn msg] = [msg] := by
  simp [delivered]

/-- A close hands nothing over. -/
theorem delivered_closeLinkByID (W : Worker) (id : QSock) (conn : ℕ) :
    delivered conn (W.closeLinkByID id).log = delivered conn W.log := by
  rcases W.closeLinkByID_cases id with heq | ⟨S, -, es, hes, heq⟩
  · rw [heq]
  · rw [heq]
    have hnil : delivered conn es = [] := by
      refine List.filterMap_eq_nil_iff.mpr fun e he => ?_
      rcases List.mem_cons.mp (hes he) with rfl | he
      · rfl
      · rw [List.mem_singleton.mp he]
    rw [delivered_append, hnil, List.append_nil]

/-- Closing other sessions leaves a session, its continuation entry and its
deliveries alone. -/
theorem closeAll_keeps (W : Worker) {fd : QSock} (conn : ℕ) (ids : List QSock)
    (h : fd ∉ ids) :
    (W.closeAll ids).session fd = W.session fd
      ∧ (W.closeAll ids).webSockPack = W.webSockPack
      ∧ delivered conn (W.closeAll ids).log = delivered conn W.log := by
  induction ids generalizing W with
  | nil => exact ⟨rfl, rfl, rfl⟩
  | cons id ids ih =>
    obtain ⟨hne, hids⟩ : fd ≠ id ∧ fd ∉ ids := by simpa only [List.mem_cons, not_or] using h
    obtain ⟨h₁, h₂, h₃⟩ := ih (W.closeLinkByID id) hids
    rw [closeAll, List.foldl_cons, ← closeAll, h₁, h₂, h₃, delivered_closeLinkByID]
    rcases W.closeLinkByID_cases id with heq | ⟨S, -, es, -, heq⟩
    · rw [heq]
      exact ⟨rfl, rfl, rfl⟩
    · rw [heq]
      exact ⟨Function.update_of_ne hne _ _, rfl, rfl⟩

@[simp] theorem webSockPack_closeAll (W : Worker) (ids : List QSock) :
    (W.closeAll ids).webSockPack = W.webSockPack := by
  induction ids generalizing W with
  | nil => rfl
  | cons id ids ih =>
    rw [closeAll, List.foldl_cons, ← closeAll, ih]
    rcases W.closeLinkByID_cases id with heq | ⟨S, -, es, -, heq⟩ <;> rw [heq]

/-- A session survives a handler as it was, or not at all. -/
theorem session_closeAll (W : Worker) (ids : List QSock) (fd : QSock) :
    (W.closeAll ids).session fd = W.session fd ∨ (W.closeAll ids).session fd = none := by
  induction ids generalizing W with
  | nil => exact .inl rfl
  | cons id ids ih =>
    rw [closeAll, List.foldl_cons, ← closeAll]
    rcases ih (W.closeLinkByID id) with h | h
    · rw [h]
      rcases W.closeLinkByID_cases id with heq | ⟨S, -, es, -, heq⟩
      · rw [heq]
        exact .inl rfl
      · rw [heq]
        by_cases hid : fd = id
        · rw [hid]
          exact .inr (Function.update_self _ _ _)
        · exact .inl (Function.update_of_ne hid _ _)
    · exact .inr h

/-- A session that is there after a handler was there before it. -/
theorem session_of_closeAll {W : Worker} {ids : List QSock} {fd : QSock} {S : Session}
    (h : (W.closeAll ids).session fd = some S) : W.session fd = some S := by
  rcases W.session_closeAll ids fd with hk | hk
  · rw [← hk, h]
  · rw [h] at hk
    cases hk

/-- **A handler that keeps the session**: its message is handed over, and the
session and the continuation entries are as they were. -/
theorem onSockRead_keeps (W : Worker) {h : Handler} {fd : QSock} (S : Session)
    (msg : List UInt8) (hkeep : ∀ log s msg, fd ∉ h log s msg) :
    (W.onSockRead h fd S msg).session fd = W.session fd
      ∧ (W.onSockRead h fd S msg).webSockPack = W.webSockPack
      ∧ delivered S.conn (W.onSockRead h fd S msg).log = delivered S.conn W.log ++ [msg] := by
  obtain ⟨h₁, h₂, h₃⟩ :=
    (W.emit (.sockRead S.conn msg)).closeAll_keeps S.conn _ (hkeep W.log fd msg)
  refine ⟨h₁, h₂, ?_⟩
  rw [onSockRead, h₃, log_emit, delivered_append, delivered_sockRead]

/-- The same for `onDebug`. -/
theorem onDebug_keeps (W : Worker) {h : Handler} {fd : QSock} (S : Session)
    (msg : List UInt8) (hkeep : ∀ log s msg, fd ∉ h log s msg) :
    (W.onDebug h fd S msg).session fd = W.session fd
      ∧ delivered S.conn (W.onDebug h fd S msg).log = delivered S.conn W.log ++ [msg] := by
  obtain ⟨h₁, -, h₃⟩ :=
    (W.emit (.debug S.conn msg)).closeAll_keeps S.conn _ (hkeep W.log fd msg)
  refine ⟨h₁, ?_⟩
  rw [onDebug, h₃, log_emit, delivered_append, delivered_debug]

/-! ## A close by socket -/

section Close

variable {W : Worker}

/-- The session of a socket is closed, with what the close logs. -/
theorem closeLinkByID_of_session {iID : QSock} {S : Session} (hid : iID ≠ invalidSock)
    (hS : W.session iID = some S) :
    W.closeLinkByID iID
      = { W with
          session := Function.update W.session iID none
          log := W.log ++ .sockClose S.conn ::
            (if S.type = .tcpClient then [.linkStatus iID .closed] else []) } := by
  obtain ⟨type, status, ping, input, output, conn⟩ := S
  unfold closeLinkByID
  rw [if_neg hid, hS]
  cases type with
  | tcpClient => simp only [emit, List.append_assoc]; rfl
  | tcp => rfl
  | webSock => rfl
  | debug => rfl

theorem closeLinkByID_of_none {iID : QSock} (hS : W.session iID = none) :
    W.closeLinkByID iID = W := by
  unfold closeLinkByID
  rw [hS, ite_self]

end Close

end Worker
