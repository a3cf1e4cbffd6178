import QService.Session
import QService.WebSockParser

/-!
# WebSocket dispatch

`CWorkThreadEvent::dispWebSock` first runs the handshake and then, once the
session is linked, loops over frames: control frames are answered, whole
messages are handed over, and the fragments of a message are collected in
`m_mapWebSockPack` under the session's socket until the last one arrives.

`m_mapWebSockPack` is written in three ways, all here: a fragment creates or
extends the entry of its socket (`addContinuation`), the last fragment
empties it, and the paths that end the session inside the loop erase it
(`delContinuation`).
-/

namespace Worker

open WebSockParser

/-- `CSession::setPing(getCount())`. -/
def setPing (W : Worker) (fd : QSock) : Worker :=
  match W.session fd with
  | none => W
  | some S => W.setSession fd { S with ping := W.count }

/-- `CSession::setStatus`. -/
def setStatus (W : Worker) (fd : QSock) (status : SessionStatus) : Worker :=
  match W.session fd with
  | none => W
  | some S => W.setSession fd { S with status := status }

/-- Store a continuation entry. -/
def setPack (W : Worker) (sock : QSock) (c : Option Continuation) : Worker :=
  { W with webSockPack := Function.update W.webSockPack sock c }

/-- `CWorkThreadEvent::addContinuation`, for a frame of the connection `conn`. -/
def addContinuation (W : Worker) (sock : QSock) (conn : ℕ) (data : List UInt8) : Worker :=
  match W.webSockPack sock with
  | none => W.setPack sock (some ⟨data, conn⟩)
  | some c => W.setPack sock (some { c with data := c.data ++ data })

/-- `CWorkThreadEvent::delContinuation`. -/
def delContinuation (W : Worker) (sock : QSock) : Worker := W.setPack sock none

@[simp] theorem webSockPack_setPack_same (W : Worker) (sock : QSock)
    (c : Option Continuation) : (W.setPack sock c).webSockPack sock = c :=
  Function.update_self _ _ _

theorem webSockPack_setPack_ne (W : Worker) {sock sd : QSock} (c : Option Continuation)
    (h : sd ≠ sock) : (W.setPack sock c).webSockPack sd = W.webSockPack sd :=
  Function.update_of_ne h _ _

theorem setPing_of_session {W : Worker} {fd : QSock} {S : Session}
    (h : W.session fd = some S) :
    W.setPing fd = W.setSession fd { S with ping := W.count } := by
  rw [setPing, h]

theorem setStatus_of_session {W : Worker} {fd : QSock} {S : Session}
    (h : W.session fd = some S) (status : SessionStatus) :
    W.setStatus fd status = W.setSession fd { S with status := status } := by
  rw [setStatus, h]

/-- A fragment makes an entry or extends the one there is. -/
theorem addContinuation_eq (W : Worker) (sock : QSock) (conn : ℕ) (data : List UInt8) :
    W.addContinuation sock conn data
      = W.setPack sock (some ⟨((W.webSockPack sock).elim [] Continuation.data) ++ data,
          (W.webSockPack sock).elim conn Continuation.owner⟩) := by
  unfold addContinuation
  cases W.webSockPack sock with
  | none => rfl
  | some c => rfl

/-- Decode a payload and go on with it, or return when the ciphers refuse. -/
def decodeThen (E : Env) (W : Worker) (S : Session) (msg : List UInt8)
    (k : Worker → List UInt8 → LoopStep Worker) : LoopStep Worker :=
  match E.decodeMsg W.ciphers false msg with
  | none => .stop W.countCipher
  | some data => k (W.countCipher.emit (.payload S.conn data)) data

/-- What the loop of `CWorkThreadEvent::dispWebSock` does with a frame that is
not a control frame: a whole message, the last fragment of one, or another
fragment. -/
def dispData (E : Env) (h : Handler) (fd : QSock) (S : Session) (fram : WebSockFram)
    (parsedLens : ℕ) (msg : List UInt8) (W : Worker) : LoopStep Worker :=
  if fram.emOpCode ≠ .continuation ∧ fram.cFin = 1 then
    decodeThen E W S msg fun W data =>
      let W := W.onSockRead h fd S data
      if W.status fd = .closed then .stop (W.delContinuation fd)
      else .next (W.delBuffer fd parsedLens)
  else if fram.cFin = 1 ∧ fram.emOpCode = .continuation then
    match W.webSockPack fd with
    | some c =>
      decodeThen E W S msg fun W data =>
        let str := c.data ++ data
        let W := (W.setPack fd (some { c with data := str })).onSockRead h fd S str
        if W.status fd = .closed then .stop (W.delContinuation fd)
        else .next ((W.delBuffer fd parsedLens).setPack fd (some { c with data := [] }))
    | none => .next (W.delBuffer fd parsedLens)
  else
    decodeThen E W S msg fun W data =>
      .next ((W.addContinuation fd S.conn data).delBuffer fd parsedLens)

/-- What the loop does with a frame of the session `S` of `fd`, once its payload
is unmasked in the read buffer: the switch on the opcode. -/
def dispFram (E : Env) (h : Handler) (fd : QSock) (S : Session) (fram : WebSockFram)
    (parsedLens : ℕ) (msg : List UInt8) (W : Worker) : LoopStep Worker :=
  match fram.emOpCode with
  | .close => .stop ((W.delContinuation fd).closeLinkByID fd)
  | .ping =>
    .next (((W.writeBuffer fd (createHead true .pong 0)).setPing fd).delBuffer fd parsedLens)
  | .pong => .next ((W.setPing fd).delBuffer fd parsedLens)
  | _ => dispData E h fd S fram parsedLens msg W

/-- One round of the loop of `CWorkThreadEvent::dispWebSock`. -/
def dispWebSockBody (E : Env) (h : Handler) (fd : QSock) (W : Worker) : LoopStep Worker :=
  match W.session fd with
  | none => .stop W
  | some S =>
    match parsePack E.width S.input with
    | .close => .stop ((W.delContinuation fd).closeLinkByID fd)
    | .wait => .stop W
    | .pack fram parsedLens msg buf =>
      dispFram E h fd S fram parsedLens msg (W.setSession fd { S with input := buf })

/-- `CWorkThreadEvent::dispWebSock`. -/
def dispWebSock (E : Env) (h : Handler) (fd : QSock) (W : Worker) : Worker :=
  match W.session fd with
  | none => W
  | some S =>
    if S.status = .connect then
      match E.shakeHands S.input with
      | .refuse => W.closeLinkByID fd
      | .more => W
      | .accept response parsedLens =>
        ((W.writeBuffer fd response).setStatus fd .linked).delBuffer fd parsedLens
    else LoopStep.whileTrue (dispWebSockBody E h fd) (W.pending fd + 1) W

/-! ### The ways of a round -/

section Round

variable {E : Env} {h : Handler} {fd : QSock} {W : Worker} {S : Session}

theorem dispWebSockBody_of_none (hS : W.session fd = none) :
    dispWebSockBody E h fd W = .stop W := by
  rw [dispWebSockBody, hS]

theorem dispWebSockBody_of_close (hS : W.session fd = some S)
    (hpack : parsePack E.width S.input = .close) :
    dispWebSockBody E h fd W = .stop ((W.delContinuation fd).closeLinkByID fd) := by
  unfold dispWebSockBody
  rw [hS]
  dsimp only
  rw [hpack]

theorem dispWebSockBody_of_wait (hS : W.session fd = some S)
    (hpack : parsePack E.width S.input = .wait) : dispWebSockBody E h fd W = .stop W := by
  unfold dispWebSockBody
  rw [hS]
  dsimp only
  rw [hpack]

/-- A round on a frame, with the switch still to come. -/
theorem dispWebSockBody_of_pack {fram : WebSockFram} {parsedLens : ℕ}
    {msg buf : List UInt8} (hS : W.session fd = some S)
    (hpack : parsePack E.width S.input = .pack fram parsedLens msg buf) :
    dispWebSockBody E h fd W
      = dispFram E h fd S fram parsedLens msg (W.setSession fd { S with input := buf }) := by
  unfold dispWebSockBody
  rw [hS]
  dsimp only
  rw [hpack]

end Round

/-! ### Every round that goes on drops bytes -/

theorem decodeThen_next {E : Env} {W W' : Worker} {S : Session} {msg : List UInt8}
    {k : Worker → List UInt8 → LoopStep Worker} (h : decodeThen E W S msg k = .next W') :
    ∃ data, k (W.countCipher.emit (.payload S.conn data)) data = .next W' := by
  unfold decodeThen at h
  split at h
  · cases h
  · exact ⟨_, h⟩

theorem InputLe.of_session {fd : QSock} {n : ℕ} {W W' : Worker} (h : InputLe fd n W)
    (hs : W'.session = W.session) : InputLe fd n W' := by
  intro S hS
  exact h S (hs ▸ hS)

theorem InputLe.setSession {fd : QSock} {n : ℕ} {W : Worker} {S : Session}
    (h : S.input.length ≤ n) : InputLe fd n (W.setSession fd S) := by
  intro T hT
  rw [session_setSession_same] at hT
  rw [← Option.some.inj hT]
  exact h

theorem InputLe.writeBuffer {fd : QSock} {n : ℕ} {W : Worker} (h : InputLe fd n W)
    (bytes : List UInt8) : InputLe fd n (W.writeBuffer fd bytes) := by
  cases hS : W.session fd with
  | none => rwa [Worker.writeBuffer, hS]
  | some S =>
    rw [writeBuffer_of_session hS]
    exact .setSession (h S hS)

theorem InputLe.setPing {fd : QSock} {n : ℕ} {W : Worker} (h : InputLe fd n W) :
    InputLe fd n (W.setPing fd) := by
  cases hS : W.session fd with
  | none => rwa [Worker.setPing, hS]
  | some S =>
    rw [setPing_of_session hS]
    exact .setSession (h S hS)

theorem InputLe.onSockRead {fd : QSock} {n : ℕ} {W : Worker} (h : InputLe fd n W)
    (hd : Handler) (S : Session) (msg : List UInt8) :
    InputLe fd n (W.onSockRead hd fd S msg) := by
  intro T hT
  have hT' : (W.emit (.sockRead S.conn msg)).session fd = some T := session_of_closeAll hT
  exact h T hT'

/-- A data frame that goes on is dropped. -/
theorem dispData_next_lt {E : Env} {h : Handler} {fd : QSock} {S : Session}
    {fram : WebSockFram} {parsedLens n : ℕ} {msg : List UInt8} {W W' : Worker}
    (hpos : 0 < parsedLens) (hn : 0 < n) (hlen : InputLe fd n W)
    (hnext : dispData E h fd S fram parsedLens msg W = .next W') : W'.pending fd < n := by
  unfold dispData at hnext
  split_ifs at hnext
  · obtain ⟨data, hk⟩ := decodeThen_next hnext
    dsimp only at hk
    split_ifs at hk
    cases hk
    refine pending_delBuffer_lt hpos hn (InputLe.onSockRead ?_ h S data)
    exact hlen.of_session rfl
  · split at hnext
    · obtain ⟨data, hk⟩ := decodeThen_next hnext
      dsimp only at hk
      split_ifs at hk
      cases hk
      show (Worker.delBuffer _ fd parsedLens).pending fd < n
      refine pending_delBuffer_lt hpos hn (InputLe.onSockRead ?_ h S _)
      exact hlen.of_session rfl
    · cases hnext
      exact pending_delBuffer_lt hpos hn hlen
  · obtain ⟨data, hk⟩ := decodeThen_next hnext
    rw [addContinuation_eq] at hk
    cases hk
    exact pending_delBuffer_lt hpos hn (hlen.of_session rfl)

/-- A frame that goes on is dropped. -/
theorem dispFram_next_lt {E : Env} {h : Handler} {fd : QSock} {S : Session}
    {fram : WebSockFram} {parsedLens n : ℕ} {msg : List UInt8} {W W' : Worker}
    (hpos : 0 < parsedLens) (hn : 0 < n) (hlen : InputLe fd n W)
    (hnext : dispFram E h fd S fram parsedLens msg W = .next W') : W'.pending fd < n := by
  unfold dispFram at hnext
  split at hnext
  · cases hnext
  · cases hnext
    exact pending_delBuffer_lt hpos hn (hlen.writeBuffer _).setPing
  · cases hnext
    exact pending_delBuffer_lt hpos hn hlen.setPing
  · exact dispData_next_lt hpos hn hlen hnext

/-- A round that goes on leaves fewer bytes. -/
theorem dispWebSockBody_next_lt {E : Env} {h : Handler} {fd : QSock} {W W' : Worker}
    (hnext : dispWebSockBody E h fd W = .next W') : W'.pending fd < W.pending fd := by
  unfold dispWebSockBody at hnext
  cases hS : W.session fd with
  | none =>
    rw [hS] at hnext
    cases hnext
  | some S =>
    rw [hS] at hnext
    dsimp only at hnext
    split at hnext
    · cases hnext
    · cases hnext
    · rename_i hpack
      obtain ⟨hpos, hbuf, hlen⟩ := parsePack_parsedLens E.width hpack
      rw [pending_of_session hS]
      exact dispFram_next_lt hpos hbuf (.setSession hlen) hnext

/-- **The loop of `dispWebSock` always returns**: what it leaves is what some
round of it returned. -/
theorem dispWebSock_returns (E : Env) (h : Handler) (fd : QSock) (W : Worker) :
    ∃ W₁, dispWebSockBody E h fd W₁
      = .stop (LoopStep.whileTrue (dispWebSockBody E h fd) (W.pending fd + 1) W) :=
  LoopStep.whileTrue_rule (fun _ => True)
    (fun W' => ∃ W₁, dispWebSockBody E h fd W₁ = .stop W') (Worker.pending · fd)
    (fun _ _ _ hnext => ⟨trivial, dispWebSockBody_next_lt hnext⟩)
    (fun W₁ _ _ hstop => ⟨W₁, hstop⟩) _ W trivial (Nat.lt_succ_self _)

end Worker
