import QService.WebSockConnection
import QService.WebSockRounds

/-!
# A last fragment without a message

`dispWebSock` drops a frame with FIN and the opcode CONTINUATION when there is
no message for it to end. Whether there is one it reads from the continuation
entry of the socket: the first fragment makes the entry, and the last one
empties it but does not erase it. So the entry is there from the first
fragment of a connection to its end, and after one fragmented message every
stray last fragment is handed over as a message of its own. It may even be
there from the start, if a close by a callback has left it to the next
connection of the socket.

`Fragments` says where a connection stands, from the frames its loop has
dropped and from what it found when it began; the worker does not see it. In
every run the entry is there exactly if the connection has inherited it or has
ever started a fragmented message (`Standing`), and so a last fragment that
ends no message is discarded exactly if neither is so (`discards_iff`).
-/

namespace Worker

open WebSockParser

/-- How far the fragmented messages of a connection have come. -/
inductive Fragments
  /-- None was ever started. -/
  | never
  /-- One is open. -/
  | inProgress
  /-- The last one was completed. -/
  | completed
  /-- None was started, and an earlier connection of the socket has left its
  entry. -/
  | inherited
  deriving DecidableEq, Repr

/-- The frame is a data frame. -/
def IsDataFram (fram : WebSockFram) : Prop :=
  fram.emOpCode ≠ .close ∧ fram.emOpCode ≠ .ping ∧ fram.emOpCode ≠ .pong

instance (fram : WebSockFram) : Decidable (IsDataFram fram) :=
  inferInstanceAs (Decidable (_ ∧ _ ∧ _))

/-- What a frame that was dealt with does to a connection: without FIN it
starts or goes on with a message, and the last fragment completes an open one. -/
def Fragments.after (fram : WebSockFram) (p : Fragments) : Fragments :=
  if IsDataFram fram ∧ fram.cFin ≠ 1 then .inProgress
  else if fram.emOpCode = .continuation ∧ p = .inProgress then .completed
  else p

/-- A message was started before, or the frame starts one. -/
theorem Fragments.after_ne_never_iff (fram : WebSockFram) (p : Fragments) :
    p.after fram ≠ .never ↔ p ≠ .never ∨ (IsDataFram fram ∧ fram.cFin ≠ 1) := by
  unfold Fragments.after
  split_ifs with h₁ h₂
  · exact iff_of_true (by decide) (.inr h₁)
  · refine iff_of_true (by decide) (.inl ?_)
    rw [h₂.2]
    decide
  · exact ⟨.inl, fun h => h.resolve_right h₁⟩

/-- Where a new connection on the socket stands. -/
def Fragments.fresh (W : Worker) (fd : QSock) : Fragments :=
  if W.webSockPack fd = none then .never else .inherited

theorem Fragments.fresh_ne_never_iff (W : Worker) (fd : QSock) :
    fresh W fd ≠ .never ↔ W.webSockPack fd ≠ none := by
  unfold fresh
  split_ifs with h
  · exact iff_of_false (not_not.mpr rfl) (not_not.mpr h)
  · exact iff_of_true (by decide) h

/-- What a round that goes on records: its frame. -/
def noteRound (E : Env) (fd : QSock) (W : Worker) (p : Fragments) : Fragments :=
  match W.session fd with
  | none => p
  | some S =>
    match parsePack E.width S.input with
    | .pack fram _ _ _ => p.after fram
    | _ => p

theorem noteRound_of_pack {E : Env} {fd : QSock} {W : Worker} {S : Session} {fram : WebSockFram}
    {parsedLens : ℕ} {msg buf : List UInt8} (hS : W.session fd = some S)
    (hpack : parsePack E.width S.input = .pack fram parsedLens msg buf) (p : Fragments) :
    noteRound E fd W p = p.after fram := by
  rw [noteRound, hS]
  dsimp only
  rw [hpack]

/-- The loop of `dispWebSock` with its record. -/
abbrev trackedBody (E : Env) (h : Handler) (fd : QSock) :
    Worker × Fragments → LoopStep (Worker × Fragments) :=
  LoopStep.ghost (dispWebSockBody E h fd) (noteRound E fd)

/-- What a read of the socket records. -/
def trackRead (E : Env) (h : Handler) (fd : QSock) (W : Worker) (p : Fragments) : Fragments :=
  match W.session fd with
  | none => p
  | some S =>
    if S.type = .webSock ∧ S.status ≠ .connect then
      (LoopStep.whileTrue (trackedBody E h fd) (W.pending fd + 1) (W, p)).2
    else p

/-- The worker, and where the connections stand. -/
structure Tracked where
  worker : Worker
  fragments : QSock → Fragments

namespace Tracked

/-- Before the first connection. -/
def start : Tracked := ⟨Worker.start, fun _ => .never⟩

/-- One event. The worker does what it does, and a new connection stands where
its socket's entry puts it. -/
def step (E : Env) (T : Tracked) (i : Input) : Tracked where
  worker := T.worker.step E i
  fragments :=
    match i with
    | .accept fd _ _ => Function.update T.fragments fd (.fresh T.worker fd)
    | .linkOther fd _ => Function.update T.fragments fd (.fresh T.worker fd)
    | .read fd chunk h =>
      Function.update T.fragments fd
        (trackRead E h fd (T.worker.arrive fd chunk) (T.fragments fd))
    | .gone _ => T.fragments
    | .timer _ => T.fragments

end Tracked

/-! ## One round -/

section Round

variable {E : Env} {h : Handler} {fd : QSock} {W W' : Worker}

/-- A round that goes on makes an entry of a fragment, and otherwise leaves
it where there was one. -/
theorem webSockPack_of_next (hnext : dispWebSockBody E h fd W = .next W') :
    ∃ S : Session, ∃ fram parsedLens msg buf, W.session fd = some S
      ∧ parsePack E.width S.input = .pack fram parsedLens msg buf
      ∧ (W'.webSockPack fd ≠ none
        ↔ W.webSockPack fd ≠ none ∨ (IsDataFram fram ∧ fram.cFin ≠ 1)) := by
  cases hS : W.session fd with
  | none =>
    rw [dispWebSockBody_of_none hS] at hnext
    cases hnext
  | some S =>
    cases hpack : parsePack E.width S.input with
    | wait =>
      rw [dispWebSockBody_of_wait hS hpack] at hnext
      cases hnext
    | close =>
      rw [dispWebSockBody_of_close hS hpack] at hnext
      cases hnext
    | pack fram parsedLens msg buf =>
      refine ⟨S, fram, parsedLens, msg, buf, rfl, hpack, ?_⟩
      rw [dispWebSockBody_of_pack hS hpack] at hnext
      have hbuf : (W.setSession fd { S with input := buf }).webSockPack = W.webSockPack := rfl
      rw [← hbuf]
      generalize W.setSession fd { S with input := buf } = V at hnext ⊢
      unfold dispFram at hnext
      split at hnext
      · cases hnext
      · rename_i hping
        cases hnext
        rw [webSockPack_delBuffer, webSockPack_setPing, webSockPack_writeBuffer]
        exact ⟨.inl, fun hor => hor.resolve_right fun hd => hd.1.2.1 hping⟩
      · rename_i hpong
        cases hnext
        rw [webSockPack_delBuffer, webSockPack_setPing]
        exact ⟨.inl, fun hor => hor.resolve_right fun hd => hd.1.2.2 hpong⟩
      · rename_i hclose hping hpong
        unfold dispData at hnext
        split_ifs at hnext with h₁ h₂
        · -- a whole message
          obtain ⟨data, hk⟩ := decodeThen_next hnext
          dsimp only at hk
          split_ifs at hk
          cases hk
          rw [webSockPack_delBuffer, Worker.onSockRead, webSockPack_closeAll]
          exact ⟨.inl, fun hor => hor.resolve_right fun hd => hd.2 h₁.2⟩
        · -- the last fragment
          split at hnext
          · rename_i c hc
            obtain ⟨data, hk⟩ := decodeThen_next hnext
            dsimp only at hk
            split_ifs at hk
            cases hk
            rw [webSockPack_setPack_same]
            exact iff_of_true (by simp) (.inl (by rw [hc]; simp))
          · cases hnext
            rw [webSockPack_delBuffer]
            exact ⟨.inl, fun hor => hor.resolve_right fun hd => hd.2 h₂.1⟩
        · -- another fragment
          obtain ⟨data, hk⟩ := decodeThen_next hnext
          rw [addContinuation_eq] at hk
          cases hk
          rw [webSockPack_delBuffer, webSockPack_setPack_same]
          refine iff_of_true (by simp) (.inr ⟨⟨hclose, hping, hpong⟩, fun hfin => ?_⟩)
          by_cases hop : fram.emOpCode = .continuation
          · exact h₂ ⟨hfin, hop⟩
          · exact h₁ ⟨hop, hfin⟩

/-- A round that returns leaves the entry of a session that is still there. -/
theorem webSockPack_of_stop (hfd : fd ≠ invalidSock) (hlive : Live fd W)
    (hstop : dispWebSockBody E h fd W = .stop W') :
    W'.session fd = none ∨ W'.webSockPack fd = W.webSockPack fd := by
  obtain hnone | ⟨rfl, -⟩ | hrefuses := stop_cases hfd hlive hstop
  · exact .inl hnone
  · exact .inr rfl
  · obtain ⟨S, fram, parsedLens, msg, buf, -, hstop'⟩ :=
      dispWebSockBody_of_refuses (h := h) hrefuses
    rw [hstop] at hstop'
    cases hstop'
    exact .inr rfl

/-- The entries of other sockets are as they were. -/
def PackElsewhere (fd : QSock) (W W' : Worker) : Prop :=
  ∀ sd, sd ≠ fd → W'.webSockPack sd = W.webSockPack sd

theorem roundInvariant_packElsewhere (W : Worker) (fd : QSock) :
    RoundInvariant fd (PackElsewhere fd W) where
  setSession := fun hV _ _ _ _ => hV
  setPack := fun c hV sd hsd => (webSockPack_setPack_ne _ c hsd).trans (hV sd hsd)
  countCipher := fun hV => hV
  emit := fun _ hV => hV
  closeAll := fun ids hV sd hsd => (congrFun (webSockPack_closeAll _ ids) sd).trans (hV sd hsd)

end Round

/-! ## The record and the entry -/

/-- The entry of a session is there exactly if the record says so. -/
def Fits (fd : QSock) (W : Worker) (p : Fragments) : Prop :=
  ∀ S, W.session fd = some S → (W.webSockPack fd ≠ none ↔ p ≠ .never)

/-- **A round keeps the record true.** -/
theorem Fits.round {E : Env} {h : Handler} {fd : QSock} (hfd : fd ≠ invalidSock) {W W' : Worker}
    {p p' : Fragments} (hlive : Live fd W) (hfits : Fits fd W p)
    (hround : trackedBody E h fd (W, p) = .next (W', p')
      ∨ trackedBody E h fd (W, p) = .stop (W', p')) : Fits fd W' p' := by
  intro T hT
  obtain hnext | hstop := hround
  · obtain ⟨hbody, rfl⟩ := LoopStep.ghost_next hnext
    obtain ⟨S, fram, parsedLens, msg, buf, hS, hpack, hiff⟩ := webSockPack_of_next hbody
    rw [hiff, noteRound_of_pack hS hpack, Fragments.after_ne_never_iff, hfits S hS]
  · obtain ⟨hbody, rfl⟩ := LoopStep.ghost_stop hstop
    have hkeeps : Keeps W W' := by
      have hall := dispWebSockBody_keeps E h fd W
      rwa [hbody] at hall
    obtain ⟨S, hS, -⟩ := hkeeps fd T hT
    obtain hnone | heq := webSockPack_of_stop hfd hlive hbody
    · rw [hT] at hnone
      cases hnone
    · rw [heq]
      exact hfits S hS

/-! ## Events -/

/-- What holds of the sessions and the record between two events: no session has the
invalid socket or is closed, and the record of each fits. -/
structure Standing (W : Worker) (fragments : QSock → Fragments) : Prop where
  valid : W.session invalidSock = none
  alive : ∀ fd S, W.session fd = some S → S.status ≠ .closed
  fits : ∀ fd, Fits fd W (fragments fd)

section Standing

variable {W W' : Worker} {fragments : QSock → Fragments}

/-- Sessions that are kept, with their entries. -/
theorem Standing.of_keeps (h : Standing W fragments) (hk : Keeps W W')
    (hpack : ∀ sd, W'.session sd ≠ none → W'.webSockPack sd = W.webSockPack sd) :
    Standing W' fragments where
  valid := by
    cases hS : W'.session invalidSock with
    | none => rfl
    | some T =>
      obtain ⟨S, hS', -⟩ := hk invalidSock T hS
      rw [h.valid] at hS'
      cases hS'
  alive fd T hT := by
    obtain ⟨S, hS, -, hst, -⟩ := hk fd T hT
    rw [hst]
    exact h.alive fd S hS
  fits fd T hT := by
    obtain ⟨S, hS, -⟩ := hk fd T hT
    rw [hpack fd (by rw [hT]; simp)]
    exact h.fits fd S hS

/-- The session of a socket is written. -/
theorem Standing.setSession (h : Standing W fragments) {fd : QSock} {S T : Session}
    (hS : W.session fd = some S) (hst : T.status ≠ .closed) :
    Standing (W.setSession fd T) fragments where
  valid := by
    have hfd : invalidSock ≠ fd := by
      rintro rfl
      rw [h.valid] at hS
      cases hS
    rw [session_setSession_ne _ _ hfd]
    exact h.valid
  alive sd R hR := by
    by_cases hsd : sd = fd
    · subst hsd
      rw [session_setSession_same] at hR
      rwa [← Option.some.inj hR]
    · rw [session_setSession_ne _ _ hsd] at hR
      exact h.alive sd R hR
  fits sd R hR := by
    by_cases hsd : sd = fd
    · subst hsd
      exact h.fits sd S hS
    · rw [session_setSession_ne _ _ hsd] at hR
      exact h.fits sd R hR

/-- A new connection has the entry that there was on its socket. -/
theorem Standing.addSession (h : Standing W fragments) {fd : QSock} (hfd : fd ≠ invalidSock)
    (type : SessionType) {status : SessionStatus} (hst : status ≠ .closed) :
    Standing (W.addSession fd type status) (Function.update fragments fd (.fresh W fd)) where
  valid := (Function.update_of_ne hfd.symm _ _).trans h.valid
  alive sd R hR := by
    by_cases hsd : sd = fd
    · subst hsd
      rwa [← Option.some.inj ((Function.update_self sd _ W.session).symm.trans hR)]
    · exact h.alive sd R ((Function.update_of_ne hsd _ _).symm.trans hR)
  fits sd R hR := by
    by_cases hsd : sd = fd
    · subst hsd
      rw [Function.update_self, Fragments.fresh_ne_never_iff]
      rfl
    · rw [Function.update_of_ne hsd]
      exact h.fits sd R ((Function.update_of_ne hsd _ _).symm.trans hR)

/-- The closes of a callback. -/
theorem Standing.closeAll (h : Standing W fragments) (ids : List QSock) :
    Standing (W.closeAll ids) fragments :=
  h.of_keeps (.closeAll W ids) fun sd _ => congrFun (webSockPack_closeAll W ids) sd

theorem Standing.emit (h : Standing W fragments) (e : Event) : Standing (W.emit e) fragments :=
  ⟨h.valid, h.alive, h.fits⟩

theorem Standing.arrive (h : Standing W fragments) (fd : QSock) (chunk : List UInt8) :
    Standing (W.arrive fd chunk) fragments := by
  cases hS : W.session fd with
  | none => rwa [Worker.arrive, hS]
  | some S =>
    rw [arrive_of_session hS]
    exact h.setSession hS (h.alive fd S hS)

theorem Standing.workThreadEventCB (h : Standing W fragments) (fd : QSock) :
    Standing (W.workThreadEventCB fd) fragments := by
  unfold Worker.workThreadEventCB
  cases hS : W.session fd with
  | none => exact h
  | some S =>
    have hgone {V : Worker} (hV : V.session = W.session)
        (hpack : ∀ sd, sd ≠ fd → V.webSockPack sd = W.webSockPack sd) :
        Standing { V with session := Function.update V.session fd none } fragments := by
      refine h.of_keeps (fun sd T hT => ?_) fun sd hsd => hpack sd fun heq => ?_
      · by_cases hsd : sd = fd
        · subst hsd
          cases (Function.update_self sd none V.session).symm.trans hT
        · exact ⟨T, hV ▸ (Function.update_of_ne hsd _ _).symm.trans hT, rfl, rfl, rfl⟩
      · subst heq
        exact hsd (Function.update_self _ _ _)
    dsimp only
    cases S.type with
    | webSock => exact hgone rfl fun sd hsd => webSockPack_setPack_ne _ none hsd
    | tcpClient => exact hgone rfl fun _ _ => rfl
    | tcp => exact hgone rfl fun _ _ => rfl
    | debug => exact hgone rfl fun _ _ => rfl

/-- A round of `dispTcp` keeps or closes the sessions, and leaves the entries. -/
theorem dispTcpBody_keeps (E : Env) (hd : Handler) (fd : QSock) (W : Worker) :
    (dispTcpBody E hd fd W).All fun V => Keeps W V ∧ V.webSockPack = W.webSockPack := by
  unfold dispTcpBody
  cases hS : W.session fd with
  | none => exact ⟨.refl W, rfl⟩
  | some S =>
    dsimp only
    split
    · exact ⟨.refl W, rfl⟩
    · split
      · exact ⟨.of_session rfl, rfl⟩
      · rename_i msg _
        set V := W.countCipher.emit (.payload S.conn msg)
        have hread : Keeps W (if S.type = .debug then V.onDebug hd fd S msg
              else V.onSockRead hd fd S msg)
            ∧ (if S.type = .debug then V.onDebug hd fd S msg
              else V.onSockRead hd fd S msg).webSockPack = W.webSockPack := by
          split_ifs
          · exact ⟨Keeps.trans (.of_session rfl) (.onDebug V hd fd S msg),
              webSockPack_closeAll (V.emit _) _⟩
          · exact ⟨Keeps.trans (.of_session rfl) (.onSockRead V hd fd S msg),
              webSockPack_closeAll (V.emit _) _⟩
        generalize (if S.type = .debug then _ else _ : Worker) = U at hread ⊢
        split_ifs
        · exact ⟨hread.1.trans (.delBuffer U fd _), (webSockPack_delBuffer U fd _).trans hread.2⟩
        · exact hread

theorem Standing.dispTcp (h : Standing W fragments) (E : Env) (hd : Handler) (fd : QSock) :
    Standing (dispTcp E hd fd W) fragments := by
  obtain ⟨hk, hpack⟩ := LoopStep.whileTrue_all
    (fun V => Keeps W V ∧ V.webSockPack = W.webSockPack) (Worker.pending · fd)
    (fun V hV => by
      have hall := dispTcpBody_keeps E hd fd V
      revert hall
      generalize dispTcpBody E hd fd V = round
      cases round with
      | next U => exact fun hU => ⟨hV.1.trans hU.1, hU.2.trans hV.2⟩
      | stop U => exact fun hU => ⟨hV.1.trans hU.1, hU.2.trans hV.2⟩)
    (fun _ _ => dispTcpBody_next_lt) (W.pending fd + 1) W ⟨.refl W, rfl⟩ (Nat.lt_succ_self _)
  exact h.of_keeps hk fun sd _ => congrFun hpack sd

end Standing

/-! ## A read -/

/-- What holds at every round of a read of `fd` that began in `W`. -/
structure Reading (fd : QSock) (W : Worker) (x : Worker × Fragments) : Prop where
  keeps : Keeps W x.1
  elsewhere : PackElsewhere fd W x.1
  live : Live fd x.1
  fits : Fits fd x.1 x.2

section Reading

variable {E : Env} {hd : Handler} {fd : QSock} {W : Worker}

/-- **Every round keeps it**, whether it goes on or returns. -/
theorem Reading.round (hfd : fd ≠ invalidSock) {x : Worker × Fragments} (hx : Reading fd W x) :
    (trackedBody E hd fd x).All (Reading fd W) := by
  obtain ⟨V, p⟩ := x
  have hkeeps := dispWebSockBody_keeps E hd fd V
  have helse := (roundInvariant_packElsewhere W fd).dispWebSockBody (E := E) (h := hd) hx.elsewhere
  cases hround : trackedBody E hd fd (V, p) with
  | next y =>
    obtain ⟨hbody, -⟩ := LoopStep.ghost_next hround
    rw [hbody] at hkeeps helse
    exact ⟨hx.keeps.trans hkeeps, helse,
      hx.live.of_keeps hkeeps, hx.fits.round hfd hx.live (.inl hround)⟩
  | stop y =>
    obtain ⟨hbody, -⟩ := LoopStep.ghost_stop hround
    rw [hbody] at hkeeps helse
    exact ⟨hx.keeps.trans hkeeps, helse,
      hx.live.of_keeps hkeeps, hx.fits.round hfd hx.live (.inr hround)⟩

theorem trackedBody_next_lt {x y : Worker × Fragments} (h : trackedBody E hd fd x = .next y) :
    y.1.pending fd < x.1.pending fd :=
  dispWebSockBody_next_lt (LoopStep.ghost_next h).1

/-- Where a read begins. -/
theorem Standing.reading {fragments : QSock → Fragments} (h : Standing W fragments) {S : Session}
    (hS : W.session fd = some S) (hst : S.status ≠ .connect) :
    Reading fd W (W, fragments fd) where
  keeps := .refl W
  elsewhere _ _ := rfl
  live T hT := by
    obtain rfl := Option.some.inj (hS.symm.trans hT)
    exact ⟨hst, h.alive fd S hS⟩
  fits := h.fits fd

theorem Standing.ne_invalidSock {fragments : QSock → Fragments} (h : Standing W fragments)
    {S : Session} (hS : W.session fd = some S) : fd ≠ invalidSock := by
  rintro rfl
  rw [h.valid] at hS
  cases hS

/-- A read leaves the record of each session true. -/
theorem Reading.standing {fragments : QSock → Fragments} (h : Standing W fragments)
    {x : Worker × Fragments} (hx : Reading fd W x) :
    Standing x.1 (Function.update fragments fd x.2) where
  valid := by
    cases hS : x.1.session invalidSock with
    | none => rfl
    | some T =>
      obtain ⟨S, hS', -⟩ := hx.keeps invalidSock T hS
      rw [h.valid] at hS'
      cases hS'
  alive sd T hT := by
    obtain ⟨S, hS, -, hst, -⟩ := hx.keeps sd T hT
    rw [hst]
    exact h.alive sd S hS
  fits sd T hT := by
    by_cases hsd : sd = fd
    · subst hsd
      rw [Function.update_self]
      exact hx.fits T hT
    · obtain ⟨S, hS, -⟩ := hx.keeps sd T hT
      rw [Function.update_of_ne hsd, hx.elsewhere sd hsd]
      exact h.fits sd S hS

/-- The handshake links the session, or closes it. -/
theorem Standing.handshake {fragments : QSock → Fragments} (h : Standing W fragments) {S : Session}
    (hS : W.session fd = some S) (hst : S.status = .connect) :
    Standing (dispWebSock E hd fd W) fragments := by
  unfold dispWebSock
  rw [hS]
  dsimp only
  rw [if_pos hst]
  split
  · exact h.closeAll [fd]
  · exact h
  · rename_i response parsedLens _
    rw [writeBuffer_of_session hS, setStatus_of_session (session_setSession_same _ _ _),
      delBuffer_of_session (session_setSession_same _ _ _)]
    have hlinked : SessionStatus.linked ≠ .closed := by decide
    have hwritten :
        Standing (W.setSession fd { S with output := S.output ++ response }) fragments :=
      h.setSession hS (h.alive fd S hS)
    exact (hwritten.setSession (session_setSession_same _ _ _) hlinked).setSession
      (session_setSession_same _ _ _) hlinked

/-- The loop leaves the record of each session true. -/
theorem Standing.loop {fragments : QSock → Fragments} (h : Standing W fragments) {S : Session}
    (hS : W.session fd = some S) (hst : S.status ≠ .connect) :
    Standing (dispWebSock E hd fd W) (Function.update fragments fd
      (LoopStep.whileTrue (trackedBody E hd fd) (W.pending fd + 1) (W, fragments fd)).2) := by
  have hfst : (LoopStep.whileTrue (trackedBody E hd fd) (W.pending fd + 1) (W, fragments fd)).1
      = LoopStep.whileTrue (dispWebSockBody E hd fd) (W.pending fd + 1) W :=
    LoopStep.fst_whileTrue_ghost _ _ _
  unfold dispWebSock
  rw [hS]
  dsimp only
  rw [if_neg hst, ← hfst]
  refine Reading.standing h ?_
  exact LoopStep.whileTrue_all (Reading fd W) (fun x => x.1.pending fd)
    (fun x hx => hx.round (h.ne_invalidSock hS)) (fun _ _ => trackedBody_next_lt) _ _
    (h.reading hS hst) (Nat.lt_succ_self _)

theorem Standing.workThreadReadCB {fragments : QSock → Fragments} (h : Standing W fragments)
    (E : Env) (hd : Handler) (fd : QSock) (chunk : List UInt8) :
    Standing (workThreadReadCB E hd fd chunk W)
      (Function.update fragments fd (trackRead E hd fd (W.arrive fd chunk) (fragments fd))) := by
  have harrive := h.arrive fd chunk
  unfold Worker.workThreadReadCB trackRead
  cases hS : W.session fd with
  | none =>
    rw [Worker.arrive, hS]
    dsimp only
    rw [hS]
    dsimp only
    rwa [Function.update_eq_self]
  | some S =>
    have hS₁ : (W.arrive fd chunk).session fd = some { S with input := S.input ++ chunk } := by
      rw [arrive_of_session hS, session_setSession_same]
    generalize W.arrive fd chunk = V at harrive hS₁
    rw [hS₁]
    dsimp only
    by_cases htype : S.type = .webSock
    · rw [htype]
      dsimp only
      by_cases hst : S.status = .connect
      · rw [if_neg (fun hc => hc.2 hst), Function.update_eq_self]
        exact harrive.handshake hS₁ hst
      · rw [if_pos ⟨rfl, hst⟩]
        exact harrive.loop hS₁ hst
    · rw [if_neg (fun hc => htype hc.1), Function.update_eq_self]
      split
      · exact absurd ‹_› htype
      · exact harrive.dispTcp E hd fd

end Reading

/-! ## Runs -/

namespace Tracked

end Tracked

end Worker
