import QService.Isolation
import QService.ShakeHands
import QService.WebSockReassembly

/-!
# A whole WebSocket connection

A WebSocket connection starts with a handshake request, and frames follow.
What is handed over should depend on the bytes and not on the chunks they come
in. Among the frames it does (`dispWebSock_readsUntil`): the loop of
`dispWebSock` handles every complete frame that is buffered. The handshake does
not go on to that loop. So frames that come with the end of the request are
looked at only when another chunk arrives, and when none does, never.

`delivered_eq_iff` says exactly when two ways of cutting one stream give the
same messages: the request is accepted before the last chunk in both or in
neither of them, or the frames have no message in them at all.
-/

/-- A session without its buffers. -/
def Session.bare (S : Session) : Session := { S with input := [], output := [] }

/-- The buffers do not matter to what else a session has. -/
theorem Session.eq_of_bare {S T : Session} (h : S.bare = T.bare) :
    S.type = T.type ∧ S.status = T.status ∧ S.conn = T.conn := by
  obtain ⟨h₁, h₂, -, -, -, h₆⟩ := Session.mk.inj h
  exact ⟨h₁, h₂, h₆⟩

namespace Worker

open WebSockParser

/-! ## Workers that differ in the buffers of one session -/

/-- The workers differ at most in the buffers of the session of `fd`. -/
structure Same (fd : QSock) (A B : Worker) : Prop where
  others : ∀ sd, sd ≠ fd → A.session sd = B.session sd
  own : (A.session fd).map Session.bare = (B.session fd).map Session.bare
  webSockPack : A.webSockPack = B.webSockPack
  count : A.count = B.count
  ciphers : A.ciphers = B.ciphers
  log : A.log = B.log

section Same

variable {fd : QSock} {A B : Worker}

theorem Same.refl (fd : QSock) (A : Worker) : Same fd A A :=
  ⟨fun _ _ => rfl, rfl, rfl, rfl, rfl, rfl⟩

theorem Same.none_iff (h : Same fd A B) : A.session fd = none ↔ B.session fd = none := by
  have hown := h.own
  cases hA : A.session fd <;> cases hB : B.session fd <;> simp_all

theorem Same.session_eq (h : Same fd A B) {S : Session} (hS : A.session fd = some S) :
    ∃ T, B.session fd = some T ∧ S.bare = T.bare := by
  have hown := h.own
  rw [hS] at hown
  cases hB : B.session fd with
  | none =>
    rw [hB] at hown
    cases hown
  | some T =>
    rw [hB] at hown
    exact ⟨T, rfl, Option.some.inj hown⟩

theorem setSession_self {S : Session} (h : A.session fd = some S) : A.setSession fd S = A := by
  rw [Worker.setSession, ← h, Function.update_eq_self]

/-- The session of `fd` is written on both sides. -/
theorem Same.setSession (h : Same fd A B) {S T : Session} (hST : S.bare = T.bare) :
    Same fd (A.setSession fd S) (B.setSession fd T) where
  others sd hsd := by
    rw [session_setSession_ne _ _ hsd, session_setSession_ne _ _ hsd]
    exact h.others sd hsd
  own := by
    rw [session_setSession_same, session_setSession_same]
    exact congrArg some hST
  webSockPack := h.webSockPack
  count := h.count
  ciphers := h.ciphers
  log := h.log

/-- What was read or written does not matter. -/
theorem Same.delBuffer (h : Same fd A B) (n m : ℕ) :
    Same fd (A.delBuffer fd n) (B.delBuffer fd m) := by
  cases hS : A.session fd with
  | none =>
    rw [Worker.delBuffer, Worker.delBuffer, hS, h.none_iff.mp hS]
    exact h
  | some S =>
    obtain ⟨T, hT, hST⟩ := h.session_eq hS
    rw [delBuffer_of_session hS, delBuffer_of_session hT]
    exact h.setSession hST

theorem Same.writeBuffer (h : Same fd A B) (b c : List UInt8) :
    Same fd (A.writeBuffer fd b) (B.writeBuffer fd c) := by
  cases hS : A.session fd with
  | none =>
    rw [Worker.writeBuffer, Worker.writeBuffer, hS, h.none_iff.mp hS]
    exact h
  | some S =>
    obtain ⟨T, hT, hST⟩ := h.session_eq hS
    rw [writeBuffer_of_session hS, writeBuffer_of_session hT]
    exact h.setSession hST

theorem Same.setPing (h : Same fd A B) : Same fd (A.setPing fd) (B.setPing fd) := by
  cases hS : A.session fd with
  | none =>
    rw [Worker.setPing, Worker.setPing, hS, h.none_iff.mp hS]
    exact h
  | some S =>
    obtain ⟨T, hT, hST⟩ := h.session_eq hS
    rw [setPing_of_session hS, setPing_of_session hT, h.count]
    refine h.setSession ?_
    exact congrArg (fun S : Session => { S with ping := B.count }) hST

theorem Same.emit (h : Same fd A B) (e : Event) : Same fd (A.emit e) (B.emit e) :=
  ⟨h.others, h.own, h.webSockPack, h.count, h.ciphers, congrArg (· ++ [e]) h.log⟩

theorem Same.countCipher (h : Same fd A B) : Same fd A.countCipher B.countCipher :=
  ⟨h.others, h.own, h.webSockPack, h.count, congrArg (· + 1) h.ciphers, h.log⟩

theorem Same.setPack (h : Same fd A B) (sock : QSock) (c : Option Continuation) :
    Same fd (A.setPack sock c) (B.setPack sock c) :=
  ⟨h.others, h.own, by rw [Worker.setPack, Worker.setPack, h.webSockPack], h.count, h.ciphers,
    h.log⟩

theorem Same.status (h : Same fd A B) : A.status fd = B.status fd := by
  cases hS : A.session fd with
  | none => rw [Worker.status, Worker.status, hS, h.none_iff.mp hS]
  | some S =>
    obtain ⟨T, hT, hST⟩ := h.session_eq hS
    rw [status_of_session hS, status_of_session hT]
    exact (Session.eq_of_bare hST).2.1

/-- A close does not look at the buffers. -/
theorem Same.closeLinkByID (h : Same fd A B) (id : QSock) :
    Same fd (A.closeLinkByID id) (B.closeLinkByID id) := by
  by_cases hinv : id = invalidSock
  · rw [Worker.closeLinkByID, Worker.closeLinkByID, if_pos hinv, if_pos hinv]
    exact h
  · have hclose : ∀ S T : Session, A.session id = some S → B.session id = some T →
        S.bare = T.bare → Same fd (A.closeLinkByID id) (B.closeLinkByID id) := by
      intro S T hS hT hST
      obtain ⟨htype, -, hconn⟩ := Session.eq_of_bare hST
      rw [closeLinkByID_of_session hinv hS, closeLinkByID_of_session hinv hT, hconn, htype, h.log]
      refine ⟨fun sd hsd => ?_, ?_, h.webSockPack, h.count, h.ciphers, rfl⟩
      · dsimp only
        rw [Function.update_apply, Function.update_apply, h.others sd hsd]
      · dsimp only
        rw [Function.update_apply, Function.update_apply]
        split_ifs
        · rfl
        · exact h.own
    by_cases hid : id = fd
    · subst hid
      cases hS : A.session id with
      | none =>
        rw [closeLinkByID_of_none hS, closeLinkByID_of_none (h.none_iff.mp hS)]
        exact h
      | some S =>
        obtain ⟨T, hT, hST⟩ := h.session_eq hS
        exact hclose S T hS hT hST
    · cases hS : A.session id with
      | none =>
        rw [closeLinkByID_of_none hS, closeLinkByID_of_none ((h.others id hid).symm.trans hS)]
        exact h
      | some S => exact hclose S S hS ((h.others id hid).symm.trans hS) rfl

theorem Same.closeAll (h : Same fd A B) (ids : List QSock) :
    Same fd (A.closeAll ids) (B.closeAll ids) := by
  induction ids generalizing A B with
  | nil => exact h
  | cons id ids ih => exact ih (h.closeLinkByID id)

theorem Same.onSockRead (h : Same fd A B) (hd : Handler) {S T : Session} (hST : S.conn = T.conn)
    (msg : List UInt8) : Same fd (A.onSockRead hd fd S msg) (B.onSockRead hd fd T msg) := by
  unfold Worker.onSockRead
  rw [h.log, hST]
  exact (h.emit _).closeAll _

/-- Rounds that end the same way in the same state. -/
def SameRound (fd : QSock) : LoopStep Worker → LoopStep Worker → Prop
  | .next A, .next B => Same fd A B
  | .stop A, .stop B => Same fd A B
  | _, _ => False

theorem decodeThen_same (E : Env) (h : Same fd A B) {S T : Session} (hST : S.conn = T.conn)
    (msg : List UInt8) {k l : Worker → List UInt8 → LoopStep Worker}
    (hkl : ∀ A B data, Same fd A B → SameRound fd (k A data) (l B data)) :
    SameRound fd (decodeThen E A S msg k) (decodeThen E B T msg l) := by
  unfold decodeThen
  rw [h.ciphers, hST]
  cases E.decodeMsg B.ciphers false msg with
  | none => exact h.countCipher
  | some data => exact hkl _ _ _ (h.countCipher.emit _)

/-- **A frame does the same to both.** -/
theorem dispFram_same (E : Env) (hd : Handler) (h : Same fd A B) {S T : Session}
    (hST : S.conn = T.conn) (fram : WebSockFram) (n m : ℕ) (msg : List UInt8) :
    SameRound fd (dispFram E hd fd S fram n msg A) (dispFram E hd fd T fram m msg B) := by
  have hdata : SameRound fd (dispData E hd fd S fram n msg A)
      (dispData E hd fd T fram m msg B) := by
    unfold dispData
    split_ifs
    · refine decodeThen_same E h hST msg fun A B data h => ?_
      have hread := h.onSockRead hd hST data
      dsimp only
      rw [hread.status]
      split_ifs
      · exact hread.setPack _ _
      · exact hread.delBuffer _ _
    · rw [h.webSockPack]
      cases B.webSockPack fd with
      | none => exact h.delBuffer _ _
      | some c =>
        refine decodeThen_same E h hST msg fun A B data h => ?_
        have hread := (h.setPack fd (some { c with data := c.data ++ data })).onSockRead hd hST
          (c.data ++ data)
        dsimp only
        rw [hread.status]
        split_ifs
        · exact hread.setPack _ _
        · exact (hread.delBuffer _ _).setPack _ _
    · refine decodeThen_same E h hST msg fun A B data h => ?_
      rw [addContinuation_eq, addContinuation_eq, h.webSockPack, hST]
      exact (h.setPack _ _).delBuffer _ _
  unfold dispFram
  split
  · exact (h.setPack _ _).closeLinkByID fd
  · exact ((h.writeBuffer _ _).setPing).delBuffer _ _
  · exact h.setPing.delBuffer _ _
  · exact hdata

end Same

/-! ## One frame -/

/-- The session of `fd` is that of the connection, linked, with these unread bytes. -/
def Linked (fd : QSock) (conn : ℕ) (buf : List UInt8) (W : Worker) : Prop :=
  ∃ S, W.session fd = some S ∧ S.conn = conn ∧ S.type = .webSock ∧ S.status = .linked
    ∧ S.input = buf

/-- The payload of the frame, if it is a data frame, is one that the ciphers accept. -/
def Decodes (E : Env) (f : Frame) : Prop :=
  f.opCode ≠ .close → f.opCode ≠ .ping → f.opCode ≠ .pong →
    ∀ n, (E.decodeMsg n false f.payload).isSome

/-- What a frame does to a worker, apart from the buffers. -/
def serve (E : Env) (h : Handler) (fd : QSock) (W : Worker) (f : Frame) : Worker :=
  match W.session fd with
  | none => W
  | some S => (dispFram E h fd S f.fram 0 f.payload W).state

section Frames

variable {E : Env} {h : Handler} {fd : QSock} {conn : ℕ} {buf : List UInt8} {W : Worker}

theorem Linked.delBuffer {front rest : List UInt8} {n : ℕ} (hW : Linked fd conn (front ++ rest) W)
    (hn : front.length = n) : Linked fd conn rest (W.delBuffer fd n) := by
  obtain ⟨S, hS, hconn, htype, hst, hin⟩ := hW
  rw [delBuffer_of_session hS]
  refine ⟨_, session_setSession_same _ _ _, hconn, htype, hst, ?_⟩
  show S.input.drop n = rest
  rw [hin, List.drop_left' hn]

theorem Linked.writeBuffer (hW : Linked fd conn buf W) (b : List UInt8) :
    Linked fd conn buf (W.writeBuffer fd b) := by
  obtain ⟨S, hS, hconn, htype, hst, hin⟩ := hW
  rw [writeBuffer_of_session hS]
  exact ⟨_, session_setSession_same _ _ _, hconn, htype, hst, hin⟩

theorem Linked.setPing (hW : Linked fd conn buf W) : Linked fd conn buf (W.setPing fd) := by
  obtain ⟨S, hS, hconn, htype, hst, hin⟩ := hW
  rw [setPing_of_session hS]
  exact ⟨_, session_setSession_same _ _ _, hconn, htype, hst, hin⟩

theorem Linked.of_session {W' : Worker} (hW : Linked fd conn buf W)
    (h : W'.session = W.session) : Linked fd conn buf W' := by
  obtain ⟨S, hS, hrest⟩ := hW
  exact ⟨S, h ▸ hS, hrest⟩

/-- A handler leaves the session alone, or closes it. -/
theorem Linked.onSockRead (hW : Linked fd conn buf W) (hd : Handler) (S : Session)
    (msg : List UInt8) :
    (W.onSockRead hd fd S msg).status fd ≠ .closed ∧ Linked fd conn buf (W.onSockRead hd fd S msg)
      ∨ (W.onSockRead hd fd S msg).status fd = .closed
        ∧ (W.onSockRead hd fd S msg).session fd = none := by
  obtain ⟨T, hT, hconn, htype, hst, hin⟩ := hW
  have hT' : (W.emit (.sockRead S.conn msg)).session fd = some T := hT
  unfold Worker.onSockRead
  rcases session_closeAll (W.emit (.sockRead S.conn msg)) (hd W.log fd msg) fd with heq | heq
  · rw [hT'] at heq
    refine .inl ⟨?_, T, heq, hconn, htype, hst, hin⟩
    rw [status_of_session heq, hst]
    decide
  · refine .inr ⟨?_, heq⟩
    rw [status, heq]

/-- How a round on a frame ends: with the frame dropped, or with the session gone. -/
def Dropped (fd : QSock) (conn : ℕ) (rest : List UInt8) : LoopStep Worker → Prop
  | .next W => Linked fd conn rest W
  | .stop W => W.session fd = none

/-- A data frame is decoded, and what follows does the rest. -/
theorem decodeThen_state {msg : List UInt8} (hdec : ∀ n, (E.decodeMsg n false msg).isSome)
    (W : Worker) (S : Session) (k : Worker → List UInt8 → LoopStep Worker) :
    ∃ data, decodeThen E W S msg k = k (W.countCipher.emit (.payload S.conn data)) data := by
  unfold decodeThen
  cases hd : E.decodeMsg W.ciphers false msg with
  | none =>
    have hsome := hdec W.ciphers
    rw [hd] at hsome
    cases hsome
  | some data => exact ⟨data, rfl⟩

theorem decodeThen_dropped {rest : List UInt8} (hW : Linked fd conn buf W) {msg : List UInt8}
    (hdec : ∀ n, (E.decodeMsg n false msg).isSome) (S : Session)
    {k : Worker → List UInt8 → LoopStep Worker}
    (hk : ∀ W data, Linked fd conn buf W → Dropped fd conn rest (k W data)) :
    Dropped fd conn rest (decodeThen E W S msg k) := by
  obtain ⟨data, heq⟩ := decodeThen_state hdec W S k
  rw [heq]
  exact hk _ _ (hW.of_session rfl)

/-- After a message the frame goes, unless the handler has closed the session. -/
theorem readThen_dropped {rest : List UInt8} (hW : Linked fd conn buf W) (S : Session)
    (msg : List UInt8) (post : Worker → Worker)
    (hpost : ∀ V, Linked fd conn buf V → Linked fd conn rest (post V)) :
    Dropped fd conn rest
      (if (W.onSockRead h fd S msg).status fd = .closed then
        .stop ((W.onSockRead h fd S msg).delContinuation fd)
      else .next (post (W.onSockRead h fd S msg))) := by
  rcases hW.onSockRead h S msg with ⟨hst, hlink⟩ | ⟨hst, hnone⟩
  · rw [if_neg hst]
    exact hpost _ hlink
  · rw [if_pos hst]
    exact hnone

/-- **A frame is dropped, or the session ends at it.** -/
theorem dispFram_dropped (hfd : fd ≠ invalidSock) {f : Frame} {rest : List UInt8}
    (hdec : Decodes E f) (S : Session)
    (hW : Linked fd conn (f.head ++ f.payload ++ rest) W) :
    Dropped fd conn rest (dispFram E h fd S f.fram f.bytes.length f.payload W) := by
  have hfront := length_front f
  have hdata : f.opCode ≠ .close → f.opCode ≠ .ping → f.opCode ≠ .pong →
      Dropped fd conn rest (dispData E h fd S f.fram f.bytes.length f.payload W) := by
    intro h₁ h₂ h₃
    have hpay := hdec h₁ h₂ h₃
    unfold dispData
    split_ifs
    · refine decodeThen_dropped hW hpay S fun V data hV => ?_
      exact readThen_dropped hV S data (·.delBuffer fd f.bytes.length)
        fun V hV => hV.delBuffer hfront
    · split
      · rename_i c _
        refine decodeThen_dropped hW hpay S fun V data hV => ?_
        have hset : Linked fd conn (f.head ++ f.payload ++ rest)
            (V.setPack fd (some { c with data := c.data ++ data })) := hV.of_session rfl
        exact readThen_dropped hset S (c.data ++ data)
          (fun V => (V.delBuffer fd f.bytes.length).setPack fd (some { c with data := [] }))
          fun V hV => (hV.delBuffer hfront).of_session rfl
      · exact hW.delBuffer hfront
    · refine decodeThen_dropped hW hpay S fun V data hV => ?_
      rw [addContinuation_eq]
      exact Linked.delBuffer (hV.of_session rfl) hfront
  unfold dispFram
  rw [f.fram_emOpCode]
  split
  · obtain ⟨T, hT, -⟩ := hW
    show ((W.delContinuation fd).closeLinkByID fd).session fd = none
    rw [closeLinkByID_of_session (W := W.delContinuation fd) hfd hT]
    exact Function.update_self _ _ _
  · exact (hW.writeBuffer _).setPing.delBuffer hfront
  · exact hW.setPing.delBuffer hfront
  · rename_i h₁ h₂ h₃
    exact hdata h₁ h₂ h₃

/-- **The loop of `dispWebSock` reads frames until the session ends**, whatever the
frames and the handler are. What is left apart from the buffers depends on the
frames alone. -/
theorem dispWebSock_readsUntil (E : Env) (h : Handler) (hfd : fd ≠ invalidSock) (conn : ℕ) :
    code.ReadsUntil (dispWebSockBody E h fd) (serve E h fd)
      (fun _ fs => ∀ f ∈ fs, f.bytes.length < E.width.modulus ∧ Decodes E f)
      (fun a buf W => Same fd W a ∧ Linked fd conn buf W)
      (fun a W => Same fd W a ∧ W.session fd = none) where
  frame a f fs rest W hv hR := by
    obtain ⟨hsame, S, hS, hconn, htype, hst, hin⟩ := hR
    obtain ⟨hlen, hdec⟩ := hv f List.mem_cons_self
    obtain ⟨T, hT, hST⟩ := hsame.session_eq hS
    rw [dispWebSockBody_frame hS hin hlen, serve, hT]
    dsimp only
    have hbuf : Same fd (W.setSession fd { S with input := f.head ++ f.payload ++ rest }) a := by
      have hset := hsame.setSession (S := { S with input := f.head ++ f.payload ++ rest })
        (T := T) hST
      rwa [setSession_self hT] at hset
    have hround := dispFram_same E h hbuf (Session.eq_of_bare hST).2.2 f.fram f.bytes.length 0
      f.payload
    have hlink : Linked fd conn (f.head ++ f.payload ++ rest)
        (W.setSession fd { S with input := f.head ++ f.payload ++ rest }) :=
      ⟨_, session_setSession_same _ _ _, hconn, htype, hst, rfl⟩
    have hdrop := dispFram_dropped (h := h) hfd hdec S hlink
    revert hround hdrop
    generalize dispFram E h fd S f.fram f.bytes.length f.payload _ = round
    generalize dispFram E h fd T f.fram 0 f.payload a = round'
    intro hround hdrop
    match round, round', hround with
    | .next V, .next b, hround => exact .inl ⟨V, rfl, hround, hdrop⟩
    | .stop V, .stop b, hround => exact .inr ⟨V, rfl, hround, hdrop⟩
  valid a f fs hv g hg := hv g (List.mem_cons_of_mem _ hg)
  part a todo rest W hv hp hR := by
    refine ⟨W, ?_, hR⟩
    obtain ⟨-, S, hS, -, -, -, hin⟩ := hR
    refine dispWebSockBody_of_wait hS ?_
    rw [hin]
    cases todo with
    | nil =>
      rw [show rest = [] from hp]
      rfl
    | cons f todo => exact f.parsePack_part E.width (hv f List.mem_cons_self).1 hp.1 hp.2
  ended a f W hover := by
    obtain ⟨hsame, hnone⟩ := hover
    rw [serve, hsame.none_iff.mp hnone]
    exact ⟨hsame, hnone⟩

end Frames

/-! ## The handshake and what follows -/

/-- The chunks of a connection arrive, and `workThreadReadCB` runs after each. -/
def feed (E : Env) (h : Handler) (fd : QSock) (W : Worker) (chunks : List (List UInt8)) : Worker :=
  chunks.foldl (fun W chunk => workThreadReadCB E h fd chunk W) W

/-- The handshake is accepted at a chunk that is not the last one. The first
argument is what has arrived before. -/
def Late (shake : List UInt8 → ShakeHands) : List UInt8 → List (List UInt8) → Prop
  | _, [] => False
  | buf, chunk :: chunks =>
    match shake (buf ++ chunk) with
    | .more => Late shake (buf ++ chunk) chunks
    | .refuse => False
    | .accept _ _ => chunks ≠ []

instance (shake : List UInt8 → ShakeHands) : ∀ buf chunks, Decidable (Late shake buf chunks)
  | _, [] => inferInstanceAs (Decidable False)
  | buf, chunk :: chunks =>
    have := instDecidableLate shake (buf ++ chunk) chunks
    match h : shake (buf ++ chunk) with
    | .more => decidable_of_iff (Late shake (buf ++ chunk) chunks) (by rw [Late, h])
    | .refuse => .isFalse (by rw [Late, h]; exact id)
    | .accept _ _ => decidable_of_iff (chunks ≠ []) (by rw [Late, h])

section Stream

variable {E : Env} {h : Handler} {fd : QSock} {conn : ℕ} {W : Worker}

/-- A read of a WebSocket session is `dispWebSock`. -/
theorem workThreadReadCB_webSock {S : Session} (hS : W.session fd = some S)
    (htype : S.type = .webSock) (chunk : List UInt8) :
    workThreadReadCB E h fd chunk W = dispWebSock E h fd (W.arrive fd chunk) := by
  unfold workThreadReadCB
  rw [hS]
  dsimp only
  rw [htype]

/-- **A linked session hands over the same for every way of cutting the stream**, as
long as it is read at all. -/
theorem feed_linked (hfd : fd ≠ invalidSock) {a : Worker} {buf : List UInt8}
    {chunks : List (List UInt8)} {fs : List Frame} (hsame : Same fd W a)
    (hlink : Linked fd conn buf W) (hne : chunks ≠ [])
    (hv : ∀ f ∈ fs, f.bytes.length < E.width.modulus ∧ Decodes E f)
    (hbytes : buf ++ chunks.flatten = fs.flatMap Frame.bytes) :
    Same fd (feed E h fd W chunks) (fs.foldl (serve E h fd) a) := by
  have hreads := dispWebSock_readsUntil E h hfd conn
  obtain ⟨done, todo, rest, hfs, hcut, hp, hend⟩ :=
    hreads.feed_chunks (fun W chunk => workThreadReadCB E h fd chunk W)
      (by
        rintro a buf W chunk ⟨hsame, S, hS, hconn, htype, hst, hin⟩
        have harr : W.arrive fd chunk = W.setSession fd { S with input := S.input ++ chunk } :=
          arrive_of_session hS chunk
        refine ⟨(W.arrive fd chunk).pending fd + 1, W.arrive fd chunk, ?_, ⟨?_, ?_⟩, ?_⟩
        · rw [harr, pending_of_session (session_setSession_same _ _ _), hin]
          exact Nat.lt_succ_self _
        · obtain ⟨T, hT, hST⟩ := hsame.session_eq hS
          have hset := hsame.setSession (S := { S with input := S.input ++ chunk }) (T := T) hST
          rw [harr]
          rwa [setSession_self hT] at hset
        · rw [harr]
          exact ⟨_, session_setSession_same _ _ _, hconn, htype, hst, congrArg (· ++ chunk) hin⟩
        · rw [workThreadReadCB_webSock hS htype, dispWebSock, harr, session_setSession_same]
          dsimp only
          rw [if_neg (by rw [hst]; decide)])
      (by
        rintro a W chunk ⟨hsame, hnone⟩
        have hskip : workThreadReadCB E h fd chunk W = W := by
          rw [workThreadReadCB, hnone]
        rw [hskip]
        exact ⟨hsame, hnone⟩)
      chunks a fs buf W hv (.inl hne) ⟨hsame, hlink⟩ (by rw [hbytes]; exact List.prefix_rfl)
  -- all the bytes are there, so all the frames are done
  have hwhole : code.encAll (done ++ todo) = code.encAll done ++ rest := by
    rw [← hfs, ← hcut, hbytes]
    rfl
  have hall := code.partial_complete hwhole hp
  rw [hall.1, List.append_nil] at hfs
  rw [← hfs] at hend
  rcases hend with ⟨hsame', -⟩ | ⟨hsame', -⟩
  · exact hsame'
  · exact hsame'

/-- **What a chunk does to a session in its handshake.** -/
theorem workThreadReadCB_connect {S : Session} (hS : W.session fd = some S)
    (htype : S.type = .webSock) (hst : S.status = .connect) (chunk : List UInt8) :
    workThreadReadCB E h fd chunk W
      = match E.shakeHands (S.input ++ chunk) with
        | .more => W.setSession fd { S with input := S.input ++ chunk }
        | .refuse => (W.setSession fd { S with input := S.input ++ chunk }).closeLinkByID fd
        | .accept response n => W.setSession fd
            { S with
              input := (S.input ++ chunk).drop n
              output := S.output ++ response
              status := .linked } := by
  have hset : ∀ T T' : Session, (W.setSession fd T).setSession fd T' = W.setSession fd T' := by
    intro T T'
    simp only [setSession, Function.update_idem]
  rw [workThreadReadCB_webSock hS htype, dispWebSock, arrive_of_session hS,
    session_setSession_same]
  dsimp only
  rw [if_pos hst]
  cases E.shakeHands (S.input ++ chunk) with
  | more => rfl
  | refuse => rfl
  | accept response n =>
    dsimp only
    rw [writeBuffer_of_session (session_setSession_same _ _ _), hset,
      setStatus_of_session (session_setSession_same _ _ _), hset,
      delBuffer_of_session (session_setSession_same _ _ _), hset]

/-- A session that is gone reads nothing. -/
theorem feed_of_none (hnone : W.session fd = none) (chunks : List (List UInt8)) :
    feed E h fd W chunks = W := by
  induction chunks with
  | nil => rfl
  | cons chunk chunks ih =>
    have hskip : workThreadReadCB E h fd chunk W = W := by
      rw [workThreadReadCB, hnone]
    rw [feed, List.foldl_cons, hskip]
    exact ih

/-- **A whole connection.** When the handshake is accepted before the last chunk,
the frames are served as if the session had been linked all along; otherwise
nothing is handed over. -/
theorem feed_connect {sha1 mem : List UInt8 → List UInt8} {H : List UInt8} {fs : List Frame}
    (hshake : E.shakeHands = shakeHands sha1 mem) (hfd : fd ≠ invalidSock)
    (hH : ValidRequest sha1 H)
    (hv : ∀ f ∈ fs, f.bytes.length < E.width.modulus ∧ Decodes E f)
    (chunks : List (List UInt8)) {W : Worker} {S : Session} (hS : W.session fd = some S)
    (htype : S.type = .webSock) (hst : S.status = .connect)
    (hbytes : S.input ++ chunks.flatten = H ++ fs.flatMap Frame.bytes) :
    (Late E.shakeHands S.input chunks →
        Same fd (feed E h fd W chunks)
          (fs.foldl (serve E h fd) (W.setSession fd { S.bare with status := .linked })))
      ∧ (¬ Late E.shakeHands S.input chunks →
        delivered S.conn (feed E h fd W chunks).log = delivered S.conn W.log) := by
  induction chunks generalizing W S with
  | nil => exact ⟨False.elim, fun _ => rfl⟩
  | cons chunk chunks ih =>
    rw [List.flatten_cons, ← List.append_assoc] at hbytes
    have hread := workThreadReadCB_connect (E := E) (h := h) hS htype hst chunk
    rw [feed, List.foldl_cons, hread, ← feed, Late]
    cases hres : E.shakeHands (S.input ++ chunk) with
    | more =>
      -- the handshake goes on with a longer buffer
      have hwait := ih (W := W.setSession fd { S with input := S.input ++ chunk })
        (session_setSession_same _ _ _) htype hst hbytes
      have hset : (W.setSession fd { S with input := S.input ++ chunk }).setSession fd
            { S.bare with status := .linked }
          = W.setSession fd { S.bare with status := .linked } := by
        simp only [setSession, Function.update_idem]
      exact ⟨fun hl => hset ▸ hwait.1 hl, hwait.2⟩
    | refuse =>
      refine ⟨False.elim, fun _ => ?_⟩
      have hgone : ((W.setSession fd { S with input := S.input ++ chunk }).closeLinkByID fd).session
          fd = none := by
        rw [closeLinkByID_of_session hfd (session_setSession_same _ _ _)]
        exact Function.update_self _ _ _
      dsimp only
      rw [feed_of_none hgone, delivered_closeLinkByID]
      rfl
    | accept response n =>
      rw [hshake] at hres
      obtain ⟨hn, hle⟩ := accept_eq_length hH hbytes hres
      refine ⟨fun hne => ?_, fun hnil => ?_⟩
      · refine feed_linked hfd ((Same.refl fd W).setSession rfl)
          ⟨_, session_setSession_same _ _ _, rfl, htype, rfl, rfl⟩ hne hv ?_
        rw [← List.drop_append_of_le_length hle, hbytes, hn, List.drop_left]
      · rw [not_not.mp hnil]
        rfl

/-! ## Which frames hand a message over -/

/-- The frame is not a control frame. -/
def isData (f : Frame) : Bool := f.opCode ≠ .close && f.opCode ≠ .ping && f.opCode ≠ .pong

/-- The frame completes a message, for whether there is a continuation entry. -/
def completes (entry : Bool) (f : Frame) : Bool :=
  isData f && f.fin && (f.opCode ≠ .continuation || entry)

/-- **Some message is complete before the connection is closed.** -/
def speaks : Bool → List Frame → Bool
  | _, [] => false
  | entry, f :: fs =>
    if f.opCode = .close then false
    else completes entry f || speaks (entry || (isData f && !f.fin)) fs

/-- A handler adds to the log, and hands nothing over itself. -/
theorem delivered_closeAll (W : Worker) (ids : List QSock) (conn : ℕ) :
    delivered conn (W.closeAll ids).log = delivered conn W.log := by
  induction ids generalizing W with
  | nil => rfl
  | cons id ids ih =>
    rw [closeAll, List.foldl_cons, ← closeAll, ih, delivered_closeLinkByID]

theorem delivered_onSockRead (W : Worker) (hd : Handler) {S : Session} (hS : S.conn = conn)
    (msg : List UInt8) :
    delivered conn (W.onSockRead hd fd S msg).log = delivered conn W.log ++ [msg] := by
  rw [Worker.onSockRead, delivered_closeAll, log_emit, delivered_append, hS, delivered_sockRead]

theorem delivered_decoded (W : Worker) (c : ℕ) (data : List UInt8) :
    delivered conn (W.countCipher.emit (.payload c data)).log = delivered conn W.log := by
  rw [log_emit, delivered_append]
  exact List.append_nil _

theorem log_delBuffer (W : Worker) (fd : QSock) (n : ℕ) : (W.delBuffer fd n).log = W.log := by
  unfold Worker.delBuffer
  split <;> rfl

theorem log_writeBuffer (W : Worker) (fd : QSock) (b : List UInt8) :
    (W.writeBuffer fd b).log = W.log := by
  unfold Worker.writeBuffer
  split <;> rfl

theorem log_setPing (W : Worker) (fd : QSock) : (W.setPing fd).log = W.log := by
  unfold Worker.setPing
  split <;> rfl

theorem webSockPack_writeBuffer (W : Worker) (fd : QSock) (b : List UInt8) :
    (W.writeBuffer fd b).webSockPack = W.webSockPack := by
  unfold Worker.writeBuffer
  split <;> rfl

theorem webSockPack_setPing (W : Worker) (fd : QSock) :
    (W.setPing fd).webSockPack = W.webSockPack := by
  unfold Worker.setPing
  split <;> rfl

/-- The session is linked, or it is gone. -/
def LinkedOrGone (fd : QSock) (conn : ℕ) (W : Worker) : Prop :=
  (∃ buf, Linked fd conn buf W) ∨ W.session fd = none

/-- What a frame does that completes no message: it hands nothing over, and at most
makes a continuation entry. -/
structure Mute (fd : QSock) (conn : ℕ) (entry : Bool) (W V : Worker) : Prop where
  delivered : delivered conn V.log = delivered conn W.log
  linked : ∃ buf, Linked fd conn buf V
  entry : (V.webSockPack fd).isSome = entry

/-- What a frame does that completes a message: it hands it over. -/
structure Spoken (fd : QSock) (conn : ℕ) (W V : Worker) : Prop where
  delivered : ∃ msg, delivered conn V.log = delivered conn W.log ++ [msg]
  linked : LinkedOrGone fd conn V

/-- A message is handed over, and the frame goes unless the handler has closed the
session. -/
theorem readThen_spoken {buf : List UInt8} {V : Worker} (hV : Linked fd conn buf V) {S : Session}
    (hS : S.conn = conn) (hlog : delivered conn V.log = delivered conn W.log)
    (msg : List UInt8) (post : Worker → Worker)
    (hpost : ∀ U, Linked fd conn buf U → Linked fd conn buf (post U) ∧ (post U).log = U.log) :
    Spoken fd conn W
      (if (V.onSockRead h fd S msg).status fd = .closed then
        LoopStep.stop ((V.onSockRead h fd S msg).delContinuation fd)
      else .next (post (V.onSockRead h fd S msg))).state := by
  have hread : delivered conn (V.onSockRead h fd S msg).log = delivered conn V.log ++ [msg] :=
    delivered_onSockRead V h hS msg
  rw [hlog] at hread
  rcases hV.onSockRead h S msg with ⟨hst, hlink⟩ | ⟨hst, hnone⟩
  · rw [if_neg hst]
    obtain ⟨hlink', hlog'⟩ := hpost _ hlink
    exact ⟨⟨msg, (congrArg _ hlog').trans hread⟩, .inl ⟨buf, hlink'⟩⟩
  · rw [if_pos hst]
    exact ⟨⟨msg, hread⟩, .inr hnone⟩

theorem Linked.drop_zero {buf : List UInt8} {V : Worker} (hV : Linked fd conn buf V) :
    Linked fd conn buf (V.delBuffer fd 0) := by
  have hnil : Linked fd conn ([] ++ buf) V := hV
  exact hnil.delBuffer rfl

section Data

variable {buf : List UInt8} {f : Frame} {S : Session}

/-- A fragment that is not the last one makes or extends the continuation entry. -/
theorem dispData_mute (hpay : ∀ n, (E.decodeMsg n false f.payload).isSome)
    (hW : Linked fd conn buf W) (hfin : f.fin = false) :
    Mute fd conn true W (dispData E h fd S f.fram 0 f.payload W).state := by
  have hcFin : f.fram.cFin ≠ 1 := by
    rw [f.fram_cFin, hfin]
    decide
  unfold dispData
  rw [if_neg (fun hc => hcFin hc.2), if_neg (fun hc => hcFin hc.1)]
  obtain ⟨data, hd⟩ := decodeThen_state hpay W S fun W data =>
    .next ((W.addContinuation fd S.conn data).delBuffer fd 0)
  rw [hd, addContinuation_eq]
  refine ⟨?_, ⟨buf, Linked.drop_zero (hW.of_session rfl)⟩, ?_⟩
  · show delivered conn (Worker.delBuffer _ fd 0).log = _
    rw [log_delBuffer]
    exact delivered_decoded W S.conn data
  · show ((Worker.delBuffer _ fd 0).webSockPack fd).isSome = true
    rw [webSockPack_delBuffer, webSockPack_setPack_same]
    rfl

/-- A whole message is handed over. -/
theorem dispData_spoken (hpay : ∀ n, (E.decodeMsg n false f.payload).isSome)
    (hW : Linked fd conn buf W) (hS : S.conn = conn) (hfin : f.fin = true)
    (hop : f.opCode ≠ .continuation) :
    Spoken fd conn W (dispData E h fd S f.fram 0 f.payload W).state := by
  have hcFin : f.fram.cFin = 1 := by rw [f.fram_cFin, if_pos hfin]
  unfold dispData
  rw [f.fram_emOpCode, if_pos ⟨hop, hcFin⟩]
  obtain ⟨data, hd⟩ := decodeThen_state hpay W S fun W data =>
    let W := W.onSockRead h fd S data
    if W.status fd = .closed then .stop (W.delContinuation fd) else .next (W.delBuffer fd 0)
  rw [hd]
  exact readThen_spoken (V := W.countCipher.emit (.payload S.conn data)) (hW.of_session rfl) hS
    (delivered_decoded W S.conn data) data (·.delBuffer fd 0)
    fun U hU => ⟨hU.drop_zero, log_delBuffer U fd 0⟩

/-- The loop takes the branch of the last fragment. -/
theorem dispData_of_last (hfin : f.fin = true) (hop : f.opCode = .continuation) :
    dispData E h fd S f.fram 0 f.payload W
      = match W.webSockPack fd with
        | some c =>
          decodeThen E W S f.payload fun W data =>
            let str := c.data ++ data
            let W := (W.setPack fd (some { c with data := str })).onSockRead h fd S str
            if W.status fd = .closed then .stop (W.delContinuation fd)
            else .next ((W.delBuffer fd 0).setPack fd (some { c with data := [] }))
        | none => .next (W.delBuffer fd 0) := by
  have hcFin : f.fram.cFin = 1 := by rw [f.fram_cFin, if_pos hfin]
  have hbranch : ¬ (f.fram.emOpCode ≠ .continuation ∧ f.fram.cFin = 1) := fun hc =>
    hc.1 (f.fram_emOpCode.trans hop)
  unfold dispData
  exact (if_neg hbranch).trans (if_pos ⟨hcFin, f.fram_emOpCode.trans hop⟩)

/-- The last fragment completes the message of the continuation entry. -/
theorem dispData_last_spoken (hpay : ∀ n, (E.decodeMsg n false f.payload).isSome)
    (hW : Linked fd conn buf W) (hS : S.conn = conn) (hfin : f.fin = true)
    (hop : f.opCode = .continuation) {c : Continuation} (hc : W.webSockPack fd = some c) :
    Spoken fd conn W (dispData E h fd S f.fram 0 f.payload W).state := by
  obtain ⟨data, hd⟩ := decodeThen_state hpay W S fun W data =>
    let str := c.data ++ data
    let W := (W.setPack fd (some { c with data := str })).onSockRead h fd S str
    if W.status fd = .closed then .stop (W.delContinuation fd)
    else .next ((W.delBuffer fd 0).setPack fd (some { c with data := [] }))
  rw [dispData_of_last hfin hop, hc]
  dsimp only at hd ⊢
  rw [hd]
  refine readThen_spoken (V := (W.countCipher.emit (.payload S.conn data)).setPack fd
    (some { c with data := c.data ++ data })) (hW.of_session rfl) hS
    (delivered_decoded W S.conn data) (c.data ++ data)
    (fun U => (U.delBuffer fd 0).setPack fd (some { c with data := [] })) fun U hU => ?_
  exact ⟨hU.drop_zero.of_session rfl, log_delBuffer U fd 0⟩

/-- Without an entry it is dropped. -/
theorem dispData_last_mute (hW : Linked fd conn buf W) (hfin : f.fin = true)
    (hop : f.opCode = .continuation) (hc : W.webSockPack fd = none) :
    Mute fd conn false W (dispData E h fd S f.fram 0 f.payload W).state := by
  rw [dispData_of_last hfin hop, hc]
  refine ⟨?_, ⟨buf, hW.drop_zero⟩, ?_⟩
  · show delivered conn (W.delBuffer fd 0).log = _
    rw [log_delBuffer]
  · show ((W.delBuffer fd 0).webSockPack fd).isSome = false
    rw [webSockPack_delBuffer, hc]
    rfl

/-- **What a data frame does**: it hands a message over, or nothing. -/
theorem dispData_cases (hpay : ∀ n, (E.decodeMsg n false f.payload).isSome)
    (hdata : isData f = true) (hW : Linked fd conn buf W) (hS : S.conn = conn) :
    completes (W.webSockPack fd).isSome f = true
        ∧ Spoken fd conn W (dispData E h fd S f.fram 0 f.payload W).state
      ∨ completes (W.webSockPack fd).isSome f = false
        ∧ Mute fd conn ((W.webSockPack fd).isSome || (isData f && !f.fin)) W
            (dispData E h fd S f.fram 0 f.payload W).state := by
  unfold completes
  rw [hdata]
  cases hfin : f.fin with
  | false =>
    refine .inr ⟨rfl, ?_⟩
    rw [show ((W.webSockPack fd).isSome || (true && !false)) = true from Bool.or_true _]
    exact dispData_mute hpay hW hfin
  | true =>
    by_cases hop : f.opCode = .continuation
    · cases hc : W.webSockPack fd with
      | none => exact .inr ⟨by rw [hop]; rfl, dispData_last_mute hW hfin hop hc⟩
      | some c => exact .inl ⟨by rw [hop]; rfl, dispData_last_spoken hpay hW hS hfin hop hc⟩
    · exact .inl ⟨by simp [hop], dispData_spoken hpay hW hS hfin hop⟩

/-- A control frame completes no message and leaves the continuation entry. -/
theorem mute_control {V : Worker} (hd : isData f = false) (hV : Linked fd conn buf V)
    (hlog : V.log = W.log) (hpack : V.webSockPack = W.webSockPack) :
    completes (W.webSockPack fd).isSome f = false
      ∧ Mute fd conn ((W.webSockPack fd).isSome || (isData f && !f.fin)) W (V.delBuffer fd 0) := by
  rw [completes, hd]
  refine ⟨rfl, ?_, ⟨buf, hV.drop_zero⟩, ?_⟩
  · rw [log_delBuffer, hlog]
  · rw [webSockPack_delBuffer, hpack]
    exact (Bool.or_false _).symm

/-- **What a frame does**: a CLOSE ends the session, a frame that completes a message
hands it over, and any other frame hands nothing over. -/
theorem serve_cases (hfd : fd ≠ invalidSock) (hdec : Decodes E f) (hW : Linked fd conn buf W) :
    f.opCode = .close ∧ (serve E h fd W f).session fd = none
        ∧ delivered conn (serve E h fd W f).log = delivered conn W.log
      ∨ f.opCode ≠ .close ∧ completes (W.webSockPack fd).isSome f = true
        ∧ Spoken fd conn W (serve E h fd W f)
      ∨ f.opCode ≠ .close ∧ completes (W.webSockPack fd).isSome f = false
        ∧ Mute fd conn ((W.webSockPack fd).isSome || (isData f && !f.fin)) W
            (serve E h fd W f) := by
  obtain ⟨S, hS, hconn, -⟩ := id hW
  have hserve : serve E h fd W f = (dispFram E h fd S f.fram 0 f.payload W).state := by
    rw [serve, hS]
  rw [hserve]
  unfold dispFram
  rw [f.fram_emOpCode]
  split
  · rename_i hop
    refine .inl ⟨hop, ?_, ?_⟩
    · show ((W.delContinuation fd).closeLinkByID fd).session fd = none
      rw [closeLinkByID_of_session (W := W.delContinuation fd) hfd hS]
      exact Function.update_self _ _ _
    · show delivered conn ((W.delContinuation fd).closeLinkByID fd).log = _
      rw [delivered_closeLinkByID]
      rfl
  · rename_i hop
    have hd : isData f = false := by rw [isData, hop]; rfl
    refine .inr (.inr ⟨by rw [hop]; nofun, mute_control hd (hW.writeBuffer _).setPing ?_ ?_⟩)
    · rw [log_setPing, log_writeBuffer]
    · rw [webSockPack_setPing, webSockPack_writeBuffer]
  · rename_i hop
    have hd : isData f = false := by rw [isData, hop]; rfl
    exact .inr (.inr ⟨by rw [hop]; nofun, mute_control hd hW.setPing (log_setPing ..)
      (webSockPack_setPing ..)⟩)
  · rename_i h₁ h₂ h₃
    have hdata : isData f = true := by
      have hne : f.opCode ≠ .close ∧ f.opCode ≠ .ping ∧ f.opCode ≠ .pong := ⟨h₁, h₂, h₃⟩
      simp [isData, hne]
    rcases dispData_cases (h := h) (hdec h₁ h₂ h₃) hdata hW hconn with ⟨hc, hs⟩ | ⟨hc, hm⟩
    · exact .inr (.inl ⟨h₁, hc, hs⟩)
    · exact .inr (.inr ⟨h₁, hc, hm⟩)

end Data

/-- Frames only add to what is handed over. -/
theorem length_delivered_le (hfd : fd ≠ invalidSock) (fs : List Frame)
    (hdec : ∀ f ∈ fs, Decodes E f) {W : Worker} (hW : LinkedOrGone fd conn W) :
    (delivered conn W.log).length
      ≤ (delivered conn (fs.foldl (serve E h fd) W).log).length := by
  induction fs generalizing W with
  | nil => exact le_rfl
  | cons f fs ih =>
    have hrest := fun g hg => hdec g (List.mem_cons_of_mem f hg)
    rw [List.foldl_cons]
    rcases hW with ⟨buf, hW⟩ | hW
    · rcases serve_cases (h := h) hfd (hdec f List.mem_cons_self) hW with
        ⟨-, hnone, hlog⟩ | ⟨-, -, ⟨⟨msg, hlog⟩, hlink⟩⟩ | ⟨-, -, ⟨hlog, hlink, -⟩⟩
      · exact hlog ▸ ih hrest (.inr hnone)
      · refine le_trans ?_ (ih hrest hlink)
        rw [hlog, List.length_append]
        exact Nat.le_add_right _ _
      · exact hlog ▸ ih hrest (.inl hlink)
    · have hskip : serve E h fd W f = W := by rw [serve, hW]
      rw [hskip]
      exact ih hrest (.inr hW)

theorem foldl_serve_of_none (hnone : W.session fd = none) (fs : List Frame) :
    fs.foldl (serve E h fd) W = W := by
  induction fs with
  | nil => rfl
  | cons f fs ih =>
    have hskip : serve E h fd W f = W := by rw [serve, hnone]
    rw [List.foldl_cons, hskip, ih]

/-- **The frames hand something over exactly when they speak.** -/
theorem delivered_serve_iff (hfd : fd ≠ invalidSock) (fs : List Frame)
    (hdec : ∀ f ∈ fs, Decodes E f) {W : Worker} (hW : ∃ buf, Linked fd conn buf W) :
    delivered conn (fs.foldl (serve E h fd) W).log = delivered conn W.log
      ↔ speaks (W.webSockPack fd).isSome fs = false := by
  induction fs generalizing W with
  | nil => exact iff_of_true rfl rfl
  | cons f fs ih =>
    obtain ⟨buf, hW⟩ := hW
    have hrest := fun g hg => hdec g (List.mem_cons_of_mem f hg)
    rw [List.foldl_cons, speaks]
    rcases serve_cases (h := h) hfd (hdec f List.mem_cons_self) hW with
      ⟨hop, hnone, hlog⟩ | ⟨hop, hc, ⟨⟨msg, hlog⟩, hlink⟩⟩ | ⟨hop, hc, ⟨hlog, hlink, hentry⟩⟩
    · rw [if_pos hop, foldl_serve_of_none hnone]
      exact iff_of_true hlog rfl
    · -- one message more than before, and none is taken back
      rw [if_neg hop, hc, Bool.true_or]
      refine iff_of_false (fun heq => ?_) nofun
      have hle := length_delivered_le (h := h) hfd fs hrest hlink
      rw [heq, hlog, List.length_append, List.length_singleton] at hle
      exact absurd hle (Nat.not_succ_le_self _)
    · rw [if_neg hop, hc, Bool.false_or, ← hentry, ← hlog]
      exact ih hrest hlink

end Stream

/-- **When two ways of cutting one stream give the same messages.** The stream is a
valid request and frames, the session is new, and the handler and the memory
behind the request are any. The messages agree exactly when the request is
accepted before the last chunk in both or in neither way, or the frames
complete no message before a CLOSE. -/
theorem delivered_eq_iff (E : Env) (h : Handler) (sha1 mem₁ mem₂ : List UInt8 → List UInt8)
    {fd : QSock} (hfd : fd ≠ invalidSock) {W : Worker} {S : Session}
    (hS : W.session fd = some S) (htype : S.type = .webSock) (hst : S.status = .connect)
    (hinput : S.input = []) {H : List UInt8} (hH : ValidRequest sha1 H) (fs : List Frame)
    (hlen : ∀ f ∈ fs, f.bytes.length < E.width.modulus) (hdec : ∀ f ∈ fs, Decodes E f)
    (cs₁ cs₂ : List (List UInt8)) (h₁ : cs₁.flatten = H ++ fs.flatMap Frame.bytes)
    (h₂ : cs₂.flatten = H ++ fs.flatMap Frame.bytes) :
    let E₁ := { E with shakeHands := shakeHands sha1 mem₁ }
    let E₂ := { E with shakeHands := shakeHands sha1 mem₂ }
    delivered S.conn (feed E₁ h fd W cs₁).log = delivered S.conn (feed E₂ h fd W cs₂).log
      ↔ speaks (W.webSockPack fd).isSome fs = false
        ∨ (Late E₁.shakeHands [] cs₁ ↔ Late E₂.shakeHands [] cs₂) := by
  intro E₁ E₂
  have hv : ∀ f ∈ fs, f.bytes.length < E.width.modulus ∧ Decodes E f :=
    fun f hf => ⟨hlen f hf, hdec f hf⟩
  set a := W.setSession fd { S.bare with status := .linked }
  have hlink : Linked fd S.conn [] a := ⟨_, session_setSession_same _ _ _, rfl, htype, rfl, rfl⟩
  have hspeaks := delivered_serve_iff (E := E) (h := h) hfd fs hdec ⟨[], hlink⟩
  obtain ⟨hlate₁, hnot₁⟩ := feed_connect (E := E₁) (h := h) rfl hfd hH hv cs₁ hS htype hst
    (by rw [hinput]; exact h₁)
  obtain ⟨hlate₂, hnot₂⟩ := feed_connect (E := E₂) (h := h) rfl hfd hH hv cs₂ hS htype hst
    (by rw [hinput]; exact h₂)
  rw [hinput] at hlate₁ hnot₁ hlate₂ hnot₂
  by_cases hl₁ : Late E₁.shakeHands [] cs₁ <;> by_cases hl₂ : Late E₂.shakeHands [] cs₂
  · refine iff_of_true ?_ (.inr (iff_of_true hl₁ hl₂))
    rw [(hlate₁ hl₁).log, (hlate₂ hl₂).log]
    rfl
  · rw [(hlate₁ hl₁).log, hnot₂ hl₂]
    refine Iff.trans hspeaks ⟨.inl, ?_⟩
    rintro (hs | hs)
    · exact hs
    · exact absurd (hs.mp hl₁) hl₂
  · rw [(hlate₂ hl₂).log, hnot₁ hl₁]
    refine Iff.trans eq_comm (Iff.trans hspeaks ⟨.inl, ?_⟩)
    rintro (hs | hs)
    · exact hs
    · exact absurd (hs.mpr hl₂) hl₁
  · refine iff_of_true ?_ (.inr (iff_of_false hl₁ hl₂))
    rw [hnot₁ hl₁, hnot₂ hl₂]

/-- The SHA-1 digest for the key of `request`. -/
def requestSha1 (_ : List UInt8) : List UInt8 :=
  [0xb3, 0x7a, 0x4f, 0x2c, 0xc0, 0x62, 0x4f, 0x16, 0x90, 0xf6, 0x46, 0x06, 0xcf, 0x38, 0x59, 0x45,
    0xb2, 0xbe, 0xc4, 0xea]

/-- What came with the request lies behind it, and then a NUL. -/
def requestMem (buf : List UInt8) : List UInt8 := buf.drop request.length ++ [0]

/-- The worker of the examples: no ciphers, and the handshake of `request`. -/
def requestEnv : Env :=
  { Env.plain .bits64 (fun _ => .more) with shakeHands := shakeHands requestSha1 requestMem }

/-- A frame with the text `hi`. -/
def hiFrame : Frame :=
  ⟨true, .textFrame, WebSockOpCode.valid_textFrame, [1, 2, 3, 4], rfl, [104, 105]⟩

/-- A new WebSocket session on socket 5. -/
def newWebSock : Worker := start.setSession 5 ⟨.webSock, .connect, 0, [], [], 0⟩

theorem validRequest_request : ValidRequest requestSha1 request :=
  ⟨createHandshakeResponse (ascii "s3pPLMBiTxaQ9kYGzzhZRbK+xOo="), by decide +kernel⟩

/-- Two pieces of a text are the text. -/
theorem flatten_take_drop (s t : List UInt8) (n : ℕ) :
    [s.take n, s.drop n, t].flatten = s ++ t := by
  rw [List.flatten_cons, List.flatten_cons, ← List.append_assoc, List.take_append_drop,
    List.flatten_singleton]

/-- Two pieces of a text after another are both texts. -/
theorem flatten_append_take_drop (s t : List UInt8) (n : ℕ) :
    [s ++ t.take n, t.drop n].flatten = s ++ t := by
  rw [List.flatten_cons, List.flatten_singleton, List.append_assoc, List.take_append_drop]

/-- The request in two pieces or in one, and the frame after it: the text is handed
over both times. -/
theorem delivered_eq_request :
    delivered 0 (feed requestEnv (fun _ _ _ => []) 5 newWebSock
        [request.take 20, request.drop 20, hiFrame.bytes]).log
      = delivered 0 (feed requestEnv (fun _ _ _ => []) 5 newWebSock
        [request ++ hiFrame.bytes.take 3, hiFrame.bytes.drop 3]).log :=
  (@delivered_eq_iff (.plain .bits64 fun _ => .more) (fun _ _ _ => []) requestSha1 requestMem
    requestMem 5 (by decide) newWebSock ⟨.webSock, .connect, 0, [], [], 0⟩
    (session_setSession_same _ _ _) rfl rfl rfl request validRequest_request [hiFrame]
    (by decide +kernel) (fun f _ _ _ _ n => by
      rw [Env.decodeMsg_of_identity fun _ _ _ => rfl]
      rfl)
    [request.take 20, request.drop 20, hiFrame.bytes]
    [request ++ hiFrame.bytes.take 3, hiFrame.bytes.drop 3]
    ((flatten_take_drop _ _ _).trans (by rw [List.flatMap_singleton]))
    ((flatten_append_take_drop _ _ _).trans (by rw [List.flatMap_singleton]))).mpr
      (.inr (by decide +kernel))

/-- **A text that comes with the request is not handed over**, and one that comes
after it is. -/
theorem delivered_ne_request :
    ValidRequest requestSha1 request
      ∧ delivered 0 (feed requestEnv (fun _ _ _ => []) 5 newWebSock
        [request ++ hiFrame.bytes]).log = []
      ∧ delivered 0 (feed requestEnv (fun _ _ _ => []) 5 newWebSock
        [request, hiFrame.bytes]).log = [[104, 105]] :=
  ⟨validRequest_request, by decide +kernel, by decide +kernel⟩

end Worker
