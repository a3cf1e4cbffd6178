import QService.WebSockDispatch

/-!
# Reassembly of WebSocket messages

`Assembly` is what the protocol says a sequence of frames means: an
unfragmented data frame is a message, a data frame without FIN opens one that
continuation frames extend and the one with FIN completes, and PING and PONG
may stand anywhere. `WellFormed` says which sequences are in that form.

`dispWebSock_chunks` says that the dispatch loop computes exactly this, for
every well-formed stream and every way of cutting its bytes. The relation it
carries through the run (`WebSockAt`) has one subtle clause, about the
continuation entry: between messages it is absent or empty, because the code
empties it after a message and does not erase it, and during a message it
holds what the assembly holds.
-/

namespace WebSockParser

/-- How far a client's frames have been put together: the message in
progress, the complete messages, and the number of PING frames. -/
structure Assembly where
  open? : Option (List UInt8)
  msgs : List (List UInt8)
  pings : ℕ

namespace Assembly

/-- Before the first frame. -/
def start : Assembly := ⟨none, [], 0⟩

/-- A fragment or a whole message arrives; `fin` says that it is the last. -/
def data (a : Assembly) (fin : Bool) (payload : List UInt8) : Assembly :=
  if fin then { a with open? := none, msgs := a.msgs ++ [a.open?.getD [] ++ payload] }
  else { a with open? := some (a.open?.getD [] ++ payload) }

/-- A frame arrives. -/
def frame (a : Assembly) (f : Frame) : Assembly :=
  match f.opCode with
  | .ping => { a with pings := a.pings + 1 }
  | .pong => a
  | _ => a.data f.fin f.payload

/-- The frames are in the form the protocol asks for, after a state in which a
message is in progress or not: data frames only between messages, continuation
frames only inside one, control frames anywhere. -/
def WellFormed : Bool → List Frame → Prop
  | _, [] => True
  | inside, f :: fs =>
    match f.opCode with
    | .ping => WellFormed inside fs
    | .pong => WellFormed inside fs
    | .continuation => inside = true ∧ WellFormed (!f.fin) fs
    | .textFrame => inside = false ∧ WellFormed (!f.fin) fs
    | .binaryFrame => inside = false ∧ WellFormed (!f.fin) fs
    | _ => False

theorem isSome_data (a : Assembly) (fin : Bool) (payload : List UInt8) :
    (a.data fin payload).open?.isSome = !fin := by
  cases fin <;> rfl

/-- What may follow a frame, in the state it leads to. -/
theorem wellFormed_frame {a : Assembly} {f : Frame} {fs : List Frame}
    (h : WellFormed a.open?.isSome (f :: fs)) :
    WellFormed (a.frame f).open?.isSome fs := by
  unfold WellFormed at h
  unfold frame
  cases hop : f.opCode with
  | ping => rw [hop] at h; exact h
  | pong => rw [hop] at h; exact h
  | continuation => rw [hop] at h; rw [isSome_data]; exact h.2
  | textFrame => rw [hop] at h; rw [isSome_data]; exact h.2
  | binaryFrame => rw [hop] at h; rw [isSome_data]; exact h.2
  | close => rw [hop] at h; exact h.elim
  | other c => rw [hop] at h; exact h.elim

end Assembly

end WebSockParser

namespace Worker

open WebSockParser

/-- The bytes of `n` PONG answers. -/
def pongs (n : ℕ) : List UInt8 := (List.replicate n (createHead true .pong 0)).flatten

theorem pongs_succ (n : ℕ) : pongs (n + 1) = pongs n ++ createHead true .pong 0 := by
  rw [pongs, List.replicate_succ', List.flatten_append, List.flatten_singleton, pongs]

/-- The continuation entry of a socket fits the message in progress: it holds
it, and between messages it is absent or empty. -/
def PackFits (open? : Option (List UInt8)) (c : Option Continuation) : Prop :=
  match c with
  | none => open? = none
  | some c => c.data = open?.getD []

section Chunks

variable (E : Env) (h : Handler) (fd : QSock) (conn : ℕ) (before : List (List UInt8))
  (out : List UInt8)

/-- The session of `fd` is linked, has the unread bytes `buf`, and what it has
handed over, answered and kept since `before` and `out` is the assembly `a`. -/
def WebSockAt (a : Assembly) (buf : List UInt8) (W : Worker) : Prop :=
  ∃ S, W.session fd = some S ∧ S.conn = conn ∧ S.status = .linked ∧ S.input = buf
    ∧ S.output = out ++ pongs a.pings
    ∧ delivered conn W.log = before ++ a.msgs ∧ PackFits a.open? (W.webSockPack fd)

variable {E h fd conn before out}

/-- **A round on a complete frame** unmasks its payload and goes on with it. -/
theorem dispWebSockBody_frame {S : Session} {f : Frame} {rest : List UInt8} {W : Worker}
    (hS : W.session fd = some S) (hinput : S.input = f.bytes ++ rest)
    (hlen : f.bytes.length < E.width.modulus) :
    dispWebSockBody E h fd W
      = dispFram E h fd S f.fram f.bytes.length f.payload
          (W.setSession fd { S with input := f.head ++ f.payload ++ rest }) := by
  refine dispWebSockBody_of_pack hS ?_
  rw [hinput, f.parsePack_frame E.width rest hlen]

/-! ### What the operations of the switch do to the relation -/

section Ops

variable {a : Assembly} {buf : List UInt8} {W : Worker}

theorem WebSockAt.delBuffer {rest front : List UInt8} {n : ℕ}
    (hW : WebSockAt fd conn before out a (front ++ rest) W) (hn : front.length = n) :
    WebSockAt fd conn before out a rest (W.delBuffer fd n) := by
  obtain ⟨S, hS, hconn, hst, hin, hout, hlog, hfit⟩ := hW
  rw [delBuffer_of_session hS]
  refine ⟨_, session_setSession_same _ _ _, hconn, hst, ?_, hout, hlog, hfit⟩
  show S.input.drop n = rest
  rw [hin, List.drop_left' hn]

theorem WebSockAt.setPing (hW : WebSockAt fd conn before out a buf W) :
    WebSockAt fd conn before out a buf (W.setPing fd) := by
  obtain ⟨S, hS, hconn, hst, hin, hout, hlog, hfit⟩ := hW
  rw [setPing_of_session hS]
  exact ⟨_, session_setSession_same _ _ _, hconn, hst, hin, hout, hlog, hfit⟩

/-- The answer to a PING. -/
theorem WebSockAt.writePong (hW : WebSockAt fd conn before out a buf W) :
    WebSockAt fd conn before out { a with pings := a.pings + 1 } buf
      (W.writeBuffer fd (createHead true .pong 0)) := by
  obtain ⟨S, hS, hconn, hst, hin, hout, hlog, hfit⟩ := hW
  rw [writeBuffer_of_session hS]
  refine ⟨_, session_setSession_same _ _ _, hconn, hst, hin, ?_, hlog, hfit⟩
  show S.output ++ _ = _
  rw [hout, List.append_assoc, ← pongs_succ]

/-- A payload is decoded. -/
theorem WebSockAt.decoded (hW : WebSockAt fd conn before out a buf W) (c : ℕ)
    (data : List UInt8) :
    WebSockAt fd conn before out a buf (W.countCipher.emit (.payload c data)) := by
  obtain ⟨S, hS, hconn, hst, hin, hout, hlog, hfit⟩ := hW
  refine ⟨S, hS, hconn, hst, hin, hout, ?_, hfit⟩
  show delivered conn (W.log ++ [_]) = _
  rw [delivered_append, hlog]
  exact List.append_nil _

/-- A message is handed over. -/
theorem WebSockAt.onSockRead (hW : WebSockAt fd conn before out a buf W)
    (hkeep : ∀ log s msg, fd ∉ h log s msg) {T : Session} (hT : T.conn = conn)
    (msg : List UInt8) :
    WebSockAt fd conn before out { a with msgs := a.msgs ++ [msg] } buf
      (W.onSockRead h fd T msg) := by
  obtain ⟨S, hS, hconn, hst, hin, hout, hlog, hfit⟩ := hW
  obtain ⟨h₁, h₂, h₃⟩ := W.onSockRead_keeps T msg hkeep
  rw [hT, hlog] at h₃
  refine ⟨S, h₁.trans hS, hconn, hst, hin, hout, ?_, ?_⟩
  · rw [h₃, List.append_assoc]
  · rw [h₂]
    exact hfit

/-- The continuation entry is written. -/
theorem WebSockAt.setPack (hW : WebSockAt fd conn before out a buf W)
    {m : Option (List UInt8)} {c : Option Continuation} (hfit : PackFits m c) :
    WebSockAt fd conn before out { a with open? := m } buf (W.setPack fd c) := by
  obtain ⟨S, hS, hconn, hst, hin, hout, hlog, -⟩ := hW
  refine ⟨S, hS, hconn, hst, hin, hout, hlog, ?_⟩
  rw [webSockPack_setPack_same]
  exact hfit

/-- The session is open. -/
theorem WebSockAt.status_ne_closed (hW : WebSockAt fd conn before out a buf W) :
    W.status fd ≠ .closed := by
  obtain ⟨S, hS, -, hst, -⟩ := hW
  rw [status_of_session hS, hst]
  decide

theorem WebSockAt.packFits (hW : WebSockAt fd conn before out a buf W) :
    PackFits a.open? (W.webSockPack fd) := by
  obtain ⟨-, -, -, -, -, -, -, hfit⟩ := hW
  exact hfit

end Ops

theorem decodeThen_of_identity (hdec : ∀ n b msg, E.decode n b msg = some msg) (W : Worker)
    (S : Session) (msg : List UInt8) (k : Worker → List UInt8 → LoopStep Worker) :
    decodeThen E W S msg k = k (W.countCipher.emit (.payload S.conn msg)) msg := by
  rw [decodeThen, E.decodeMsg_of_identity hdec]

/-! ### The switch on the opcode -/

section Switch

variable {a : Assembly} {S : Session} {f : Frame} {rest : List UInt8} {W : Worker}

theorem length_front (f : Frame) : (f.head ++ f.payload).length = f.bytes.length := by
  rw [List.length_append, f.length_bytes]

/-- A PING is answered, and nothing else happens. -/
theorem dispFram_ping (hop : f.opCode = .ping)
    (hW : WebSockAt fd conn before out a (f.head ++ f.payload ++ rest) W) :
    ∃ W', dispFram E h fd S f.fram f.bytes.length f.payload W = .next W'
      ∧ WebSockAt fd conn before out { a with pings := a.pings + 1 } rest W' := by
  refine ⟨_, ?_, hW.writePong.setPing.delBuffer (length_front f)⟩
  unfold dispFram
  rw [f.fram_emOpCode, hop]

/-- A PONG changes nothing. -/
theorem dispFram_pong (hop : f.opCode = .pong)
    (hW : WebSockAt fd conn before out a (f.head ++ f.payload ++ rest) W) :
    ∃ W', dispFram E h fd S f.fram f.bytes.length f.payload W = .next W'
      ∧ WebSockAt fd conn before out a rest W' := by
  refine ⟨_, ?_, hW.setPing.delBuffer (length_front f)⟩
  unfold dispFram
  rw [f.fram_emOpCode, hop]

/-- A fragment that is not the last extends the message in progress. -/
theorem dispData_fragment (hdec : ∀ n b msg, E.decode n b msg = some msg)
    (hfin : f.fin = false)
    (hW : WebSockAt fd conn before out a (f.head ++ f.payload ++ rest) W) :
    ∃ W', dispData E h fd S f.fram f.bytes.length f.payload W = .next W'
      ∧ WebSockAt fd conn before out (a.data f.fin f.payload) rest W' := by
  have hcFin : f.fram.cFin ≠ 1 := by
    rw [f.fram_cFin, hfin]
    decide
  unfold dispData
  rw [if_neg (fun hc => hcFin hc.2), if_neg (fun hc => hcFin hc.1),
    decodeThen_of_identity hdec, addContinuation_eq]
  have hdata : (W.webSockPack fd).elim [] Continuation.data = a.open?.getD [] := by
    have hfit := hW.packFits
    cases hc : W.webSockPack fd with
    | none =>
      rw [hc] at hfit
      rw [show a.open? = none from hfit]
      rfl
    | some c =>
      rw [hc] at hfit
      exact hfit
  rw [Assembly.data, hfin, if_neg Bool.false_ne_true]
  refine ⟨_, rfl, ((hW.decoded S.conn f.payload).setPack ?_).delBuffer (length_front f)⟩
  exact congrArg (· ++ f.payload) hdata

/-- A whole message is handed over. -/
theorem dispData_whole (hdec : ∀ n b msg, E.decode n b msg = some msg)
    (hkeep : ∀ log s msg, fd ∉ h log s msg) (hconn : S.conn = conn)
    (hop : f.opCode ≠ .continuation) (hfin : f.fin = true) (hopen : a.open? = none)
    (hW : WebSockAt fd conn before out a (f.head ++ f.payload ++ rest) W) :
    ∃ W', dispData E h fd S f.fram f.bytes.length f.payload W = .next W'
      ∧ WebSockAt fd conn before out (a.data f.fin f.payload) rest W' := by
  have hcFin : f.fram.cFin = 1 := by rw [f.fram_cFin, hfin, if_pos rfl]
  have hread := (hW.decoded S.conn f.payload).onSockRead hkeep hconn f.payload
  unfold dispData
  rw [f.fram_emOpCode, if_pos ⟨hop, hcFin⟩, decodeThen_of_identity hdec]
  dsimp only
  rw [if_neg hread.status_ne_closed]
  refine ⟨_, rfl, ?_⟩
  have hmsg : a.open?.getD [] ++ f.payload = f.payload := by rw [hopen]; rfl
  rw [Assembly.data, if_pos hfin, hmsg, ← hopen]
  exact hread.delBuffer (length_front f)

/-- The last fragment completes the message in progress, which is handed over. -/
theorem dispData_last (hdec : ∀ n b msg, E.decode n b msg = some msg)
    (hkeep : ∀ log s msg, fd ∉ h log s msg) (hconn : S.conn = conn)
    (hop : f.opCode = .continuation) (hfin : f.fin = true) (hopen : a.open?.isSome)
    (hW : WebSockAt fd conn before out a (f.head ++ f.payload ++ rest) W) :
    ∃ W', dispData E h fd S f.fram f.bytes.length f.payload W = .next W'
      ∧ WebSockAt fd conn before out (a.data f.fin f.payload) rest W' := by
  have hcFin : f.fram.cFin = 1 := by rw [f.fram_cFin, hfin, if_pos rfl]
  unfold dispData
  rw [f.fram_emOpCode, if_neg (fun hc => hc.1 hop), if_pos ⟨hcFin, hop⟩]
  have hfit := hW.packFits
  cases hc : W.webSockPack fd with
  | none =>
    rw [hc] at hfit
    rw [show a.open? = none from hfit] at hopen
    cases hopen
  | some c =>
    rw [hc] at hfit
    have hdata : c.data = a.open?.getD [] := hfit
    dsimp only
    rw [decodeThen_of_identity hdec]
    have hpack : PackFits (some (c.data ++ f.payload))
        (some { c with data := c.data ++ f.payload }) := rfl
    have hread := ((hW.decoded S.conn f.payload).setPack hpack).onSockRead hkeep hconn
      (c.data ++ f.payload)
    rw [if_neg hread.status_ne_closed]
    have hclear : PackFits none (some { c with data := [] }) := rfl
    have hdone := (hread.delBuffer (length_front f)).setPack hclear
    refine ⟨_, rfl, ?_⟩
    rw [Assembly.data, if_pos hfin, ← hdata]
    exact hdone

/-- **A round on a complete frame does what the protocol says.** -/
theorem dispWebSockBody_apply (hdec : ∀ n b msg, E.decode n b msg = some msg)
    (hkeep : ∀ log s msg, fd ∉ h log s msg) {fs : List Frame}
    (hwf : Assembly.WellFormed a.open?.isSome (f :: fs))
    (hlen : f.bytes.length < E.width.modulus)
    (hW : WebSockAt fd conn before out a (f.bytes ++ rest) W) :
    ∃ W', dispWebSockBody E h fd W = .next W'
      ∧ WebSockAt fd conn before out (a.frame f) rest W' := by
  obtain ⟨S, hS, hconn, hst, hin, hout, hlog, hfit⟩ := hW
  rw [dispWebSockBody_frame hS hin hlen]
  have hW : WebSockAt fd conn before out a (f.head ++ f.payload ++ rest)
      (W.setSession fd { S with input := f.head ++ f.payload ++ rest }) :=
    ⟨_, session_setSession_same _ _ _, hconn, hst, rfl, hout, hlog, hfit⟩
  unfold Assembly.WellFormed at hwf
  unfold Assembly.frame
  have hdata : ∀ op, op = f.opCode → op ≠ .close → op ≠ .ping → op ≠ .pong →
      dispFram E h fd S f.fram f.bytes.length f.payload
        (W.setSession fd { S with input := f.head ++ f.payload ++ rest })
      = dispData E h fd S f.fram f.bytes.length f.payload
        (W.setSession fd { S with input := f.head ++ f.payload ++ rest }) := by
    intro op hop h₁ h₂ h₃
    unfold dispFram
    rw [f.fram_emOpCode, ← hop]
    cases op <;> first | rfl | contradiction
  cases hop : f.opCode with
  | ping => exact dispFram_ping hop hW
  | pong => exact dispFram_pong hop hW
  | close =>
    rw [hop] at hwf
    exact hwf.elim
  | other c =>
    rw [hop] at hwf
    exact hwf.elim
  | continuation =>
    rw [hop] at hwf
    rw [hdata _ hop.symm nofun nofun nofun]
    cases hfin : f.fin with
    | false => exact hfin ▸ dispData_fragment hdec hfin hW
    | true => exact hfin ▸ dispData_last hdec hkeep hconn hop hfin hwf.1 hW
  | textFrame | binaryFrame =>
    rw [hop] at hwf
    rw [hdata _ hop.symm nofun nofun nofun]
    cases hfin : f.fin with
    | false => exact hfin ▸ dispData_fragment hdec hfin hW
    | true =>
      exact hfin ▸ dispData_whole hdec hkeep hconn (by rw [hop]; nofun) hfin
        (Option.isSome_eq_false_iff.mp hwf.1 |> Option.isNone_iff_eq_none.mp) hW

end Switch

/-- The loop of `dispWebSock` reads well-formed frames. -/
theorem dispWebSock_reads (hdec : ∀ n b msg, E.decode n b msg = some msg)
    (hkeep : ∀ log s msg, fd ∉ h log s msg) :
    code.Reads (dispWebSockBody E h fd) Assembly.frame
      (fun a fs => Assembly.WellFormed a.open?.isSome fs
        ∧ ∀ f ∈ fs, f.bytes.length < E.width.modulus)
      (WebSockAt fd conn before out) where
  frame a f fs rest W hv hW :=
    dispWebSockBody_apply hdec hkeep hv.1 (hv.2 f List.mem_cons_self) hW
  valid a f fs hv :=
    ⟨Assembly.wellFormed_frame hv.1, fun g hg => hv.2 g (List.mem_cons_of_mem _ hg)⟩
  part a todo rest W hv hp hW := by
    refine ⟨W, ?_, hW⟩
    obtain ⟨S, hS, -, -, hin, -⟩ := hW
    refine dispWebSockBody_of_wait hS ?_
    rw [hin]
    cases todo with
    | nil => rw [show rest = [] from hp]; rfl
    | cons f todo => exact f.parsePack_part E.width (hv.2 f List.mem_cons_self) hp.1 hp.2

end Chunks

/-- **WebSocket reassembly is exact and independent of chunking.** A linked
session without a continuation entry receives the bytes of any prefix of a
well-formed stream of frames in any chunks, `dispWebSock` running after each.
Then it has handed over exactly the messages that the frames arrived in full
make up, in order and each once, it has sent exactly one PONG for each PING
among them and nothing else, and its buffer holds the part of the next frame.
In particular the whole stream hands over all its messages. -/
theorem dispWebSock_chunks (E : Env) (h : Handler) (fd : QSock) (W : Worker) (S : Session)
    (hS : W.session fd = some S) (hlinked : S.status = .linked) (hinput : S.input = [])
    (hpack : W.webSockPack fd = none)
    (hdec : ∀ n b msg, E.decode n b msg = some msg)
    (hkeep : ∀ log s msg, fd ∉ h log s msg) (fs : List Frame)
    (hwf : Assembly.WellFormed false fs)
    (hlen : ∀ f ∈ fs, f.bytes.length < E.width.modulus)
    (chunks : List (List UInt8)) (hcut : chunks.flatten <+: fs.flatMap Frame.bytes) :
    let W' := chunks.foldl (fun W chunk => dispWebSock E h fd (W.arrive fd chunk)) W
    ∃ done todo S', fs = done ++ todo ∧ W'.session fd = some S' ∧ S'.conn = S.conn
      ∧ delivered S.conn W'.log
        = delivered S.conn W.log ++ (done.foldl Assembly.frame .start).msgs
      ∧ S'.output = S.output ++ pongs (done.foldl Assembly.frame .start).pings
      ∧ chunks.flatten = done.flatMap Frame.bytes ++ S'.input
      ∧ code.Partial todo S'.input
      ∧ (chunks.flatten = fs.flatMap Frame.bytes → done = fs ∧ S'.input = []) := by
  have hreads : code.Reads (dispWebSockBody E h fd) _ _
      (WebSockAt fd S.conn (delivered S.conn W.log) S.output) := dispWebSock_reads hdec hkeep
  obtain ⟨done, todo, rest, hfs, hbytes, hpart, S', hS', hconn, -, hrest, hout, hlog, -⟩ :=
    hreads.feed_chunks (fun W chunk => dispWebSock E h fd (W.arrive fd chunk))
      (by
        rintro a buf W chunk ⟨S, hS, hconn, hst, hbuf, hout, hlog, hfit⟩
        refine ⟨(W.arrive fd chunk).pending fd + 1, W.arrive fd chunk, ?_, ?_, ?_⟩
        · rw [pending, arrive_of_session hS, session_setSession_same, hbuf]
          exact Nat.lt_succ_self _
        · rw [arrive_of_session hS]
          exact ⟨_, session_setSession_same _ _ _, hconn, hst, by rw [hbuf], hout, hlog, hfit⟩
        · rw [arrive_of_session hS]
          unfold dispWebSock
          rw [session_setSession_same]
          exact if_neg (by rw [hst]; decide))
      .start fs W chunks ⟨hwf, hlen⟩
      ⟨S, hS, rfl, hlinked, hinput, (List.append_nil _).symm, (List.append_nil _).symm,
        by rw [hpack]; rfl⟩ hcut
  refine ⟨done, todo, S', hfs, hS', hconn, hlog, hout, hrest ▸ hbytes, hrest ▸ hpart, ?_⟩
  intro hall
  obtain ⟨rfl, hnil⟩ := code.partial_complete (hfs ▸ hall.symm.trans hbytes) hpart
  exact ⟨by rw [hfs, List.append_nil], hrest.trans hnil⟩

/-- A text message in two fragments with a PING between them, one byte at a
time. -/
theorem dispWebSock_chunks_bytewise :
    let key : List UInt8 := [1, 2, 3, 4]
    let fs : List Frame := [⟨false, .textFrame, by decide, key, rfl, [104]⟩,
      ⟨true, .ping, by decide, key, rfl, []⟩,
      ⟨true, .continuation, by decide, key, rfl, [105]⟩]
    let W' := ((fs.flatMap Frame.bytes).map fun b => [b]).foldl
      (fun W chunk =>
        dispWebSock (.plain .bits64 fun _ => .more) (fun _ _ _ => []) 5 (W.arrive 5 chunk))
      (start.setSession 5 ⟨.webSock, .linked, 0, [], [], 0⟩)
    delivered 0 W'.log = [[104, 105]]
      ∧ (W'.session 5).map Session.output = some [0x8A, 0] := by
  intro key fs W'
  obtain ⟨done, _, S', -, hS', -, hlog, hout, -, -, hall⟩ :=
    dispWebSock_chunks (.plain .bits64 fun _ => .more) (fun _ _ _ => []) 5
      (start.setSession 5 ⟨.webSock, .linked, 0, [], [], 0⟩)
      ⟨.webSock, .linked, 0, [], [], 0⟩ rfl rfl rfl rfl (fun _ _ _ => rfl)
      (fun _ _ _ => List.not_mem_nil) fs ⟨rfl, rfl, trivial⟩ (by decide)
      ((fs.flatMap Frame.bytes).map fun b => [b]) (by decide)
  rw [(hall (by decide)).1] at hlog hout
  refine ⟨hlog, ?_⟩
  rw [hS', Option.map_some, hout]
  rfl

end Worker
