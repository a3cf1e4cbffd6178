import QService.Session
import QService.TcpParser

/-!
# TCP dispatch

`CWorkThreadEvent::dispTcp` is the read loop of a TCP session: parse a frame,
decode its message, hand it to the interface, drop the frame, and go round.
`sendTcp` is the other side, and what it writes for a message is its frame
(`sendTcp_frame`).

`dispTcp_chunks` says that the two sides fit together: whatever the messages
are and however their bytes are cut on the way, the loop hands over exactly
the messages that have arrived in full and keeps the part of the next frame.
-/

namespace Worker

open TcpParser

/-- `bSVLink` in `dispTcp` and `sendTcp`. -/
def svLink (S : Session) : Bool := S.type = .tcpClient

/-- One round of the loop of `CWorkThreadEvent::dispTcp` for the session of
`fd`. -/
def dispTcpBody (E : Env) (h : Handler) (fd : QSock) (W : Worker) : LoopStep Worker :=
  match W.session fd with
  | none => .stop W
  | some S =>
    match parsePack E.width E.stray S.input with
    | none => .stop W
    | some pack =>
      let decoded := E.decodeMsg W.ciphers (svLink S) pack.msg
      let W := W.countCipher
      match decoded with
      | none => .stop W
      | some msg =>
        let W := W.emit (.payload S.conn msg)
        let W := if S.type = .debug then W.onDebug h fd S msg else W.onSockRead h fd S msg
        if W.status fd ≠ .closed then .next (W.delBuffer fd pack.parsedLens)
        else .stop W

/-- `CWorkThreadEvent::dispTcp`. Each round that goes on drops at least a byte. -/
def dispTcp (E : Env) (h : Handler) (fd : QSock) (W : Worker) : Worker :=
  LoopStep.whileTrue (dispTcpBody E h fd) (W.pending fd + 1) W

/-- A round that goes on leaves fewer bytes. -/
theorem dispTcpBody_next_lt {E : Env} {h : Handler} {fd : QSock} {W W' : Worker}
    (hnext : dispTcpBody E h fd W = .next W') : W'.pending fd < W.pending fd := by
  unfold dispTcpBody at hnext
  cases hS : W.session fd with
  | none =>
    rw [hS] at hnext
    cases hnext
  | some S =>
    rw [hS] at hnext
    dsimp only at hnext
    split at hnext
    · cases hnext
    · rename_i pack hpack
      obtain ⟨hpos, hbuf⟩ := parsePack_parsedLens E.width E.stray hpack
      split at hnext
      · cases hnext
      · split_ifs at hnext with hd hst
        all_goals
          cases hnext
          rw [pending_of_session hS]
          refine pending_delBuffer_lt hpos hbuf (fun T hT => ?_)
          have hST : some T = some S := (session_of_closeAll hT).symm.trans hS
          rw [Option.some.inj hST]

/-- **The loop of `dispTcp` always returns**: what it leaves is what some round
of it returned. -/
theorem dispTcp_returns (E : Env) (h : Handler) (fd : QSock) (W : Worker) :
    ∃ W₁, dispTcpBody E h fd W₁ = .stop (dispTcp E h fd W) :=
  LoopStep.whileTrue_rule (fun _ => True) (fun W' => ∃ W₁, dispTcpBody E h fd W₁ = .stop W')
    (Worker.pending · fd) (fun _ _ _ hnext => ⟨trivial, dispTcpBody_next_lt hnext⟩)
    (fun W₁ _ _ hstop => ⟨W₁, hstop⟩) _ W trivial (Nat.lt_succ_self _)

/-- `CSessionManager::sendTcp`. -/
def sendTcp (E : Env) (fd : QSock) (data : List UInt8) (W : Worker) : Bool × Worker :=
  match W.session fd with
  | none => (false, W)
  | some S =>
    let encoded := E.encodeMsg W.ciphers (svLink S) data
    let W := W.countCipher
    match encoded with
    | none => (false, W)
    | some msg =>
      let W := W.writeBuffer fd (createHead E.width msg.length)
      if msg.length ≠ 0 then (true, W.writeBuffer fd msg) else (true, W)

/-- **`sendTcp` writes the frame of the encoded message.** -/
theorem sendTcp_frame (E : Env) {fd : QSock} {W : Worker} {S : Session}
    (hS : W.session fd = some S) (data : List UInt8) {msg : List UInt8}
    (henc : E.encodeMsg W.ciphers (svLink S) data = some msg) :
    ∃ W', sendTcp E fd data W = (true, W')
      ∧ W'.session fd = some { S with output := S.output ++ frame E.width msg } := by
  unfold sendTcp
  rw [hS]
  simp only [henc]
  rw [writeBuffer_of_session (W := W.countCipher) hS]
  by_cases hz : msg.length = 0
  · have hnil : msg = [] := List.eq_nil_of_length_eq_zero hz
    refine ⟨_, if_neg (not_not.mpr hz), ?_⟩
    rw [session_setSession_same, frame, hnil, List.append_nil]
  · refine ⟨_, if_pos hz, ?_⟩
    rw [writeBuffer_of_session (session_setSession_same _ _ _), session_setSession_same,
      frame, List.append_assoc]

/-! ## The loop reads frames -/

section Chunks

variable (E : Env) (h : Handler) (fd : QSock) (conn : ℕ) (before : List (List UInt8))

/-- The session of `fd` is an open TCP session of the connection `conn` with
the unread bytes `buf`, and the connection's messages since `before` are
`msgs`. -/
def TcpAt (msgs : List (List UInt8)) (buf : List UInt8) (W : Worker) : Prop :=
  ∃ S, W.session fd = some S ∧ S.conn = conn ∧ S.status ≠ .closed ∧ S.input = buf
    ∧ delivered conn W.log = before ++ msgs

variable {E h fd conn before}

/-- **A round on a complete frame hands its message over and drops it.** -/
theorem dispTcpBody_frame (hdec : ∀ n b msg, E.decode n b msg = some msg)
    (hkeep : ∀ log s msg, fd ∉ h log s msg) {msgs : List (List UInt8)}
    {msg rest : List UInt8} (hlen : (frame E.width msg).length < 2 ^ 32) {W : Worker}
    (hW : TcpAt fd conn before msgs (frame E.width msg ++ rest) W) :
    ∃ W', dispTcpBody E h fd W = .next W'
      ∧ TcpAt fd conn before (msgs ++ [msg]) rest W' := by
  obtain ⟨S, hS, hconn, hopen, hinput, hlog⟩ := hW
  -- both callbacks of the interface record the message and keep the session
  obtain ⟨W₁, hcall, hses, hlog'⟩ : ∃ W₁ : Worker,
      (if S.type = .debug then
          (W.countCipher.emit (.payload S.conn msg)).onDebug h fd S msg
        else (W.countCipher.emit (.payload S.conn msg)).onSockRead h fd S msg) = W₁
      ∧ W₁.session fd = W.session fd
      ∧ delivered S.conn W₁.log = delivered S.conn W.log ++ [msg] := by
    set W₀ := W.countCipher.emit (.payload S.conn msg)
    have hlog₀ : delivered S.conn W₀.log = delivered S.conn W.log :=
      (delivered_append _ _ _).trans (List.append_nil _)
    by_cases hd : S.type = .debug
    · obtain ⟨h₁, h₂⟩ := W₀.onDebug_keeps S msg hkeep
      exact ⟨_, if_pos hd, h₁, by rw [h₂, hlog₀]⟩
    · obtain ⟨h₁, -, h₂⟩ := W₀.onSockRead_keeps S msg hkeep
      exact ⟨_, if_neg hd, h₁, by rw [h₂, hlog₀]⟩
  have hS₁ : W₁.session fd = some S := hses.trans hS
  refine ⟨W₁.delBuffer fd (frame E.width msg).length, ?_, ?_⟩
  · unfold dispTcpBody
    rw [hS]
    dsimp only
    rw [hinput, parsePack_frame E.width E.stray msg rest hlen]
    dsimp only
    rw [E.decodeMsg_of_identity hdec]
    dsimp only
    rw [hcall, if_pos (by rw [status_of_session hS₁]; exact hopen)]
  · rw [delBuffer_of_session hS₁]
    refine ⟨_, session_setSession_same _ _ _, hconn, hopen, ?_, ?_⟩
    · show S.input.drop _ = rest
      rw [hinput, List.drop_left]
    · rw [log_setSession, ← hconn, hlog', hconn, hlog, List.append_assoc]

/-- **A round on a part of a frame returns and changes nothing.** -/
theorem dispTcpBody_part {msgs : List (List UInt8)} {buf : List UInt8} {W : Worker}
    (hparse : parsePack E.width E.stray buf = none)
    (hW : TcpAt fd conn before msgs buf W) : dispTcpBody E h fd W = .stop W := by
  obtain ⟨S, hS, -, -, hinput, -⟩ := hW
  unfold dispTcpBody
  rw [hS]
  dsimp only
  rw [hinput, hparse]

/-- The loop of `dispTcp` reads TCP frames. -/
theorem dispTcp_reads (hdec : ∀ n b msg, E.decode n b msg = some msg)
    (hkeep : ∀ log s msg, fd ∉ h log s msg) :
    (code E.width).Reads (dispTcpBody E h fd) (fun msgs msg => msgs ++ [msg])
      (fun _ msgs => ∀ m ∈ msgs, (frame E.width m).length < 2 ^ 32)
      (TcpAt fd conn before) where
  frame msgs msg _ rest W hv hW :=
    dispTcpBody_frame hdec hkeep (hv msg List.mem_cons_self) hW
  valid _ _ _ hv m hm := hv m (List.mem_cons_of_mem _ hm)
  part msgs todo rest W hv hp hW := by
    refine ⟨W, dispTcpBody_part ?_ hW, hW⟩
    cases todo with
    | nil => rw [show rest = [] from hp]; rfl
    | cons m todo =>
      exact parsePack_part E.width E.stray m (hv m List.mem_cons_self) hp.1 hp.2

end Chunks

/-- **TCP framing is lossless under any chunking.** A session whose peer sends
the messages `msgs` receives the bytes of any prefix of that stream in any
chunks, `dispTcp` running after each. Then it has handed over exactly the
messages whose frames have arrived in full, in order and each once, and its
buffer holds exactly the bytes of the next frame that have arrived. In
particular the whole stream delivers all of `msgs` and leaves nothing. -/
theorem dispTcp_chunks (E : Env) (h : Handler) (fd : QSock) (W : Worker) (S : Session)
    (hS : W.session fd = some S) (hopen : S.status ≠ .closed) (hinput : S.input = [])
    (hdec : ∀ n b msg, E.decode n b msg = some msg)
    (hkeep : ∀ log s msg, fd ∉ h log s msg) (msgs : List (List UInt8))
    (hlen : ∀ msg ∈ msgs, (frame E.width msg).length < 2 ^ 32)
    (chunks : List (List UInt8))
    (hcut : chunks.flatten <+: msgs.flatMap (frame E.width)) :
    let W' := chunks.foldl (fun W chunk => dispTcp E h fd (W.arrive fd chunk)) W
    ∃ done todo S', msgs = done ++ todo ∧ W'.session fd = some S' ∧ S'.conn = S.conn
      ∧ delivered S.conn W'.log = delivered S.conn W.log ++ done
      ∧ chunks.flatten = done.flatMap (frame E.width) ++ S'.input
      ∧ (code E.width).Partial todo S'.input
      ∧ (chunks.flatten = msgs.flatMap (frame E.width) → done = msgs ∧ S'.input = []) := by
  have hreads : (code E.width).Reads (dispTcpBody E h fd) _ _
      (TcpAt fd S.conn (delivered S.conn W.log)) := dispTcp_reads hdec hkeep
  obtain ⟨done, todo, rest, hmsgs, hbytes, hpart, S', hS', hconn, hopen', hrest, hlog⟩ :=
    hreads.feed_chunks (fun W chunk => dispTcp E h fd (W.arrive fd chunk))
      (by
        rintro done buf W chunk ⟨S, hS, hconn, hopen, hbuf, hlog⟩
        refine ⟨_, W.arrive fd chunk, ?_, ?_, rfl⟩
        · rw [pending, arrive_of_session hS, session_setSession_same, hbuf]
          exact Nat.lt_succ_self _
        · rw [arrive_of_session hS]
          exact ⟨_, session_setSession_same _ _ _, hconn, hopen, by rw [hbuf], hlog⟩)
      [] msgs W chunks hlen ⟨S, hS, rfl, hopen, hinput, (List.append_nil _).symm⟩ hcut
  rw [List.foldl_append_eq_append, ← List.flatMap_def, List.flatMap_singleton',
    List.nil_append] at hlog
  refine ⟨done, todo, S', hmsgs, hS', hconn, hlog, hrest ▸ hbytes, hrest ▸ hpart, ?_⟩
  intro hall
  obtain ⟨rfl, hnil⟩ := (code E.width).partial_complete (hmsgs ▸ hall.symm.trans hbytes) hpart
  exact ⟨by rw [hmsgs, List.append_nil], hrest.trans hnil⟩

/-- A message of two bytes and an empty one, cut inside the first frame. -/
theorem dispTcp_chunks_cut :
    delivered 0 ([[2, 1], [2, 0]].foldl
        (fun W chunk =>
          dispTcp (.plain .bits64 fun _ => .more) (fun _ _ _ => []) 5 (W.arrive 5 chunk))
        (start.setSession 5 ⟨.tcp, .linked, 0, [], [], 0⟩)).log = [[1, 2], []] := by
  obtain ⟨done, _, _, -, -, -, hlog, -, -, hall⟩ :=
    dispTcp_chunks (.plain .bits64 fun _ => .more) (fun _ _ _ => []) 5
      (start.setSession 5 ⟨.tcp, .linked, 0, [], [], 0⟩) ⟨.tcp, .linked, 0, [], [], 0⟩
      rfl (by decide) rfl (fun _ _ _ => rfl) (fun _ _ _ => List.not_mem_nil)
      [[1, 2], []] (by decide) [[2, 1], [2, 0]] (by decide)
  rw [(hall (by decide)).1] at hlog
  exact hlog

end Worker
