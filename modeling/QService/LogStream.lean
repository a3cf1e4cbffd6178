import QService.CInt
import QService.QString
import QService.Runs
import QService.TcpParser

/-!
# Log lines and mails

A log line and a mail go through a socket to the thread that writes them out:
`CTxtLoger::writeLog` and `CMailSender::sendMail` send a frame, its head and its
body in two writes, and `CLog::LogerReadCB` and `CMailSender::onMainRead` read
frames.

The reader finds the messages again if the stream is their frames and then at most
a part of one more (`LogReader.receive_eq`). A send may fail, and then the writers
go on: `writeLog` does not look at what `Q_SockWrite` returns. What a failed write
has left in the stream stays before all that is written after it, so that the
reader loses its place (`not_recovers_unframed`). `recovers_of_orderly` is about
the runs in which nothing is written after a part of a frame.
-/

open TcpParser EventBuffer

/-! ## The reader -/

/-- A thread that reads messages: the bytes in its buffer, and what it has
written out. -/
structure LogReader where
  buffer : List UInt8
  written : List (List UInt8)
  deriving DecidableEq, Repr

namespace LogReader

variable {w : Width} {stray : List UInt8}

/-- One round of the loop of `CLog::LogerReadCB` and of `CMailSender::onMainRead`. -/
def readBody (w : Width) (stray : List UInt8) (R : LogReader) : LoopStep LogReader :=
  match parsePack w stray R.buffer with
  | none => .stop R
  | some pack => .next ⟨delBuffer R.buffer pack.parsedLens, R.written ++ [pack.msg]⟩

/-- `CLog::LogerReadCB` when a chunk has come. Each round that goes on drops at least
a byte. -/
def logerReadCB (w : Width) (stray : List UInt8) (R : LogReader) (chunk : List UInt8) :
    LogReader :=
  LoopStep.whileTrue (readBody w stray) ((R.buffer ++ chunk).length + 1)
    ⟨R.buffer ++ chunk, R.written⟩

/-- The reader after all these chunks. -/
def receive (w : Width) (stray : List UInt8) (chunks : List (List UInt8)) : LogReader :=
  chunks.foldl (logerReadCB w stray) ⟨[], []⟩

theorem readBody_frame {msg rest : List UInt8} (h : (frame w msg).length < 2 ^ 32)
    (msgs : List (List UInt8)) :
    readBody w stray ⟨frame w msg ++ rest, msgs⟩ = .next ⟨rest, msgs ++ [msg]⟩ := by
  unfold readBody
  rw [parsePack_frame w stray msg rest h]
  exact congrArg (fun buf => LoopStep.next (LogReader.mk buf (msgs ++ [msg]))) List.drop_left

/-- The loop reads frames. -/
theorem logerReadCB_reads :
    (code w).Reads (readBody w stray) (fun msgs msg => msgs ++ [msg])
      (fun _ msgs => ∀ m ∈ msgs, (frame w m).length < 2 ^ 32)
      (fun msgs buf R => R = ⟨buf, msgs⟩) where
  frame msgs msg _ rest R hv hR := by
    subst hR
    exact ⟨_, readBody_frame (hv msg List.mem_cons_self) msgs, rfl⟩
  valid _ _ _ hv m hm := hv m (List.mem_cons_of_mem _ hm)
  part msgs todo rest R hv hp hR := by
    subst hR
    refine ⟨_, ?_, rfl⟩
    have hnone : parsePack w stray rest = none := by
      cases todo with
      | nil => rw [show rest = [] from hp]; rfl
      | cons m todo => exact parsePack_part w stray m (hv m List.mem_cons_self) hp.1 hp.2
    unfold readBody
    rw [hnone]

/-- **The reader finds the messages** whose frames are in the stream, and keeps the
part of a frame that follows them, however the bytes are cut. -/
theorem receive_eq {msgs todo chunks : List (List UInt8)} {part : List UInt8}
    (hlen : ∀ m ∈ msgs ++ todo, (frame w m).length < 2 ^ 32)
    (hpart : (code w).Partial todo part)
    (hbytes : chunks.flatten = (code w).encAll msgs ++ part) :
    receive w stray chunks = ⟨part, msgs⟩ := by
  have hcut : chunks.flatten <+: (code w).encAll (msgs ++ todo) := by
    rw [hbytes, FrameCode.encAll_append, List.prefix_append_right_inj]
    cases todo with
    | nil => rw [show part = [] from hpart]; exact List.nil_prefix
    | cons m todo => exact hpart.1.trans (List.prefix_append _ _)
  obtain ⟨done, todo', rest, hmsgs, hbytes', hrest, hend⟩ :=
    logerReadCB_reads.feed_chunks (logerReadCB w stray)
      (by rintro msgs buf R chunk rfl; exact ⟨_, _, Nat.lt_succ_self _, rfl, rfl⟩)
      [] (msgs ++ todo) ⟨[], []⟩ chunks hlen rfl hcut
  obtain ⟨rfl, rfl⟩ := (code w).cut_unique hmsgs (hbytes.symm.trans hbytes') hpart hrest
  rw [List.foldl_append_eq_append, ← List.flatMap_def, List.flatMap_singleton',
    List.nil_append] at hend
  exact hend

end LogReader

/-! ## The messages -/

/-- `LOG_LEVEL`. -/
inductive LogLv
  | nolog | error | warn | info | debug
  deriving DecidableEq, Repr

/-- The value of the enumerator. -/
def LogLv.value : LogLv → ℕ
  | .nolog => 0
  | .error => 300
  | .warn => 400
  | .info => 500
  | .debug => 600

/-- `CTxtLoger::getLV`. -/
def LogLv.getLV : LogLv → List UInt8
  | .warn => ascii "WARNING"
  | .error => ascii "ERROR"
  | .info => ascii "INFO"
  | .debug => ascii "DEBUG"
  | .nolog => ascii "OTHER"

/-- What a call of `CTxtLoger::writeLog` reads: members of the loger, arguments, the
text of `Q_Now`, and the text that `Q_FormatVa` makes of the format and what follows
it. `none` stands for a NULL pointer and for `Q_INVALID_SOCK`. -/
structure TxtCall where
  emPriorityLV : LogLv
  sock : Option ℕ
  emInLogLv : LogLv
  pFile : Option (List UInt8)
  pFunction : Option (List UInt8)
  iLine : ℤ
  strVa : Option (List UInt8)
  now : List UInt8
  /-- `Q_PATH_SEPARATOR` -/
  pathSeparator : List UInt8
  deriving DecidableEq, Repr

/-- The line that `CTxtLoger::writeLog` sends, if it comes to that. -/
def TxtCall.strMsg (c : TxtCall) : Option (List UInt8) :=
  if c.emPriorityLV.value < c.emInLogLv.value then none
  else do
    let strVa ← c.strVa
    let pFunction ← c.pFunction
    let pFile ← c.pFile
    let _ ← c.sock
    let strFile := QString.getLastOfFlag (cString pFile) c.pathSeparator
    -- `"[%s][%s %s %d][%s] %s\n"`
    return ascii "[" ++ cString c.now ++ ascii "][" ++ strFile ++ ascii " "
      ++ cString pFunction ++ ascii " " ++ CInt.print c.iLine ++ ascii "]["
      ++ c.emInLogLv.getLV ++ ascii "] " ++ cString strVa ++ ascii "\n"

/-- `Q_SockWrite` on the results of its `send`s: the bytes that the socket takes, and
whether the function returns `Q_RTN_OK`. A `send` fails (`none`), or it takes one byte
and up to `k` more, but not more than the `int` it is asked for. `pBuf` is what is left
to send. -/
def sockWrite : List (Option ℕ) → List UInt8 → List UInt8 × Bool
  | some k :: sends, pBuf =>
    -- `(int)(iLens - iSendTotalSize)`
    let iWanted := CInt.int.cast pBuf.length
    if iWanted ≤ 0 then ([], false)
    else
      let iSendSize := min (k + 1) iWanted.toNat
      -- `while (iLens > iSendTotalSize)`
      if iSendSize < pBuf.length then
        let (bytes, ok) := sockWrite sends (pBuf.drop iSendSize)
        (pBuf.take iSendSize ++ bytes, ok)
      else (pBuf, true)
  | _, _ => ([], false)

/-- The sends take so many bytes before one of them fails. -/
def takes : List (Option ℕ) → ℕ → Bool
  | some k :: sends, n => n ≤ k + 1 || takes sends (n - (k + 1))
  | _, _ => false

/-- The first send fails. -/
def refused : List (Option ℕ) → Bool
  | some _ :: _ => false
  | _ => true

theorem sockWrite_refused {sends : List (Option ℕ)} (h : refused sends) (pBuf : List UInt8) :
    sockWrite sends pBuf = ([], false) := by
  unfold sockWrite
  split
  · cases h
  · rfl

/-- What a `send` is asked for is what is left, as long as that fits an `int`. -/
theorem cast_int_length {pBuf : List UInt8} (h : pBuf.length < 2 ^ 31) :
    CInt.int.cast pBuf.length = pBuf.length := by
  refine CInt.cast_of_fits ⟨?_, ?_⟩
  · show -((256 ^ 4 / 2 : ℕ) : ℤ) ≤ _
    omega
  · show _ ≤ ((256 ^ 4 : ℕ) : ℤ) / 2 - 1
    omega

theorem sockWrite_some {pBuf : List UInt8} (hne : pBuf ≠ []) (h : pBuf.length < 2 ^ 31) (k : ℕ)
    (sends : List (Option ℕ)) :
    sockWrite (some k :: sends) pBuf
      = if k + 1 < pBuf.length then
          (pBuf.take (k + 1) ++ (sockWrite sends (pBuf.drop (k + 1))).1,
            (sockWrite sends (pBuf.drop (k + 1))).2)
        else (pBuf, true) := by
  have hpos := List.length_pos_iff.mpr hne
  rw [sockWrite]
  simp only [cast_int_length h, Int.toNat_natCast]
  rw [if_neg (by omega)]
  by_cases hk : k + 1 < pBuf.length
  · rw [if_pos hk, min_eq_left hk.le, if_pos hk]
  · rw [if_neg hk, min_eq_right (by omega), if_neg (lt_irrefl _)]

/-- **`Q_SockWrite` writes everything or a proper part**, and says which. -/
theorem sockWrite_spec {pBuf : List UInt8} (hne : pBuf ≠ []) (h : pBuf.length < 2 ^ 31)
    (sends : List (Option ℕ)) :
    if takes sends pBuf.length then sockWrite sends pBuf = (pBuf, true)
    else ∃ part, sockWrite sends pBuf = (part, false) ∧ part <+: pBuf ∧ part ≠ pBuf := by
  induction sends generalizing pBuf with
  | nil => exact ⟨[], rfl, List.nil_prefix, hne.symm⟩
  | cons result sends ih =>
    cases result with
    | none => exact ⟨[], rfl, List.nil_prefix, hne.symm⟩
    | some k =>
      rw [sockWrite_some hne h, takes]
      by_cases hk : k + 1 < pBuf.length
      · have hdrop : (pBuf.drop (k + 1)).length = pBuf.length - (k + 1) := List.length_drop
        have hne' : pBuf.drop (k + 1) ≠ [] := List.ne_nil_of_length_pos (by omega)
        have hrest := ih hne' (by omega)
        rw [decide_eq_false (by omega), Bool.false_or, if_pos hk, ← hdrop]
        split_ifs at hrest ⊢
        · rw [hrest, List.take_append_drop]
        · obtain ⟨part, hw, hpre, hpart⟩ := hrest
          rw [hw]
          refine ⟨_, rfl, ?_, fun hall => hpart ?_⟩
          · conv_rhs => rw [← List.take_append_drop (k + 1) pBuf]
            exact (List.prefix_append_right_inj _).mpr hpre
          · exact List.append_cancel_left (hall.trans (List.take_append_drop (k + 1) pBuf).symm)
      · rw [decide_eq_true (by omega), Bool.true_or, if_pos rfl, if_neg hk]

/-- A stream between a writer and its reader: the bytes that the socket has taken, and
the messages for which every `Q_SockWrite` succeeded. -/
structure LogStream where
  bytes : List UInt8
  sent : List (List UInt8)
  deriving DecidableEq, Repr

namespace LogStream

variable {w : Width} {S : LogStream}

/-- Bytes are written for a message, all of them or not. -/
def write (S : LogStream) (msg bytes : List UInt8) (ok : Bool) : LogStream :=
  ⟨S.bytes ++ bytes, if ok then S.sent ++ [msg] else S.sent⟩

/-- `CTxtLoger::writeLog`, with the results of the `send`s in its two writes. -/
def writeLog (w : Width) (c : TxtCall) (heads bodies : List (Option ℕ)) (S : LogStream) :
    LogStream :=
  match c.strMsg with
  | none => S
  | some strMsg =>
    let head := sockWrite heads (createHead w strMsg.length)
    let body := sockWrite bodies strMsg
    S.write strMsg (head.1 ++ body.1) (head.2 && body.2)

/-- `CMailSender::sendMail`, with the results of the `send`s in its two writes. -/
def sendMail (w : Width) (strMail : List UInt8) (isRun : Bool) (heads bodies : List (Option ℕ))
    (S : LogStream) : LogStream :=
  if strMail = [] ∨ isRun = false then S
  else
    let head := sockWrite heads (createHead w strMail.length)
    if head.2 = false then S.write strMail head.1 false
    else
      let body := sockWrite bodies strMail
      S.write strMail (head.1 ++ body.1) body.2

/-- A call of the thread that writes. -/
inductive Call
  | writeLog (c : TxtCall) (heads bodies : List (Option ℕ))
  | sendMail (strMail : List UInt8) (isRun : Bool) (heads bodies : List (Option ℕ))

/-- What a call does to the stream. -/
def next (w : Width) (S : LogStream) : Call → LogStream
  | .writeLog c heads bodies => S.writeLog w c heads bodies
  | .sendMail strMail isRun heads bodies => S.sendMail w strMail isRun heads bodies

/-- Nothing is written yet. -/
def start : LogStream := ⟨[], []⟩

/-- There is a part of a frame in the stream. -/
def Torn (w : Width) (S : LogStream) : Prop := S.bytes ≠ (code w).encAll S.sent

instance : Decidable (S.Torn w) := inferInstanceAs (Decidable (_ ≠ _))

/-- A frame that the writers can send: its head fits `m_acHead`, and its length an `int`. -/
def Sized (w : Width) (msg : List UInt8) : Prop :=
  HeadFits w msg.length ∧ (frame w msg).length < 2 ^ 31

instance (msg : List UInt8) : Decidable (Sized w msg) := inferInstanceAs (Decidable (_ ∧ _))

/-- A call that writes nothing after a part of a frame: the body of a line is refused when
its head was not written in full, and everything is refused if there is a part of a frame
in the stream already. -/
def Orderly (w : Width) (S : LogStream) : Call → Prop
  | .writeLog c heads bodies => ∀ strMsg ∈ c.strMsg, Sized w strMsg
      ∧ (takes heads (createHead w strMsg.length).length = false → refused bodies)
      ∧ (S.Torn w → refused heads)
  | .sendMail strMail isRun heads _ => ¬ (strMail = [] ∨ isRun = false) →
      Sized w strMail ∧ (S.Torn w → refused heads)

instance : (c : Call) → Decidable (S.Orderly w c)
  | .writeLog c _ _ => inferInstanceAs (Decidable (∀ strMsg ∈ c.strMsg, _))
  | .sendMail _ _ _ _ => inferInstanceAs (Decidable (_ → _))

/-- The stream is frames of the messages that were sent, and then a part of one more at
most. -/
def Framed (w : Width) (S : LogStream) : Prop :=
  ∃ todo part, (∀ m ∈ S.sent ++ todo, (frame w m).length < 2 ^ 32)
    ∧ (code w).Partial todo part ∧ S.bytes = (code w).encAll S.sent ++ part

/-- What is written for a message is its frame if every write succeeded, and else a
proper part of it. -/
def Piece (w : Width) (msg bytes : List UInt8) (ok : Bool) : Prop :=
  if ok then bytes = frame w msg else bytes <+: frame w msg ∧ bytes ≠ frame w msg

/-- **A message written to a stream without a part of a frame** keeps it framed. -/
theorem Framed.write {msg bytes : List UInt8} {ok : Bool} (h : S.Framed w)
    (hwhole : ¬ S.Torn w) (hlen : (frame w msg).length < 2 ^ 32) (hpiece : Piece w msg bytes ok) :
    (S.write msg bytes ok).Framed w := by
  obtain ⟨todo, part, hsent, -, -⟩ := h
  have hmsg : ∀ m ∈ S.sent ++ [msg], (frame w m).length < 2 ^ 32 := by
    intro m hm
    rcases List.mem_append.mp hm with hm | hm
    · exact hsent m (List.mem_append_left _ hm)
    · exact List.mem_singleton.mp hm ▸ hlen
  have hbytes : S.bytes = (code w).encAll S.sent := not_not.mp hwhole
  cases ok with
  | false => exact ⟨[msg], bytes, hmsg, hpiece, congrArg (· ++ bytes) hbytes⟩
  | true =>
    refine ⟨[], [], by rwa [List.append_nil], rfl, ?_⟩
    show S.bytes ++ bytes = (code w).encAll (S.sent ++ [msg]) ++ []
    rw [hbytes, show bytes = frame w msg from hpiece, FrameCode.encAll_append,
      FrameCode.encAll_cons, FrameCode.encAll_nil, List.append_nil, List.append_nil]
    rfl

end LogStream
