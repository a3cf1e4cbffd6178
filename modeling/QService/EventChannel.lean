import QService.LogStream
import QService.Session

/-!
# Records between threads

The threads of the service hand over records: the accepted and the connected sockets, the
ticks of the timer, the logers. A record is written to a pair of sockets as it is in memory
(`sendMainMsg` and its like), and the event loop at the other end takes records out of its
buffer as long as there is a whole one (`Q_GetEventValue`).

So the queue between the threads is one of bytes. It serves as a queue of records as long
as nothing is written behind a part of a record, which a `send` that fails in the middle
leaves there: in every such run, the records come out as they were put in, each once,
and nothing is left behind when all bytes have arrived (`handled_of_run`). A record of one
byte has no part, so that the ticks of the timer always arrive (`ticks_of_run`). After a
part, no record comes out right.
-/

open ByteOrder EventBuffer

/-! ## Records -/

/-- How a type is laid out in memory. -/
structure RecordCode (φ : Type*) extends FrameCode φ UInt8 where
  /-- `sizeof` -/
  size : ℕ
  size_pos : 0 < size
  dec : List UInt8 → φ
  length_enc : ∀ x, (enc x).length = size
  dec_enc : ∀ x, dec (enc x) = x
  size_lt : size < 2 ^ 31

/-- `Q_GetEventValue`: the record, and what is left in the buffer. -/
def RecordCode.getEventValue {φ : Type*} (C : RecordCode φ) (buffer : List UInt8) :
    Option (φ × List UInt8) :=
  if buffer.length < C.size then none
  else some (C.dec (buffer.take C.size), delBuffer buffer C.size)

/-- A pair of sockets and the buffer at its end, with the records for which `Q_SockWrite` has
returned `Q_RTN_OK`, and those that were taken out. -/
structure EventPipe (φ : Type*) where
  sock : List UInt8
  buffer : List UInt8
  sent : List φ
  handled : List φ
  /-- a part of a record was written -/
  torn : Bool
  deriving DecidableEq, Repr

namespace EventPipe

variable {φ : Type*} {C : RecordCode φ} {P : EventPipe φ}

/-! ## The code -/

def start : EventPipe φ := ⟨[], [], [], [], false⟩

/-- `sendMainMsg`, with the results of the `send`s. -/
def send (C : RecordCode φ) (x : φ) (sends : List (Option ℕ)) (P : EventPipe φ) : EventPipe φ :=
  let (bytes, ok) := sockWrite sends (C.enc x)
  { P with
    sock := P.sock ++ bytes
    sent := if ok then P.sent ++ [x] else P.sent
    torn := P.torn || (!ok && !bytes.isEmpty) }

/-- One round of a loop such as that of `onMainRead`. -/
def readBody (C : RecordCode φ) (s : List UInt8 × List φ) : LoopStep (List UInt8 × List φ) :=
  match C.getEventValue s.1 with
  | none => .stop s
  | some (x, buffer) => .next (buffer, s.2 ++ [x])

/-- The loop, when a chunk has come. -/
def onMainRead (C : RecordCode φ) (s : List UInt8 × List φ) (chunk : List UInt8) :
    List UInt8 × List φ :=
  LoopStep.whileTrue (readBody C) ((s.1 ++ chunk).length + 1) (s.1 ++ chunk, s.2)

/-- So many bytes arrive. -/
def recv (C : RecordCode φ) (k : ℕ) (P : EventPipe φ) : EventPipe φ :=
  let (buffer, handled) := onMainRead C (P.buffer, P.handled) (P.sock.take k)
  { P with sock := P.sock.drop k, buffer := buffer, handled := handled }

/-- What can happen to a pipe. -/
inductive Act (φ : Type*)
  | send (x : φ) (sends : List (Option ℕ))
  | recv (k : ℕ)
  deriving DecidableEq, Repr

def step (C : RecordCode φ) (P : EventPipe φ) : Act φ → EventPipe φ
  | .send x sends => P.send C x sends
  | .recv k => P.recv C k

/-- Nothing is written behind a part of a record. -/
def Orderly (P : EventPipe φ) : Act φ → Prop
  | .send _ sends => P.torn = true → refused sends
  | .recv _ => True

instance (P : EventPipe φ) : DecidablePred P.Orderly
  | .send _ _ => inferInstanceAs (Decidable (_ → _))
  | .recv _ => .isTrue trivial

/-! ## What is read -/

theorem getEventValue_record (x : φ) (rest : List UInt8) :
    C.getEventValue (C.enc x ++ rest) = some (x, rest) := by
  have hlen := C.length_enc x
  rw [RecordCode.getEventValue, if_neg (by rw [List.length_append]; omega), List.take_left' hlen,
    C.dec_enc]
  exact congrArg (fun buffer => some (x, buffer)) (List.drop_left' hlen)

theorem getEventValue_part {todo : List φ} {rest : List UInt8} (h : C.Partial todo rest) :
    C.getEventValue rest = none := by
  refine if_pos ?_
  cases todo with
  | nil =>
    rw [show rest = [] from h]
    exact C.size_pos
  | cons x todo =>
    obtain ⟨hpre, hne⟩ := h
    rw [← C.length_enc x]
    exact lt_of_le_of_ne hpre.length_le fun hlen => hne (hpre.eq_of_length hlen)

/-- The loop reads records. -/
theorem onMainRead_reads :
    C.Reads (readBody C) (fun handled x => handled ++ [x]) (fun _ _ => True)
      (fun handled buffer s => s = (buffer, handled)) where
  frame handled x _ rest s _ hs := by
    refine ⟨_, ?_, rfl⟩
    rw [hs, readBody, getEventValue_record]
  valid _ _ _ _ := trivial
  part handled todo rest s _ hp hs := by
    refine ⟨_, ?_, hs⟩
    rw [readBody, show s.1 = rest from congrArg Prod.fst hs, getEventValue_part hp]

/-- What the loop does with a chunk of a stream of records. -/
theorem onMainRead_eq {records : List φ} {buffer : List UInt8} (chunk : List UInt8)
    (handled : List φ) (hp : C.Partial records buffer) (hpre : buffer ++ chunk <+: C.encAll records) :
    ∃ done todo rest, records = done ++ todo ∧ buffer ++ chunk = C.encAll done ++ rest
      ∧ C.Partial todo rest
      ∧ onMainRead C (buffer, handled) chunk = (rest, handled ++ done) := by
  have hfeed := onMainRead_reads.readsUntil.feed_chunks (onMainRead C)
    (by rintro handled buffer s chunk rfl; exact ⟨_, _, Nat.lt_succ_self _, rfl, rfl⟩)
    (fun _ _ _ => False.elim) [chunk] handled records buffer (buffer, handled) trivial (.inr hp) rfl
    (by rwa [List.flatten_cons, List.flatten_nil, List.append_nil])
  obtain ⟨done, todo, rest, hrecords, hbytes, hrest, hend | hend⟩ := hfeed
  · rw [List.flatten_cons, List.flatten_nil, List.append_nil] at hbytes
    rw [List.foldl_append_eq_append, ← List.flatMap_def, List.flatMap_singleton'] at hend
    exact ⟨done, todo, rest, hrecords, hbytes, hrest, hend⟩
  · exact hend.elim

/-! ## The queue -/

theorem partial_append {todo : List φ} {rest : List UInt8} (h : C.Partial todo rest)
    (more : List φ) : C.Partial (todo ++ more) rest := by
  cases todo with
  | nil =>
    rw [show rest = [] from h]
    exact C.partial_nil _
  | cons => exact h

/-- The pipe stands for a queue of records: what has been put in and not been taken out. Behind
its records there may be a part of one more. -/
def Stands (C : RecordCode φ) (P : EventPipe φ) (queue : List φ) : Prop :=
  ∃ todo part, (P.torn = false → todo = [] ∧ part = []) ∧ C.Partial todo part
    ∧ P.buffer ++ P.sock = C.encAll queue ++ part ∧ C.Partial (queue ++ todo) P.buffer

/-- **A record is put in**: it comes to the end of the queue, or the send has failed. -/
theorem Stands.send {queue : List φ} (h : P.Stands C queue) {x : φ} {sends : List (Option ℕ)}
    (hok : P.Orderly (.send x sends)) :
    (P.send C x sends).Stands C queue ∧ (P.send C x sends).sent = P.sent
      ∨ (P.send C x sends).Stands C (queue ++ [x]) ∧ (P.send C x sends).sent = P.sent ++ [x] := by
  obtain ⟨todo, part, hwhole, hpart, hbytes, hbuffer⟩ := h
  by_cases htorn : P.torn = true
  · -- nothing is written
    refine .inl ?_
    unfold EventPipe.send
    rw [sockWrite_refused (hok htorn)]
    dsimp only
    rw [List.append_nil]
    refine ⟨⟨todo, part, fun hf => hwhole ?_, hpart, hbytes, hbuffer⟩, rfl⟩
    simpa using hf
  · rw [Bool.not_eq_true] at htorn
    obtain ⟨rfl, rfl⟩ := hwhole htorn
    rw [List.append_nil] at hbytes hbuffer
    have hspec := sockWrite_spec (C.enc_ne_nil x) ((C.length_enc x).trans_lt C.size_lt) sends
    split_ifs at hspec with htakes
    · refine .inr ?_
      unfold EventPipe.send
      rw [hspec]
      refine ⟨⟨[], [], fun _ => ⟨rfl, rfl⟩, rfl, ?_, ?_⟩, rfl⟩
      · dsimp only
        rw [← List.append_assoc, hbytes, FrameCode.encAll_append, FrameCode.encAll_cons,
          FrameCode.encAll_nil, List.append_nil, List.append_nil]
      · rw [List.append_nil]
        exact partial_append hbuffer [x]
    · obtain ⟨bytes, hw, hpre, hne⟩ := hspec
      refine .inl ?_
      unfold EventPipe.send
      rw [hw]
      by_cases hnil : bytes = []
      · rw [hnil]
        dsimp only
        rw [List.append_nil]
        refine ⟨⟨[], [], fun _ => ⟨rfl, rfl⟩, rfl, ?_, ?_⟩, rfl⟩
        · rw [List.append_nil]
          exact hbytes
        · rw [List.append_nil]
          exact hbuffer
      · refine ⟨⟨[x], bytes, fun hf => ?_, ⟨hpre, hne⟩, ?_, partial_append hbuffer [x]⟩, rfl⟩
        · rw [htorn] at hf
          simp [hnil] at hf
        · dsimp only
          rw [← List.append_assoc, hbytes]

/-- **Bytes arrive**: records are taken out at the front of the queue. -/
theorem Stands.recv {queue : List φ} (h : P.Stands C queue) (k : ℕ) :
    ∃ done rest, queue = done ++ rest ∧ (P.recv C k).handled = P.handled ++ done
      ∧ (P.recv C k).Stands C rest := by
  obtain ⟨todo, part, hwhole, hpart, hbytes, hbuffer⟩ := h
  have hsplit : P.buffer ++ P.sock.take k ++ P.sock.drop k = C.encAll queue ++ part := by
    rw [List.append_assoc, List.take_append_drop, hbytes]
  have hcut : C.encAll queue ++ part <+: C.encAll (queue ++ todo) := by
    rw [FrameCode.encAll_append, List.prefix_append_right_inj]
    cases todo with
    | nil =>
      rw [show part = [] from hpart]
      exact List.nil_prefix
    | cons x todo =>
      rw [FrameCode.encAll_cons]
      exact hpart.1.trans (List.prefix_append _ _)
  obtain ⟨done, todo', rest, hrecords, hdone, hrest, hrun⟩ :=
    onMainRead_eq (C := C) (P.sock.take k) P.handled hbuffer
      ((List.prefix_append _ _).trans (hsplit ▸ hcut))
  rw [hdone, List.append_assoc] at hsplit
  have hrecv : P.recv C k = { P with
      sock := P.sock.drop k
      buffer := rest
      handled := P.handled ++ done } := by
    unfold EventPipe.recv
    rw [hrun]
  rw [hrecv]
  -- the part behind the queue is not taken for a record
  rcases List.append_eq_append_iff.mp hrecords with ⟨more, rfl, rfl⟩ | ⟨more, rfl, rfl⟩
  · rw [FrameCode.encAll_append, List.append_assoc, List.append_cancel_left_eq] at hsplit
    obtain rfl := C.eq_nil_of_partial (hsplit ▸ hpart)
    rw [FrameCode.encAll_nil, List.nil_append] at hsplit
    refine ⟨queue, [], (List.append_nil _).symm, by rw [List.append_nil],
      ⟨todo', part, hwhole, hpart, ?_, hrest⟩⟩
    exact hsplit
  · rw [FrameCode.encAll_append, List.append_assoc, List.append_cancel_left_eq] at hsplit
    exact ⟨done, more, rfl, rfl, ⟨todo, part, hwhole, hpart, hsplit, hrest⟩⟩

/-- What was sent is what was taken out and what is in the queue. -/
theorem stands_of_run (h : Reach (step C) Orderly start P) :
    ∃ queue, P.sent = P.handled ++ queue ∧ P.Stands C queue := by
  refine h.invariant (fun P => ∃ queue, P.sent = P.handled ++ queue ∧ P.Stands C queue) ?_ ?_
  · exact ⟨[], rfl, [], [], fun _ => ⟨rfl, rfl⟩, rfl, rfl, rfl⟩
  · rintro P a ⟨queue, hsent, hP⟩ hok
    cases a with
    | send x sends =>
      rcases hP.send hok with ⟨hP', hsame⟩ | ⟨hP', hnew⟩
      · exact ⟨queue, hsame.trans hsent, hP'⟩
      · refine ⟨queue ++ [x], ?_, hP'⟩
        show (P.send C x sends).sent = P.handled ++ (queue ++ [x])
        rw [hnew, hsent, List.append_assoc]
    | recv k =>
      obtain ⟨done, rest, rfl, hhandled, hP'⟩ := hP.recv k
      refine ⟨rest, ?_, hP'⟩
      show P.sent = (P.recv C k).handled ++ rest
      rw [hhandled, hsent, List.append_assoc]

theorem Stands.eq_nil {queue : List φ} (h : P.Stands C queue) (hsock : P.sock = []) :
    queue = [] := by
  obtain ⟨todo, part, -, -, hbytes, hbuffer⟩ := h
  rw [hsock, List.append_nil] at hbytes
  exact C.eq_nil_of_partial (hbytes ▸ hbuffer)

/-- **The records come out as they were put in.** In every run in which nothing is written behind
a part of a record, what was taken out is the first of what was sent, each record once and in
order, and it is all of it when all the bytes have arrived. -/
theorem handled_of_run (h : Reach (step C) Orderly start P) :
    ∃ queue, P.sent = P.handled ++ queue ∧ (P.sock = [] → queue = []) := by
  obtain ⟨queue, hsent, hstands⟩ := stands_of_run h
  exact ⟨queue, hsent, hstands.eq_nil⟩

/-! ## The sockets and the ticks -/

/-- `TriggerSock`, where `Q_SOCK` is the type `T`. -/
structure TriggerSock (T : CInt) where
  emType : SessionType
  iSock : ℤ
  fits_iSock : T.Fits iSock
  deriving DecidableEq, Repr

/-- The values of `enum SessionType`. -/
def sessionTypes : List SessionType := [.tcp, .tcpClient, .webSock, .debug]

/-- A `TriggerSock` in memory: between the type and the socket there is what fills up `Q_SOCK`
to its alignment. -/
def triggerSock (T : CInt) (fill : List UInt8) (h : 4 + fill.length + T.bytes < 2 ^ 31) :
    RecordCode (TriggerSock T) where
  enc s := store .little 4 (sessionTypes.idxOf s.emType) ++ fill
    ++ store .little T.bytes (T.toBits s.iSock)
  enc_ne_nil s hnil := by
    have hlen := congrArg List.length hnil
    rw [List.length_append, List.length_append, length_store] at hlen
    exact absurd hlen (by simp)
  size := 4 + fill.length + T.bytes
  size_pos := by omega
  dec bytes :=
    { emType := sessionTypes.getD (load .little (bytes.take 4)) .tcp
      iSock := T.cast (load .little (bytes.drop (4 + fill.length)))
      fits_iSock := T.fits_cast _ }
  length_enc s := by
    rw [List.length_append, List.length_append, length_store, length_store]
  dec_enc s := by
    have htype := length_store .little 4 (sessionTypes.idxOf s.emType)
    have hhead : (store .little 4 (sessionTypes.idxOf s.emType) ++ fill).length
        = 4 + fill.length := by
      rw [List.length_append, htype]
    rw [List.drop_left' hhead, List.append_assoc, List.take_left' htype, load_store]
    obtain ⟨emType, iSock, hfits⟩ := s
    rw [TriggerSock.mk.injEq]
    refine ⟨?_, CInt.cast_load_store hfits .little⟩
    cases emType
    all_goals rfl
  size_lt := h

/-- A `char`. -/
def charRecord : RecordCode UInt8 where
  enc c := [c]
  enc_ne_nil _ := List.cons_ne_nil _ _
  size := 1
  size_pos := Nat.one_pos
  dec bytes := bytes.headD 0
  length_enc _ := rfl
  dec_enc _ := rfl
  size_lt := by decide

/-- A record of one byte is written or not. -/
theorem not_torn_of_size_one (hsize : C.size = 1) (h : Reach (step C) (fun _ _ => True) start P) :
    P.torn = false := by
  refine h.invariant (fun P => P.torn = false) rfl fun P a hP _ => ?_
  cases a with
  | recv k => exact hP
  | send x sends =>
    show (P.send C x sends).torn = false
    have hspec := sockWrite_spec (C.enc_ne_nil x) ((C.length_enc x).trans_lt C.size_lt) sends
    unfold EventPipe.send
    split_ifs at hspec
    · rw [hspec, hP]
      rfl
    · obtain ⟨bytes, hw, hpre, hne⟩ := hspec
      have hlt : bytes.length < C.size := by
        rw [← C.length_enc x]
        exact lt_of_le_of_ne hpre.length_le fun hlen => hne (hpre.eq_of_length hlen)
      have hnil : bytes = [] := List.eq_nil_of_length_eq_zero (by omega)
      rw [hw, hP, hnil]
      rfl

/-- **The ticks of the timer arrive** in every run, whatever fails. -/
theorem ticks_of_run {P : EventPipe UInt8} (h : Reach (step charRecord) (fun _ _ => True) start P) :
    ∃ queue, P.sent = P.handled ++ queue ∧ (P.sock = [] → queue = []) := by
  have hall : Reach (step charRecord) Orderly start P := by
    induction h with
    | start => exact .start
    | step hs _ ih =>
      refine ih.step ?_
      rename_i a _
      cases a with
      | recv k => trivial
      | send x sends =>
        intro htorn
        rw [not_torn_of_size_one rfl hs] at htorn
        cases htorn
  obtain ⟨queue, hsent, hstands⟩ := stands_of_run hall
  exact ⟨queue, hsent, hstands.eq_nil⟩

/-- Two sockets of a listener, on a system where `Q_SOCK` is an `int`. -/
def tcpSock : TriggerSock .int := ⟨.tcp, 7, by decide⟩

@[inherit_doc tcpSock]
def webSock : TriggerSock .int := ⟨.webSock, 8, by decide⟩

/-- The first socket goes over in two parts, the second one is refused at first. -/
def orderlyActs : List (Act (TriggerSock .int)) :=
  [.send tcpSock [some 2, some 9], .recv 5, .send webSock [none], .send webSock [some 7], .recv 100]

theorem handled_orderlyActs :
    (orderlyActs.foldl (step (triggerSock .int [] (by decide))) start).handled
      = [tcpSock, webSock] := by
  have hrun : Reach (step (triggerSock .int [] (by decide))) Orderly start
      (orderlyActs.foldl (step (triggerSock .int [] (by decide))) start) :=
    Reach.start.of_list orderlyActs (by decide)
  obtain ⟨queue, hsent, hqueue⟩ := handled_of_run hrun
  rw [hqueue (by decide), List.append_nil] at hsent
  exact hsent.symm.trans (by decide)

/-- The second send fails in the middle, its socket is closed, and the worker gets a socket that
there is not. -/
example :
    ([.send tcpSock [some 7], .send webSock [some 2, none], .send tcpSock [some 7],
      .recv 100].foldl (step (triggerSock .int [] (by decide))) start).handled
      = [tcpSock, ⟨.webSock, 117440512, by decide⟩] := by
  decide

end EventPipe
