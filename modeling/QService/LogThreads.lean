import QService.LogStream

/-!
# Log calls of several threads

A loger has one parser, and `createHead` writes the head of a frame to its `m_acHead`.
`CTxtLoger::writeLog` and `CDBLoger::writeDBLog` call it before they take
`m_objMutex`; what they send under the mutex is what `m_acHead` holds by then. Each
`createHead` and each section under the mutex is one step, and all sends succeed.

So between the two steps of one call another call may put its own head there, and the
frame is sent with the wrong length (`not_intact_overlap`). `intact_of_steady` is about
the runs in which `m_acHead` still holds the head of the call when it is sent.
-/

open TcpParser ByteOrder

/-! ## Records for the database -/

/-- What a call of `CDBLoger::writeDBLog` reads. `none` stands for a NULL pointer and for
`Q_INVALID_SOCK`. -/
structure DBCall where
  sock : Option ℕ
  pszPlayerID : List UInt8
  sType : ℤ
  pszMsg : Option (List UInt8)
  iLens : ℕ
  fits_sType : CInt.short.Fits sType
  length_pszMsg : ∀ p ∈ pszMsg, p.length = iLens

namespace DBCall

/-- `iPlayerID` in `CDBLoger::writeDBLog`. -/
def iPlayerID (c : DBCall) : ℤ := CInt.int64.read c.pszPlayerID

/-- The part of the message that `pszMsg` gives. -/
def info (c : DBCall) : List UInt8 :=
  match c.pszMsg with
  | none => []
  | some pszMsg => if c.iLens = 0 then [] else pszMsg

/-- What `CDBLoger::writeDBLog` sends after the head. -/
def body (c : DBCall) : List UInt8 :=
  store .little 8 (CInt.int64.toBits c.iPlayerID) ++ store .little 2 (CInt.short.toBits c.sType)
    ++ c.info

/-- `iBufferLens` in `CDBLoger::writeDBLog`. -/
def iBufferLens (w : Width) (c : DBCall) : ℕ := (8 + 2 + c.iLens) % w.modulus

theorem length_body (c : DBCall) : c.body.length = 8 + 2 + c.info.length := by
  rw [body, List.length_append, List.length_append, length_store, length_store]

/-- The call sends as many bytes as it says. -/
theorem iBufferLens_eq {w : Width} {c : DBCall} (hnull : c.pszMsg = none → c.iLens = 0)
    (hlen : c.body.length < 2 ^ 32) : c.iBufferLens w = c.body.length := by
  have hinfo : c.info.length = c.iLens := by
    unfold info
    cases hmsg : c.pszMsg with
    | none => exact (hnull hmsg).symm
    | some pszMsg =>
      dsimp only
      split_ifs with hz
      · exact hz.symm
      · exact c.length_pszMsg pszMsg hmsg
  have hmod := w.two_pow_le_modulus
  rw [length_body, hinfo] at hlen ⊢
  exact Nat.mod_eq_of_lt (by omega)

/-- What `CDBLoger::Write` binds to its statement for a message of at least ten bytes:
the player, the type and the rest. -/
def write (pszMsg : List UInt8) : ℤ × ℤ × List UInt8 :=
  (CInt.int64.cast (load .little (pszMsg.take 8)),
    CInt.short.cast (load .little ((pszMsg.drop 8).take 2)), pszMsg.drop (2 + 8))

/-- **`CDBLoger::Write` reads back what `CDBLoger::writeDBLog` wrote.** -/
theorem write_body (c : DBCall) : write c.body = (c.iPlayerID, c.sType, c.info) := by
  have hid := length_store .little 8 (CInt.int64.toBits c.iPlayerID)
  have htype := length_store .little 2 (CInt.short.toBits c.sType)
  have hhead := congrArg₂ (· + ·) hid htype
  rw [← List.length_append] at hhead
  have hdrop : c.body.drop (2 + 8) = c.info := List.drop_left' hhead
  have htake : c.body.take 8 = store .little 8 (CInt.int64.toBits c.iPlayerID) := by
    rw [body, List.append_assoc]
    exact List.take_left' hid
  have hmid : (c.body.drop 8).take 2 = store .little 2 (CInt.short.toBits c.sType) := by
    rw [body, List.append_assoc, List.drop_left' hid]
    exact List.take_left' htype
  have hplayer : CInt.int64.cast (load .little (c.body.take 8)) = c.iPlayerID :=
    htake ▸ CInt.cast_load_store (CInt.fits_read _ _) .little
  have hsType : CInt.short.cast (load .little ((c.body.drop 8).take 2)) = c.sType :=
    hmid ▸ CInt.cast_load_store c.fits_sType .little
  rw [write, hplayer, hsType, hdrop]

end DBCall

/-! ## The calls of the threads -/

/-- A call that logs something. -/
inductive LogCall
  | writeLog (c : TxtCall)
  | writeDBLog (c : DBCall)

/-- A message on its way: the length that `createHead` is told, and what is sent after the
head. -/
structure LogEntry where
  iLens : ℕ
  body : List UInt8
  deriving DecidableEq, Repr

/-- What a call is about to log, if it does not return at once. -/
def LogCall.entry (w : Width) : LogCall → Option LogEntry
  | .writeLog c => c.strMsg.map fun strMsg => ⟨strMsg.length, strMsg⟩
  | .writeDBLog c => c.sock.map fun _ => ⟨c.iBufferLens w, c.body⟩

/-- The call counts what it sends: the head fits `m_acHead`, the length of the frame an
`int`, and `pszMsg` is there if it has a length. -/
def LogCall.Counted (w : Width) : LogCall → Prop
  | .writeLog c => ∀ strMsg ∈ c.strMsg, LogStream.Sized w strMsg
  | .writeDBLog c => ∀ _ ∈ c.sock,
      (c.pszMsg = none → c.iLens = 0) ∧ LogStream.Sized w c.body

instance {w : Width} : (c : LogCall) → Decidable (c.Counted w)
  | .writeLog _ => inferInstanceAs (Decidable (∀ strMsg ∈ _, _))
  | .writeDBLog c => inferInstanceAs (Decidable (∀ _ ∈ c.sock, _))

theorem LogCall.entry_counted {w : Width} {c : LogCall} {e : LogEntry} (hc : c.Counted w)
    (he : c.entry w = some e) : e.iLens = e.body.length ∧ (frame w e.body).length < 2 ^ 31 := by
  cases c with
  | writeLog c =>
    obtain ⟨strMsg, hmsg, rfl⟩ := Option.map_eq_some_iff.mp he
    exact ⟨rfl, (hc strMsg hmsg).2⟩
  | writeDBLog c =>
    obtain ⟨sock, hsock, rfl⟩ := Option.map_eq_some_iff.mp he
    obtain ⟨hnull, -, hlen⟩ := hc sock hsock
    have hbody : c.body.length < 2 ^ 32 := by
      rw [length_frame] at hlen
      omega
    exact ⟨DBCall.iBufferLens_eq hnull hbody, hlen⟩

/-- A loger and its threads: the memory from `m_acHead` on, the messages whose head was
made with its length, the bytes that were sent, and the messages that were logged. -/
structure Loger where
  acHead : List UInt8
  pending : ℕ → Option (LogEntry × ℕ)
  bytes : List UInt8
  logged : List (List UInt8)

namespace Loger

variable {w : Width} {S : Loger} {acHead : List UInt8}

/-- A step of one thread. -/
inductive Act
  /-- it calls `writeLog` or `writeDBLog`, up to `createHead` -/
  | createHead (thread : ℕ) (c : LogCall)
  /-- its section under `m_objMutex` -/
  | sendAll (thread : ℕ)

/-- Nothing is logged yet, and `m_acHead` holds anything. -/
def start (acHead : List UInt8) : Loger := ⟨acHead, fun _ => none, [], []⟩

/-- `createHead` writes to `m_acHead`. -/
def putHead (S : Loger) (head : List UInt8) : List UInt8 := head ++ S.acHead.drop head.length

/-- What a step does. A thread that is in a call goes on with it. -/
def next (w : Width) (S : Loger) : Act → Loger
  | .createHead thread c =>
    match c.entry w, S.pending thread with
    | some e, none =>
      let pszHead := createHead w e.iLens
      { S with
        acHead := S.putHead pszHead
        pending := Function.update S.pending thread (some (e, pszHead.length)) }
    | _, _ => S
  | .sendAll thread =>
    match S.pending thread with
    | none => S
    | some (e, iHeadLens) =>
      { S with
        pending := Function.update S.pending thread none
        bytes := S.bytes ++ (S.acHead.take iHeadLens ++ e.body)
        logged := S.logged ++ [e.body] }

/-- A step that sends the right head: `m_acHead` still holds the head of the message that
is sent, and calls count what they send. -/
def Steady (w : Width) (S : Loger) : Act → Prop
  | .createHead _ c => c.Counted w
  | .sendAll thread => ∀ p ∈ S.pending thread, S.acHead.take p.2 = createHead w p.1.iLens

instance : (a : Act) → Decidable (S.Steady w a)
  | .createHead _ c => inferInstanceAs (Decidable (c.Counted w))
  | .sendAll thread => inferInstanceAs (Decidable (∀ p ∈ S.pending thread, _))

/-- The stream is the frames of the messages that were logged, and every message on its
way is counted. -/
structure Inv (w : Width) (S : Loger) : Prop where
  pending : ∀ thread, ∀ p ∈ S.pending thread,
    p.1.iLens = p.1.body.length ∧ (frame w p.1.body).length < 2 ^ 31
      ∧ p.2 = (createHead w p.1.iLens).length
  logged : ∀ m ∈ S.logged, (frame w m).length < 2 ^ 31
  bytes : S.bytes = (code w).encAll S.logged

theorem Inv.createHead {thread : ℕ} {c : LogCall} (h : S.Inv w) (hc : c.Counted w) :
    (S.next w (.createHead thread c)).Inv w := by
  unfold next
  dsimp only
  split
  · rename_i e he hidle
    refine ⟨fun t p hp => ?_, h.logged, h.bytes⟩
    by_cases ht : t = thread
    · subst ht
      obtain rfl : (e, _) = p :=
        Option.some.inj ((Function.update_self t _ S.pending).symm.trans hp)
      obtain ⟨hcount, hlen⟩ := LogCall.entry_counted hc he
      exact ⟨hcount, hlen, rfl⟩
    · exact h.pending t p ((Function.update_of_ne ht _ S.pending).symm.trans hp)
  · exact h

theorem Inv.sendAll {thread : ℕ} (h : S.Inv w) (hok : S.Steady w (.sendAll thread)) :
    (S.next w (.sendAll thread)).Inv w := by
  unfold next
  dsimp only
  split
  · exact h
  · rename_i e iHeadLens hp
    obtain ⟨hcount, hlen, -⟩ := h.pending thread _ hp
    have hhead : S.acHead.take iHeadLens = TcpParser.createHead w e.iLens := hok _ hp
    refine ⟨fun t p hp' => ?_, fun m hm => ?_, ?_⟩
    · by_cases ht : t = thread
      · subst ht
        exact absurd ((Function.update_self t _ S.pending).symm.trans hp') (by simp)
      · exact h.pending t p ((Function.update_of_ne ht _ S.pending).symm.trans hp')
    · rcases List.mem_append.mp hm with hm | hm
      · exact h.logged m hm
      · exact List.mem_singleton.mp hm ▸ hlen
    · show S.bytes ++ (S.acHead.take iHeadLens ++ e.body) = (code w).encAll (S.logged ++ [e.body])
      rw [hhead, hcount, h.bytes, FrameCode.encAll_append, FrameCode.encAll_cons,
        FrameCode.encAll_nil, List.append_nil]
      rfl

theorem Inv.next {a : Act} (h : S.Inv w) (hok : S.Steady w a) : (S.next w a).Inv w := by
  cases a with
  | createHead thread c => exact h.createHead hok
  | sendAll thread => exact h.sendAll hok

/-- The reader gets the messages in the order of the sections. -/
theorem Inv.receive (h : S.Inv w) (stray : List UInt8) {chunks : List (List UInt8)}
    (hchunks : chunks.flatten = S.bytes) :
    (LogReader.receive w stray chunks).written = S.logged := by
  have hlen : ∀ m ∈ S.logged ++ [], (frame w m).length < 2 ^ 32 := by
    intro m hm
    rw [List.append_nil] at hm
    exact (h.logged m hm).trans (by decide)
  rw [LogReader.receive_eq hlen rfl (hchunks.trans (h.bytes.trans (List.append_nil _).symm))]

/-- **A call that nobody interrupts is steady.** -/
theorem steady_createHead {thread : ℕ} {c : LogCall} (hidle : S.pending thread = none) :
    (S.next w (.createHead thread c)).Steady w (.sendAll thread) := by
  unfold next
  dsimp only
  split
  · rename_i e he _
    intro p hp
    obtain rfl : (e, _) = p :=
      Option.some.inj ((Function.update_self thread _ S.pending).symm.trans hp)
    exact List.take_left
  · exact fun p hp => absurd (hidle.symm.trans hp) (by simp)

/-- So is a call that is interrupted by calls for the same length only. -/
theorem Steady.createHead {thread thread' : ℕ} {c : LogCall} (hinv : S.Inv w)
    (h : S.Steady w (.sendAll thread)) (hne : thread ≠ thread')
    (hlen : ∀ p ∈ S.pending thread, ∀ e ∈ c.entry w, e.iLens = p.1.iLens) :
    (S.next w (.createHead thread' c)).Steady w (.sendAll thread) := by
  unfold Loger.next
  dsimp only
  split
  · rename_i e he _
    intro p hp
    replace hp : S.pending thread = some p := (Function.update_of_ne hne _ S.pending).symm.trans hp
    obtain ⟨-, -, hp₂⟩ := hinv.pending thread p hp
    show (S.putHead (TcpParser.createHead w e.iLens)).take p.2 = _
    rw [hlen p hp e he, hp₂]
    exact List.take_left
  · exact h

end Loger
