import QService.ClientEncrypt
import QService.LuaBinary.Layout
import QService.TcpProgress
import QService.WebSockHead

/-!
# A message from script to script

A script of one server gives a protocol number and a table to `sendToID`. `createMsg`
writes them to the network buffer, `sendTcp` runs the cipher stages and puts a head
in front, and the bytes go to the other server in any chunks. There `dispTcp` cuts the
frames out, decodes them and gives each to `Lua_OnSockRead`, which reads the number and
the table back and calls the function that is registered for the number.

`netEvents_eq` is about all of that together: over a link between two servers the
registered functions are called with what was sent, in the same order, each message once,
and with nothing else. What the tables become on the way is `arrives`, which is the business
of the carrier that both sides are set to.
-/

open ByteOrder LuaBinary

namespace NetMsg

variable {ν κ : Type*} (e : Endian) (N : LuaNumber ν)

/-! ## The scripts -/

/-- `MSGCarrier`, with what `setMsgDesp` has registered where tables are carried as structs, and
else with the functions of the library: they raise an error for `none`. -/
inductive Carrier (ν : Type*)
  | struct (msgDesp : ℤ → Option StructAttr)
  | library (encode : ℤ → LuaTable ν → Option (List UInt8))
      (decode : ℤ → List UInt8 → Option (LuaTable ν))

/-- The table without entries. -/
def emptyTable : LuaTable ν := fun _ => .nil

/-- `createMsg`: the write buffer, or `none` for an error. A table may be missing or empty. -/
def createMsg (carrier : Carrier ν) (iProtocol : ℤ) (tMsg : Option (LuaTable ν)) :
    Option (List UInt8) :=
  let buf := setUint16 e iProtocol []
  match tMsg with
  | none => some buf
  | some tMsg =>
    match carrier with
    | .struct msgDesp =>
      (msgDesp iProtocol).map fun tStructDesp => (setStruct e N tMsg tStructDesp buf).2
    | .library encode _ =>
      (encode iProtocol tMsg).map fun strMsg => setByte strMsg strMsg.length buf

/-- `parseMsg`, or `none` for an error. -/
def parseMsg (carrier : Carrier ν) (B : ParseBuffer) (iProtocol : ℤ) (iMsgLens cur : ℕ) :
    Option (LuaTable ν) :=
  match carrier with
  | .struct msgDesp =>
    (msgDesp iProtocol).bind fun tStructDesp => (getStruct e N B tStructDesp cur).map Prod.fst
  | .library _ decode => decode iProtocol (getByte B iMsgLens cur).1

/-- `Lua_OnSockRead`: what `onNetEvent` is called with, if it is. -/
def luaOnSockRead (carrier : Carrier ν) (B : ParseBuffer) : Option (ℤ × LuaTable ν) :=
  let iBufferLens := B.data.length % 2 ^ 32
  if iBufferLens < 2 then none
  else
    let (iProtocol, cur) := getUint16 e B 0
    if iBufferLens > 2 then
      (parseMsg e N carrier B iProtocol (iBufferLens - 2) cur).map fun tMsg => (iProtocol, tMsg)
    else some (iProtocol, emptyTable)

/-- `onNetEvent`: the call of the registered function, if there is one. -/
def onNetEvent (netEvent : ℤ → Option κ) (msg : ℤ × LuaTable ν) : Option (κ × LuaTable ν) :=
  (netEvent msg.1).map fun Func => (Func, msg.2)

/-- `CDisposeEvent::onSockRead`, for the memory behind a message: the call it comes to. An error
ends in its handler. -/
def onSockRead (carrier : Carrier ν) (netEvent : ℤ → Option κ)
    (after : List UInt8 → List UInt8) (msg : List UInt8) : Option (κ × LuaTable ν) :=
  if h : msg.length < 2 ^ 64 then
    (luaOnSockRead e N carrier ⟨msg, after msg, h⟩).bind (onNetEvent netEvent)
  else none

/-- The calls that a sequence of messages comes to. -/
def netEvents (carrier : Carrier ν) (netEvent : ℤ → Option κ)
    (after : List UInt8 → List UInt8) (msgs : List (List UInt8)) : List (κ × LuaTable ν) :=
  msgs.filterMap (onSockRead e N carrier netEvent after)

/-! ## One message -/

/-- What becomes of a table on the way. -/
def arrives (carrier : Carrier ν) (iProtocol : ℤ) (tMsg : Option (LuaTable ν)) :
    Option (LuaTable ν) :=
  match tMsg with
  | none => some emptyTable
  | some tMsg =>
    match carrier with
    | .struct msgDesp =>
      (msgDesp iProtocol).map fun tStructDesp =>
        if structWidth tStructDesp = 0 then emptyTable
        else readBackTable N tStructDesp tMsg emptyTable
    | .library encode decode =>
      (encode iProtocol tMsg).bind fun strMsg =>
        if strMsg = [] then some emptyTable else decode iProtocol strMsg

/-- A message that a script may send: where it is carried as a struct, its table is one for the
descriptor. -/
structure Sendable (carrier : Carrier ν) (iProtocol : ℤ) (tMsg : Option (LuaTable ν)) : Prop where
  fits : CInt.unsignedShort.Fits iProtocol
  ok : ∀ msgDesp tStructDesp t, carrier = .struct msgDesp → msgDesp iProtocol = some tStructDesp →
    tMsg = some t → StructOk tStructDesp t false ∧ AllFields NulFree tStructDesp t

variable {e N} {carrier : Carrier ν} {iProtocol : ℤ} {tMsg : Option (LuaTable ν)}

theorem setUint16_eq (iProtocol : ℤ) (buf : List UInt8) :
    setUint16 e iProtocol buf = buf ++ wireBytes .unsignedShort iProtocol := by
  show buf ++ store e _ (ntoh e _ _) = _
  rw [store_ntoh]
  rfl

/-- What `Lua_OnSockRead` makes of a number and the bytes behind it. -/
theorem luaOnSockRead_wireBytes (h : CInt.unsignedShort.Fits iProtocol) {body : List UInt8}
    (hlen : body.length + 2 < 2 ^ 32) {B : ParseBuffer}
    (hB : B.data = wireBytes .unsignedShort iProtocol ++ body) :
    luaOnSockRead e N carrier B
      = if body = [] then some (iProtocol, emptyTable)
        else (parseMsg e N carrier B iProtocol body.length 2).map (iProtocol, ·) := by
  have hdata : B.data.length = body.length + 2 := by
    rw [hB, List.length_append, length_wireBytes, Nat.add_comm]
    rfl
  have hat : B.At 0 (wireBytes .unsignedShort iProtocol) := ⟨[], body, hB, rfl⟩
  have hget : getUint16 e B 0 = (iProtocol, 2) := by
    have hint := getInt_at (e := e) .unsignedShort hat
    rwa [CInt.cast_of_fits h] at hint
  unfold luaOnSockRead
  rw [hdata, Nat.mod_eq_of_lt hlen, hget]
  dsimp only
  rw [if_neg (by omega)]
  by_cases hnil : body = []
  · rw [if_pos hnil, if_neg (by rw [hnil]; decide)]
  · have hpos : 0 < body.length := List.length_pos_iff.mpr hnil
    rw [if_neg hnil, if_pos (by omega), Nat.add_sub_cancel]

/-- **A message that was created is read back.** -/
theorem luaOnSockRead_createMsg (h : Sendable carrier iProtocol tMsg) {buf : List UInt8}
    (hbuf : createMsg e N carrier iProtocol tMsg = some buf) (hlen : buf.length < 2 ^ 32)
    {B : ParseBuffer} (hB : B.data = buf) :
    luaOnSockRead e N carrier B = (arrives N carrier iProtocol tMsg).map (iProtocol, ·) := by
  have hhead : (wireBytes .unsignedShort iProtocol).length = 2 := length_wireBytes _ _
  unfold createMsg at hbuf
  dsimp only at hbuf
  rw [setUint16_eq, List.nil_append] at hbuf
  cases tMsg with
  | none =>
    cases hbuf
    exact luaOnSockRead_wireBytes h.fits (by decide) (hB.trans (List.append_nil _).symm)
  | some t =>
    cases carrier with
    | struct msgDesp =>
      obtain ⟨tStructDesp, hdesp, rfl⟩ := Option.map_eq_some_iff.mp hbuf
      obtain ⟨hok, hnul⟩ := h.ok msgDesp tStructDesp t rfl hdesp rfl
      have hset : setStruct e N t tStructDesp (wireBytes .unsignedShort iProtocol)
          = (true, wireBytes .unsignedShort iProtocol ++ structBytes e N tStructDesp t) :=
        setLoop_of_ok hok _
      rw [hset] at hB hlen
      dsimp only at hB hlen
      rw [List.length_append, hhead] at hlen
      rw [luaOnSockRead_wireBytes h.fits (by omega) hB]
      unfold arrives parseMsg
      dsimp only
      rw [hdesp]
      by_cases hzero : structWidth tStructDesp = 0
      · rw [if_pos ((structBytes_eq_nil hok).mpr hzero)]
        dsimp only [Option.map_some]
        rw [if_pos hzero]
      · have hat : B.At 2 (structBytes e N tStructDesp t) :=
          ⟨wireBytes .unsignedShort iProtocol, [], by rw [hB, List.append_nil], hhead⟩
        rw [if_neg fun hnil => hzero ((structBytes_eq_nil hok).mp hnil)]
        dsimp only [Option.map_some, Option.bind_some]
        rw [if_neg hzero, getStruct, getLoop_at _ hok hnul hat]
        rfl
    | library encode decode =>
      obtain ⟨strMsg, hencode, rfl⟩ := Option.map_eq_some_iff.mp hbuf
      have hset : setByte strMsg strMsg.length (wireBytes .unsignedShort iProtocol)
          = wireBytes .unsignedShort iProtocol ++ strMsg := by
        unfold setByte setVal
        rw [List.take_length]
      rw [hset] at hB hlen
      rw [List.length_append, hhead] at hlen
      rw [luaOnSockRead_wireBytes h.fits (by omega) hB]
      unfold arrives parseMsg
      dsimp only
      rw [hencode]
      dsimp only [Option.bind_some]
      split_ifs with hnil
      · rfl
      · have hat : B.At 2 strMsg :=
          ⟨wireBytes .unsignedShort iProtocol, [], by rw [hB, List.append_nil], hhead⟩
        rw [getByte_at hat]

/-- The call that a message comes to. -/
theorem onSockRead_createMsg (h : Sendable carrier iProtocol tMsg) {buf : List UInt8}
    (hbuf : createMsg e N carrier iProtocol tMsg = some buf) (hlen : buf.length < 2 ^ 32)
    (netEvent : ℤ → Option κ) (after : List UInt8 → List UInt8) :
    onSockRead e N carrier netEvent after buf
      = (arrives N carrier iProtocol tMsg).bind fun t => onNetEvent netEvent (iProtocol, t) := by
  unfold onSockRead
  rw [dif_pos (by omega), luaOnSockRead_createMsg h hbuf hlen rfl, Option.bind_map]
  rfl

end NetMsg

/-! ## The link -/

namespace Worker

open TcpParser

/-- `CSessionManager::sendWebSock`. -/
def sendWebSock (E : Env) (fd : QSock) (data : List UInt8) (W : Worker) : Bool × Worker :=
  let encoded := E.encodeMsg W.ciphers false data
  let W := W.countCipher
  match encoded with
  | none => (false, W)
  | some msg =>
    let W := W.writeBuffer fd (WebSockParser.createHead true .binaryFrame msg.length)
    if msg.length ≠ 0 then (true, W.writeBuffer fd msg) else (true, W)

/-- `CSessionManager::sendToByID`. -/
def sendToByID (E : Env) (iID : QSock) (data : List UInt8) (W : Worker) : Bool × Worker :=
  if iID = invalidSock then (false, W)
  else
    match W.session iID with
    | none => (false, W)
    | some S =>
      match S.type with
      | .debug | .tcpClient | .tcp => sendTcp E iID data W
      | .webSock => sendWebSock E iID data W

/-- The messages that `sendToByID` is called with, one after the other. -/
def sendAll (E : Env) (iID : QSock) (bufs : List (List UInt8)) (W : Worker) : Worker :=
  bufs.foldl (fun W buf => (sendToByID E iID buf W).2) W

/-- The frames of messages, each with what it was encoded to. -/
def encodedCode (w : Width) : FrameCode (List UInt8 × List UInt8) UInt8 where
  enc p := frame w p.2
  enc_ne_nil p := (code w).enc_ne_nil p.2

/-- **What is sent over a link is the frames of what the messages are encoded to.** -/
theorem sendAll_output {E : Env} {iID : QSock} (hid : iID ≠ invalidSock) {bufs : List (List UInt8)}
    (henc : ∀ buf ∈ bufs, ∀ n, ∃ out, E.encodeMsg n true buf = some out) {W : Worker} {S : Session}
    (hS : W.session iID = some S) (htype : S.type = .tcpClient) :
    ∃ sent, sent.map Prod.fst = bufs
      ∧ (∀ p ∈ sent, ∃ n, E.encodeMsg n true p.1 = some p.2)
      ∧ (sendAll E iID bufs W).session iID
        = some { S with output := S.output ++ (encodedCode E.width).encAll sent } := by
  induction bufs generalizing W S with
  | nil => exact ⟨[], rfl, fun p hp => absurd hp List.not_mem_nil, by
      rw [FrameCode.encAll_nil, List.append_nil]; exact hS⟩
  | cons buf bufs ih =>
    obtain ⟨out, hout⟩ := henc buf List.mem_cons_self W.ciphers
    have hlink : svLink S = true := decide_eq_true htype
    obtain ⟨W', hsend, hS'⟩ := sendTcp_frame E hS buf (hlink.symm ▸ hout)
    have hstep : (sendToByID E iID buf W).2 = W' := by
      unfold sendToByID
      rw [if_neg hid, hS]
      dsimp only
      rw [htype]
      dsimp only
      rw [hsend]
    obtain ⟨sent, hbufs, hsent, hend⟩ :=
      ih (fun b hb => henc b (List.mem_cons_of_mem _ hb)) hS' htype
    refine ⟨(buf, out) :: sent, by rw [List.map_cons, hbufs], fun p hp => ?_, ?_⟩
    · rcases List.mem_cons.mp hp with rfl | hp
      · exact ⟨_, hout⟩
      · exact hsent p hp
    · unfold sendAll
      rw [List.foldl_cons, hstep, FrameCode.encAll_cons, ← List.append_assoc]
      exact hend

section Link

variable {E : Env} {h : Handler} {fd : QSock} {conn : ℕ} {before : List (List UInt8)}

/-- The session of `fd` is an open link of the connection `conn` with the unread bytes `buf`, and
the messages handed over since `before` are `msgs`. -/
def LinkAt (fd : QSock) (conn : ℕ) (before msgs : List (List UInt8)) (buf : List UInt8)
    (W : Worker) : Prop :=
  ∃ S, W.session fd = some S ∧ S.type = .tcpClient ∧ S.conn = conn ∧ S.status ≠ .closed
    ∧ S.input = buf ∧ delivered conn W.log = before ++ msgs

/-- A frame that can be read and decoded. -/
def Readable (E : Env) (p : List UInt8 × List UInt8) : Prop :=
  (frame E.width p.2).length < 2 ^ 32 ∧ ∀ n, E.decodeMsg n true p.2 = some p.1

/-- **A round on a complete frame hands over its message decoded.** -/
theorem dispTcpBody_encoded (hkeep : ∀ log s msg, fd ∉ h log s msg) {msgs : List (List UInt8)}
    {p : List UInt8 × List UInt8} (hp : Readable E p) {rest : List UInt8} {W : Worker}
    (hW : LinkAt fd conn before msgs (frame E.width p.2 ++ rest) W) :
    ∃ W', dispTcpBody E h fd W = .next W'
      ∧ LinkAt fd conn before (msgs ++ [p.1]) rest W' := by
  obtain ⟨S, hS, htype, hconn, hopen, hinput, hlog⟩ := hW
  have hlink : svLink S = true := decide_eq_true htype
  have hnotDebug : S.type ≠ .debug := by
    rw [htype]
    decide
  obtain ⟨hses, -, hdel⟩ :=
    onSockRead_keeps (W.countCipher.emit (.payload S.conn p.1)) S p.1 hkeep
  have hcall : dispCall S = .sockRead S.conn := if_neg hnotDebug
  have hgive : W.give h fd S.conn (dispCall S) p.1 (some p.1)
      = (W.countCipher.emit (.payload S.conn p.1)).onSockRead h fd S p.1 := by
    rw [hcall]
    rfl
  have hS₁ : (W.give h fd S.conn (dispCall S) p.1 (some p.1)).session fd = some S := by
    rw [hgive, hses]
    exact hS
  refine ⟨(W.give h fd S.conn (dispCall S) p.1 (some p.1)).delBuffer fd
    (frame E.width p.2).length, ?_, ?_⟩
  · rw [dispTcpBody_of_session hS, hinput, parsePack_frame E.width E.stray p.2 rest hp.1]
    dsimp only
    rw [hlink, hp.2]
    dsimp only
    rw [if_pos (by rw [status_of_session hS₁]; exact hopen)]
  · rw [delBuffer_of_session hS₁]
    refine ⟨_, session_setSession_same _ _ _, htype, hconn, hopen, ?_, ?_⟩
    · show S.input.drop _ = rest
      rw [hinput, List.drop_left]
    · have hlog₀ : delivered S.conn (W.countCipher.emit (.payload S.conn p.1)).log
          = delivered S.conn W.log := (delivered_append _ _ _).trans (List.append_nil _)
      rw [log_setSession, hgive, ← hconn, hdel, hlog₀, hconn, hlog, List.append_assoc]

/-- The loop of `dispTcp` reads the frames of a link. -/
theorem dispTcp_reads_encoded (hkeep : ∀ log s msg, fd ∉ h log s msg) :
    (encodedCode E.width).Reads (dispTcpBody E h fd) (fun msgs p => msgs ++ [p.1])
      (fun _ ps => ∀ p ∈ ps, Readable E p) (LinkAt fd conn before) where
  frame msgs p _ rest W hv hW := dispTcpBody_encoded hkeep (hv p List.mem_cons_self) hW
  valid _ _ _ hv p hp := hv p (List.mem_cons_of_mem _ hp)
  part msgs todo rest W hv hp hW := by
    have hparse : parsePack E.width E.stray rest = none := by
      cases todo with
      | nil =>
        rw [show rest = [] from hp]
        rfl
      | cons p todo =>
        exact parsePack_part E.width E.stray p.2 (hv p List.mem_cons_self).1 hp.1 hp.2
    obtain ⟨S, hS, -, -, -, hinput, -⟩ := id hW
    refine ⟨W, ?_, hW⟩
    rw [dispTcpBody_of_session hS, hinput, hparse]

/-- **Over a link the messages arrive that were encoded**, however the bytes are cut. -/
theorem dispTcp_chunks_encoded (hkeep : ∀ log s msg, fd ∉ h log s msg) {W : Worker} {S : Session}
    (hS : W.session fd = some S) (htype : S.type = .tcpClient) (hopen : S.status ≠ .closed)
    (hinput : S.input = []) {sent : List (List UInt8 × List UInt8)}
    (hsent : ∀ p ∈ sent, Readable E p) {chunks : List (List UInt8)}
    (hcut : chunks.flatten <+: (encodedCode E.width).encAll sent) :
    ∃ done todo, sent = done ++ todo
      ∧ delivered S.conn
          (chunks.foldl (fun W chunk => dispTcp E h fd (W.arrive fd chunk)) W).log
        = delivered S.conn W.log ++ done.map Prod.fst
      ∧ (chunks.flatten = (encodedCode E.width).encAll sent → todo = []) := by
  obtain ⟨done, todo, rest, hfs, hbytes, hpart, S', -, -, -, -, -, hlog⟩ :=
    (dispTcp_reads_encoded hkeep).feed_chunks
      (fun W chunk => dispTcp E h fd (W.arrive fd chunk))
      (by
        rintro msgs buf W chunk ⟨S, hS, htype, hconn, hopen, hbuf, hlog⟩
        refine ⟨_, W.arrive fd chunk, ?_, ?_, rfl⟩
        · rw [pending, arrive_of_session hS, session_setSession_same, hbuf]
          exact Nat.lt_succ_self _
        · rw [arrive_of_session hS]
          exact ⟨_, session_setSession_same _ _ _, htype, hconn, hopen, by rw [hbuf], hlog⟩)
      [] sent W chunks hsent ⟨S, hS, htype, rfl, hopen, hinput, (List.append_nil _).symm⟩ hcut
  refine ⟨done, todo, hfs, ?_, fun hall => ?_⟩
  · have hfold : done.foldl (fun msgs p => msgs ++ [p.1]) [] = done.map Prod.fst := by
      rw [← List.foldl_map (f := Prod.fst) (g := fun (msgs : List (List UInt8)) m => msgs ++ [m]),
        List.foldl_append_eq_append, List.nil_append]
      exact List.flatMap_singleton' _
    rw [hlog, hfold]
  · exact ((encodedCode E.width).partial_complete (hfs ▸ hall.symm.trans hbytes) hpart).1

end Link

end Worker

/-! ## Both servers -/

namespace CommEncrypt

/-- The worker's cipher calls are those of a `CCommEncrypt` with the two lists of types, whatever
it was called with before. -/
def Runs (C : Stages) (client server : List EncryptType) (E : Env) : Prop :=
  ∃ S : ℕ → CommEncrypt,
    (∀ n, (S n).clinetType = client ∧ (S n).svLinkType = server)
      ∧ (∀ n bSVLink msg, E.encode n bSVLink msg = ((S n).encode C msg bSVLink).1)
      ∧ ∀ n bSVLink msg, E.decode n bSVLink msg = ((S n).decode C msg bSVLink).1

/-- What a message is encoded to on a link between servers. -/
def linkEncode (C : Stages) (server : List EncryptType) (msg : List UInt8) : Option (List UInt8) :=
  if msg = [] then some [] else composeStages (C.encodeStage true) server msg

variable {C : PeerStages} {client server : List EncryptType} {E : Env}

theorem Runs.encodeMsg (h : Runs C.toStages client server E) (hlists : client = [] ↔ server = [])
    (n : ℕ) (msg : List UInt8) : E.encodeMsg n true msg = linkEncode C.toStages server msg := by
  obtain ⟨S, hS, henc, -⟩ := h
  have htypes : (S n).types true = server := (hS n).2
  unfold Env.encodeMsg linkEncode
  split_ifs with hnil
  · rfl
  · rw [henc, encode, htypes, crypt_eq _ _ _ (by rw [(hS n).1]; exact hlists.symm), if_neg hnil]

/-- **What a server has encoded the other decodes**, whatever they have done before. -/
theorem Runs.decodeMsg (hC : C.Lawful) (h : Runs C.toStages client server E)
    (hlists : client = [] ↔ server = []) {msg out : List UInt8}
    (hout : linkEncode C.toStages server msg = some out) (n : ℕ) :
    E.decodeMsg n true out = some msg := by
  obtain ⟨S, hS, -, hdec⟩ := h
  have htypes : (S n).types true = server := (hS n).2
  have hundo := undo_of_undoes hC.svLink hout
  unfold Env.decodeMsg
  split_ifs at hundo ⊢ with hnil
  · exact hundo
  · rw [hdec, decode, htypes, crypt_eq _ _ _ (List.reverse_eq_nil_iff.trans
      (by rw [(hS n).1]; exact hlists.symm)), if_neg hnil]
    exact hundo

end CommEncrypt

namespace NetMsg

open Worker TcpParser

variable {ν κ : Type*}

/-- A message of a run: its protocol, its table, what `createMsg` makes of these, and what that is
encoded to. -/
structure Message (e : Endian) (N : LuaNumber ν) (carrier : Carrier ν) (C : Stages)
    (server : List EncryptType) (w : Width) where
  iProtocol : ℤ
  tMsg : Option (LuaTable ν)
  buf : List UInt8
  out : List UInt8
  sendable : Sendable carrier iProtocol tMsg
  createMsg_eq : createMsg e N carrier iProtocol tMsg = some buf
  linkEncode_eq : CommEncrypt.linkEncode C server buf = some out
  length_buf : buf.length < 2 ^ 32
  length_frame : (frame w out).length < 2 ^ 32

/-- Each message of a run is sent as what it is encoded to. -/
theorem eq_map_of_encoded {e : Endian} {N : LuaNumber ν} {carrier : Carrier ν} {C : Stages}
    {server : List EncryptType} {w : Width} {msgs : List (Message e N carrier C server w)}
    {sent : List (List UInt8 × List UInt8)} (hbufs : sent.map Prod.fst = msgs.map (·.buf))
    (hsent : ∀ p ∈ sent, CommEncrypt.linkEncode C server p.1 = some p.2) :
    sent = msgs.map fun m => (m.buf, m.out) := by
  induction msgs generalizing sent with
  | nil => exact List.map_eq_nil_iff.mp hbufs
  | cons m msgs ih =>
    cases sent with
    | nil => cases hbufs
    | cons p sent =>
      obtain ⟨hfst, htail⟩ := List.cons.inj hbufs
      have hsnd := hsent p List.mem_cons_self
      rw [hfst, m.linkEncode_eq] at hsnd
      rw [List.map_cons, ← ih htail fun q hq => hsent q (List.mem_cons_of_mem _ hq)]
      exact congrArg (· :: sent) (Prod.ext hfst (Option.some.inj hsnd).symm)

/-- The calls that the messages of a run come to. -/
theorem netEvents_bufs {e : Endian} {N : LuaNumber ν} {carrier : Carrier ν} {C : Stages}
    {server : List EncryptType} {w : Width} (netEvent : ℤ → Option κ)
    (after : List UInt8 → List UInt8) (msgs : List (Message e N carrier C server w)) :
    netEvents e N carrier netEvent after (msgs.map (·.buf))
      = msgs.filterMap fun m => (arrives N carrier m.iProtocol m.tMsg).bind
          fun t => onNetEvent netEvent (m.iProtocol, t) := by
  unfold netEvents
  rw [List.filterMap_map]
  refine List.filterMap_congr fun m _ => ?_
  exact onSockRead_createMsg m.sendable m.createMsg_eq m.length_buf netEvent after

/-- **From script to script.** One server sends messages over a link, and the other, whose scripts
keep the link, gets the bytes in any chunks. Then it has called the registered functions
with the first of the messages, in their order and each once, and with all of them when it has
all the bytes. -/
theorem netEvents_eq {e : Endian} {N : LuaNumber ν} {carrier : Carrier ν} {C : PeerStages}
    (hC : C.Lawful) {client server : List EncryptType} (hlists : client = [] ↔ server = [])
    {E E' : Env} (hE : CommEncrypt.Runs C.toStages client server E)
    (hE' : CommEncrypt.Runs C.toStages client server E') (hwidth : E'.width = E.width)
    {W : Worker} {iID : QSock} (hid : iID ≠ invalidSock) {S : Session}
    (hS : W.session iID = some S) (htype : S.type = .tcpClient)
    {h : Handler} {fd : QSock} (hkeep : ∀ log s msg, fd ∉ h log s msg) {W' : Worker} {S' : Session}
    (hS' : W'.session fd = some S') (htype' : S'.type = .tcpClient) (hopen : S'.status ≠ .closed)
    (hinput : S'.input = []) (netEvent : ℤ → Option κ) (after : List UInt8 → List UInt8)
    (msgs : List (Message e N carrier C.toStages server E.width)) :
    ∃ stream, (sendAll E iID (msgs.map (·.buf)) W).session iID
        = some { S with output := S.output ++ stream }
      ∧ ∀ chunks : List (List UInt8), chunks.flatten <+: stream →
        ∃ done todo, msgs = done ++ todo
          ∧ netEvents e N carrier netEvent after (delivered S'.conn
              (chunks.foldl (fun W chunk => dispTcp E' h fd (W.arrive fd chunk)) W').log)
            = netEvents e N carrier netEvent after (delivered S'.conn W'.log)
              ++ done.filterMap (fun m => (arrives N carrier m.iProtocol m.tMsg).bind
                  fun t => onNetEvent netEvent (m.iProtocol, t))
          ∧ (chunks.flatten = stream → todo = []) := by
  have henc : ∀ buf ∈ msgs.map (·.buf), ∀ n, ∃ out, E.encodeMsg n true buf = some out := by
    intro buf hbuf n
    obtain ⟨m, -, rfl⟩ := List.mem_map.mp hbuf
    exact ⟨m.out, (hE.encodeMsg hlists n m.buf).trans m.linkEncode_eq⟩
  obtain ⟨sent, hbufs, hsent, hout⟩ := sendAll_output hid henc hS htype
  have hpairs : sent = msgs.map fun m => (m.buf, m.out) :=
    eq_map_of_encoded hbufs fun p hp => by
      obtain ⟨n, hn⟩ := hsent p hp
      rw [← hE.encodeMsg hlists n p.1, hn]
  have hread : ∀ p ∈ sent, Readable E' p := by
    intro p hp
    rw [hpairs] at hp
    obtain ⟨m, -, rfl⟩ := List.mem_map.mp hp
    exact ⟨hwidth.symm ▸ m.length_frame, hE'.decodeMsg hC hlists m.linkEncode_eq⟩
  refine ⟨_, hout, fun chunks hcut => ?_⟩
  have hstream : (encodedCode E.width).encAll sent = (encodedCode E'.width).encAll sent := by
    rw [hwidth]
  rw [hstream] at hcut ⊢
  obtain ⟨done, todo, hcuts, hlog, hall⟩ :=
    dispTcp_chunks_encoded hkeep hS' htype' hopen hinput hread hcut
  obtain ⟨done', todo', rfl, rfl, rfl⟩ := List.map_eq_append_iff.mp (hpairs.symm.trans hcuts)
  refine ⟨done', todo', rfl, ?_, fun heq => List.map_eq_nil_iff.mp (hall heq)⟩
  have hfst : (done'.map fun m => (m.buf, m.out)).map Prod.fst = done'.map (·.buf) := by
    rw [List.map_map]
    rfl
  rw [hlog, hfst, ← netEvents_bufs netEvent after done']
  exact List.filterMap_append

/-- `SS_Link`. -/
def SS_Link : StructAttr := .cons (ascii "strName") .string 64 true .nil .nil

/-- Messages as structs, of which `SYS_RegLinkOther` is described. -/
def linkCarrier : Carrier PlainNumber :=
  .struct fun iProtocol => if iProtocol = 2 then some SS_Link else none

/-- What the messages of the run below are as `createMsg` makes them, and what zlib makes of these:
the registrations of two servers, and between them a message without a table. -/
def compressed : List (List UInt8 × List UInt8) :=
  [([0, 2, 100, 98] ++ List.replicate 62 0,
      [120, 156, 99, 96, 74, 73, 98, 160, 8, 0, 0, 49, 226, 0, 201]),
    ([0, 1], [120, 156, 99, 96, 4, 0, 0, 3, 0, 2]),
    ([0, 2, 119, 101, 98] ++ List.replicate 61 0,
      [120, 156, 99, 96, 42, 79, 77, 98, 160, 4, 0, 0, 79, 27, 1, 65])]

/-- zlib on these; the other stages have no key and fail. -/
def zlibStages : PeerStages where
  aesEncode _ := none
  aesDecode _ := none
  privateKeyEncrypt _ := none
  publicKeyEncrypt _ := none
  publicKeyDecrypt _ := none
  privateKeyDecrypt _ := none
  zlibCompress msg := (compressed.find? fun p => p.1 = msg).map Prod.snd
  zlibDecompression out := (compressed.find? fun p => p.2 = out).map Prod.fst

theorem lawful_zlibStages : zlibStages.Lawful where
  aes := nofun
  rsaPublic := nofun
  rsaPrivate := nofun
  zlib msg out _ henc := by
    have hall : ∀ p ∈ compressed, p.2 ≠ []
        ∧ (compressed.find? fun q => q.2 = p.2).map Prod.fst = some p.1 := by decide
    obtain ⟨p, hp, rfl⟩ := Option.map_eq_some_iff.mp henc
    have hfirst := List.find?_some hp
    rw [decide_eq_true_eq] at hfirst
    rw [← hfirst]
    exact hall p (List.mem_of_find?_eq_some hp)

/-- A worker whose `CCommEncrypt` compresses what goes to another server, and to a client. -/
def zlibEnv : Env where
  width := .bits64
  stray := []
  encode _ bSVLink msg :=
    (CommEncrypt.encode zlibStages.toStages msg bSVLink ⟨[.zlib], [.zlib], []⟩).1
  decode _ bSVLink msg :=
    (CommEncrypt.decode zlibStages.toStages msg bSVLink ⟨[.zlib], [.zlib], []⟩).1
  shakeHands _ := .more

theorem runs_zlibEnv : CommEncrypt.Runs zlibStages.toStages [.zlib] [.zlib] zlibEnv :=
  ⟨fun _ => ⟨[.zlib], [.zlib], []⟩, fun _ => ⟨rfl, rfl⟩, fun _ _ _ => rfl, fun _ _ _ => rfl⟩

/-- The registration of a server under a name. -/
def regLinkOther (strName buf out : List UInt8) (hname : strName.length < 64 ∧ 0 ∉ strName)
    (hbuf : createMsg .little plainNumbers linkCarrier 2 (some fun _ => .string strName) = some buf)
    (hout : CommEncrypt.linkEncode zlibStages.toStages [.zlib] buf = some out)
    (hlens : buf.length < 2 ^ 32 ∧ (frame .bits64 out).length < 2 ^ 32) :
    Message .little plainNumbers linkCarrier zlibStages.toStages [.zlib] .bits64 where
  iProtocol := 2
  tMsg := some fun _ => .string strName
  buf := buf
  out := out
  sendable := by
    refine ⟨by decide, fun msgDesp tStructDesp t hcarrier hdesp ht => ?_⟩
    cases hcarrier
    cases ht
    obtain rfl : SS_Link = tStructDesp := Option.some.inj hdesp
    exact ⟨⟨⟨_, rfl, Int.ofNat_lt.mpr hname.1⟩, trivial⟩, ⟨fun _ => hname.2, trivial⟩⟩
  createMsg_eq := hbuf
  linkEncode_eq := hout
  length_buf := hlens.1
  length_frame := hlens.2

/-- A message without a table. -/
def protocolOnly :
    Message .little plainNumbers linkCarrier zlibStages.toStages [.zlib] .bits64 where
  iProtocol := 1
  tMsg := none
  buf := [0, 1]
  out := [120, 156, 99, 96, 4, 0, 0, 3, 0, 2]
  sendable := ⟨by decide, nofun⟩
  createMsg_eq := rfl
  linkEncode_eq := rfl
  length_buf := by decide
  length_frame := by decide

/-- The three messages. -/
def linkMsgs :
    List (Message .little plainNumbers linkCarrier zlibStages.toStages [.zlib] .bits64) :=
  [regLinkOther (ascii "db") ([0, 2, 100, 98] ++ List.replicate 62 0)
      [120, 156, 99, 96, 74, 73, 98, 160, 8, 0, 0, 49, 226, 0, 201] (by decide) rfl rfl (by decide),
    protocolOnly,
    regLinkOther (ascii "web") ([0, 2, 119, 101, 98] ++ List.replicate 61 0)
      [120, 156, 99, 96, 42, 79, 77, 98, 160, 4, 0, 0, 79, 27, 1, 65] (by decide) rfl rfl
      (by decide)]

/-- The bytes of their frames, in chunks that end within frames and behind a head. -/
def linkChunks : List (List UInt8) :=
  [[15, 120, 156, 99, 96, 74, 73, 98], [160, 8, 0, 0, 49, 226, 0, 201, 10],
    [120, 156, 99, 96, 4, 0, 0, 3, 0, 2, 16, 120],
    [156, 99, 96, 42, 79, 77, 98, 160, 4, 0, 0, 79, 27, 1, 65]]

/-- The functions are called for the three messages, in their order: those of the registrations
with the names, and that of the other with no name. -/
theorem netEvents_linkMsgs :
    (netEvents .little plainNumbers linkCarrier
        (fun iProtocol => if iProtocol = 1 ∨ iProtocol = 2 then some iProtocol else none)
        (fun _ => [])
        (delivered 0 (linkChunks.foldl
          (fun W chunk => dispTcp zlibEnv (fun _ _ _ => []) 5 (W.arrive 5 chunk))
          (start.setSession 5 ⟨.tcpClient, .linked, 0, [], [], 0⟩)).log)).map
        (fun call => (call.1, fieldString (call.2 (ascii "strName"))))
      = [(2, ascii "db"), (1, []), (2, ascii "web")] := by
  have hsession (sock : QSock) :
      (start.setSession sock ⟨.tcpClient, .linked, 0, [], [], 0⟩).session sock
        = some ⟨.tcpClient, .linked, 0, [], [], 0⟩ := session_setSession_same _ _ _
  have hkeep : ∀ (log : List Event) (s : QSock) (msg : List UInt8),
      (5 : QSock) ∉ (fun _ _ _ => [] : Handler) log s msg := fun _ _ _ => List.not_mem_nil
  obtain ⟨stream, hout, hcalls⟩ := netEvents_eq lawful_zlibStages Iff.rfl runs_zlibEnv
    runs_zlibEnv rfl (by decide) (hsession 3) rfl hkeep (hsession 5) rfl (by decide) rfl
    (fun iProtocol => if iProtocol = 1 ∨ iProtocol = 2 then some iProtocol else none) (fun _ => [])
    linkMsgs
  have hstream : linkChunks.flatten = stream :=
    congrArg (fun S : Option Session => (S.map Session.output).getD []) hout
  obtain ⟨done, todo, hmsgs, hlog, hall⟩ := hcalls linkChunks (by rw [hstream])
  obtain rfl := hall hstream
  rw [List.append_nil] at hmsgs
  rw [hlog, ← hmsgs]
  decide +kernel

end NetMsg
