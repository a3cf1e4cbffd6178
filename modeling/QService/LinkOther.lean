import QService.Handles
import QService.Runs
import QService.Session

/-!
# Links to other servers

`CLinkOther` keeps a table of the servers this one connects to. A thread of its
own walks the table, connects every entry that is closed, and sends the socket
to the worker. The worker sets the session up, and reports what becomes of the
connection under its socket (`setSockStatus`). Messages go to a server by its
name: the socket that its entry records is where they are written.

Two threads, the table behind a mutex, and the system, which hands out the
number of a closed socket again, are one `LinkWorld`. Its steps are the places
where the threads can alternate: one entry of a pass, one call with the mutex
held, one close. `Move` says what a step can do, and `Sound` where each
connection is in every run (`Sound.of_reach`).

An entry records the socket of its last connection, and nothing takes it out
when the connection ends. What follows from this for the names is in
`QService.LinkNames`, and for the status of the links in `QService.LinkStatus`.
-/

/-- An entry of `m_vcLinkInfo`. -/
structure LinkInfo where
  emStatus : SessionStatus
  usPort : UInt16
  sock : QSock
  strIp : List UInt8
  strName : List UInt8
  deriving DecidableEq, Repr

/-- How the worker's set-up of a link comes out: `bufferevent_socket_new` gives NULL,
a later step fails, or none does. -/
inductive LinkSetUp
  | noBuffer
  | failed
  | ok
  deriving DecidableEq, Repr

/-- What the worker has still to do. -/
inductive Doing
  | idle
  /-- A link is being set up; its status is to be reported. -/
  | assist (fd : QSock) (conn : ℕ) (o : LinkSetUp)
  /-- A session of type `STYPE_TCPCLIENT` ends; this is to be reported. -/
  | ending (fd : QSock) (conn : ℕ)
  /-- `bufferevent_free` is to close the socket. -/
  | closing (fd : QSock) (conn : ℕ)
  deriving DecidableEq, Repr

/-- A call of `setSockStatus` by the worker, for a connection, and the entry that it
changed. -/
structure StatusCall where
  conn : ℕ
  sock : QSock
  changed : Option ℕ
  deriving DecidableEq, Repr

/-- The link table, the worker and the sockets of the system. -/
structure LinkWorld where
  /-- `m_vcLinkInfo`. -/
  links : List LinkInfo
  /-- The entry a pass has come to; it holds the mutex. -/
  pass : Option ℕ
  /-- The messages from the link thread to the worker. -/
  assist : List (QSock × ℕ)
  /-- The messages from the listening thread to the worker. -/
  main : List (QSock × ℕ × SessionType)
  /-- `m_umapSession`. -/
  session : QSock → Option (ℕ × SessionType)
  worker : Doing
  /-- Which connection has a socket. -/
  owner : QSock → Option ℕ
  /-- The entry for which a connection was opened, if `Link` opened it. -/
  opened : ℕ → Option ℕ
  /-- The number of connections so far. -/
  conns : ℕ
  calls : List StatusCall

namespace LinkWorld

/-- Before the first entry. -/
def start : LinkWorld :=
  ⟨[], none, [], [], fun _ => none, .idle, fun _ => none, fun _ => none, 0, []⟩

/-- The entry that `setSockStatus` and nothing else is about: the first one with the
socket. -/
def find (links : List LinkInfo) (sock : QSock) : Option ℕ :=
  if sock = invalidSock then none else links.findIdx? fun l => l.sock = sock

/-- The loop of `CLinkOther::setSockStatus`. -/
def setStatus (links : List LinkInfo) (sock : QSock) (emStatus : SessionStatus) : List LinkInfo :=
  match find links sock with
  | none => links
  | some i => links.modify i fun l => { l with emStatus := emStatus }

/-- `CLinkOther::setSockStatus`, called by the worker for a connection. -/
def setSockStatus (S : LinkWorld) (sock : QSock) (conn : ℕ) (emStatus : SessionStatus) :
    LinkWorld :=
  { S with
    links := setStatus S.links sock emStatus
    calls := S.calls ++ [⟨conn, sock, find S.links sock⟩] }

/-- `CLinkOther::getSockByName`. -/
def getSockByName (S : LinkWorld) (pszName : List UInt8) : QSock :=
  match S.links.find? fun l => l.strName = pszName with
  | none => invalidSock
  | some l => l.sock

/-- The connection whose session `sendToName` writes to, through `getLinkOtherID` and
`sendToByID`. -/
def sendToName (S : LinkWorld) (strName : List UInt8) : Option ℕ :=
  if S.getSockByName strName = invalidSock then none
  else (S.session (S.getSockByName strName)).map Prod.fst

/-- `CLinkOther::addHost`. -/
def addHost (S : LinkWorld) (pszIp : List UInt8) (usPort : UInt16) (pszName : List UInt8) :
    LinkWorld :=
  if S.links.any fun l => l.strName = pszName then S
  else { S with links := S.links ++ [⟨.closed, usPort, invalidSock, pszIp, pszName⟩] }

/-- An entry is connected: its socket is sent to the worker, and the entry records it. It
is written before the worker can ask for it, as the mutex is held. -/
def connect (S : LinkWorld) (i : ℕ) (l : LinkInfo) (sok : QSock) : LinkWorld :=
  { S with
    pass := some (i + 1)
    links := S.links.set i { l with emStatus := .connect, sock := sok }
    assist := S.assist ++ [(sok, S.conns)]
    owner := Function.update S.owner sok (some S.conns)
    opened := Function.update S.opened S.conns (some i)
    conns := S.conns + 1 }

/-- The loop of `CLinkOther::Link` comes to its next entry. The argument is the socket
that `initSock` gives if the entry is to be connected, and whether it can be
sent to the worker; otherwise it is closed at once. -/
def visit (S : LinkWorld) (o : Option (QSock × Bool)) : LinkWorld :=
  match S.pass with
  | none => S
  | some i =>
    match S.links[i]?, o with
    | none, _ => S
    | some l, some (sok, true) =>
      if l.emStatus ≠ .closed then { S with pass := some (i + 1) } else S.connect i l sok
    | some _, _ => { S with pass := some (i + 1) }

/-- A listening socket accepts a connection and sends it to the worker. -/
def accept (S : LinkWorld) (fd : QSock) (emType : SessionType) : LinkWorld :=
  { S with
    main := S.main ++ [(fd, S.conns, emType)]
    owner := Function.update S.owner fd (some S.conns)
    conns := S.conns + 1 }

/-- A round of `CWorkThreadEvent::onMainRead`. -/
def onMainRead (S : LinkWorld) : LinkWorld :=
  match S.worker, S.main with
  | .idle, (fd, conn, emType) :: main =>
    { S with main := main, session := Function.update S.session fd (some (conn, emType)) }
  | _, _ => S

/-- A round of `CWorkThreadEvent::onAssistRead`, up to the call of `setSockStatus` that
every path of it makes. -/
def onAssistRead (S : LinkWorld) (o : LinkSetUp) : LinkWorld :=
  match S.worker, S.assist with
  | .idle, (fd, conn) :: assist => { S with assist := assist, worker := .assist fd conn o }
  | _, _ => S

/-- A session ends, in `workThreadEventCB` or `closeLinkByID`, up to the call of
`setSockStatus` if its type asks for one. -/
def close (S : LinkWorld) (fd : QSock) : LinkWorld :=
  match S.worker, S.session fd with
  | .idle, some (conn, .tcpClient) => { S with worker := .ending fd conn }
  | .idle, some (conn, _) =>
    { S with session := Function.update S.session fd none, worker := .closing fd conn }
  | _, _ => S

/-- The worker calls `setSockStatus`, which needs the mutex, and goes on. A socket
without a `bufferevent` is not closed by anybody. -/
def report (S : LinkWorld) : LinkWorld :=
  match S.pass, S.worker with
  | none, .assist fd conn .noBuffer =>
    { S.setSockStatus fd conn .closed with worker := .idle }
  | none, .assist fd conn .failed =>
    { S.setSockStatus fd conn .closed with worker := .closing fd conn }
  | none, .assist fd conn .ok =>
    { S.setSockStatus fd conn .linked with
      session := Function.update S.session fd (some (conn, .tcpClient))
      worker := .idle }
  | none, .ending fd conn =>
    { S.setSockStatus fd conn .closed with
      session := Function.update S.session fd none
      worker := .closing fd conn }
  | _, _ => S

/-- `bufferevent_free` closes the socket. -/
def free (S : LinkWorld) : LinkWorld :=
  match S.worker with
  | .closing fd _ => { S with owner := Function.update S.owner fd none, worker := .idle }
  | _ => S

/-- A step of one of the threads. -/
inductive Step
  | addHost (pszIp : List UInt8) (usPort : UInt16) (pszName : List UInt8)
  | lock
  | visit (o : Option (QSock × Bool))
  | unlock
  | accept (fd : QSock) (emType : SessionType)
  | onMainRead
  | onAssistRead (o : LinkSetUp)
  | close (fd : QSock)
  | report
  | free

/-- The state after a step. A step that has to wait changes nothing. -/
def step (S : LinkWorld) : Step → LinkWorld
  | .addHost pszIp usPort pszName =>
    if S.pass = none then S.addHost pszIp usPort pszName else S
  | .lock => if S.pass = none then { S with pass := some 0 } else S
  | .visit o => S.visit o
  | .unlock => if S.pass = some S.links.length then { S with pass := none } else S
  | .accept fd emType => S.accept fd emType
  | .onMainRead => S.onMainRead
  | .onAssistRead o => S.onAssistRead o
  | .close fd => S.close fd
  | .report => S.report
  | .free => S.free

/-- The system hands out a socket only when nobody has it. -/
def Enabled (S : LinkWorld) : Step → Prop
  | .visit (some (fd, _)) => fd ≠ invalidSock ∧ S.owner fd = none
  | .accept fd _ => fd ≠ invalidSock ∧ S.owner fd = none
  | _ => True

instance (S : LinkWorld) : DecidablePred S.Enabled
  | .visit (some (fd, _)) | .accept fd _ =>
    inferInstanceAs (Decidable (fd ≠ invalidSock ∧ S.owner fd = none))
  | .visit none | .addHost .. | .lock | .unlock | .onMainRead | .onAssistRead _ | .close _
  | .report | .free => .isTrue trivial

/-- The connection waits for the worker, is being set up, or has a session. -/
def Live (S : LinkWorld) (fd : QSock) (c : ℕ) : Prop :=
  (fd, c) ∈ S.assist ∨ (∃ o, S.worker = .assist fd c o) ∨ ∃ t, S.session fd = some (c, t)

/-! ## What a step can do -/

/-- What a step can do to the state. -/
inductive Move (S : LinkWorld) : Step → LinkWorld → Prop
  /-- Nothing, or the pass goes on. -/
  | pass (i : Step) (p : Option ℕ) : Move S i { S with pass := p }
  | addHost (pszIp : List UInt8) (usPort : UInt16) (pszName : List UInt8)
      (hnew : ∀ l ∈ S.links, l.strName ≠ pszName) :
      Move S (.addHost pszIp usPort pszName)
        { S with links := S.links ++ [⟨.closed, usPort, invalidSock, pszIp, pszName⟩] }
  | connect {i : ℕ} {l : LinkInfo} (sok : QSock) (hp : S.pass = some i)
      (hl : S.links[i]? = some l) (hc : l.emStatus = .closed) :
      Move S (.visit (some (sok, true))) (S.connect i l sok)
  | accept (fd : QSock) (emType : SessionType) : Move S (.accept fd emType) (S.accept fd emType)
  | onMainRead {fd : QSock} {conn : ℕ} {emType : SessionType}
      {main : List (QSock × ℕ × SessionType)} (hw : S.worker = .idle)
      (hm : S.main = (fd, conn, emType) :: main) :
      Move S .onMainRead
        { S with main := main, session := Function.update S.session fd (some (conn, emType)) }
  | onAssistRead {fd : QSock} {conn : ℕ} {assist : List (QSock × ℕ)} (o : LinkSetUp)
      (hw : S.worker = .idle) (ha : S.assist = (fd, conn) :: assist) :
      Move S (.onAssistRead o) { S with assist := assist, worker := .assist fd conn o }
  | ending {fd : QSock} {conn : ℕ} (hw : S.worker = .idle)
      (hs : S.session fd = some (conn, .tcpClient)) :
      Move S (.close fd) { S with worker := .ending fd conn }
  | close {fd : QSock} {conn : ℕ} {t : SessionType} (hw : S.worker = .idle)
      (hs : S.session fd = some (conn, t)) (ht : t ≠ .tcpClient) :
      Move S (.close fd)
        { S with session := Function.update S.session fd none, worker := .closing fd conn }
  | noBuffer {fd : QSock} {conn : ℕ} (hw : S.worker = .assist fd conn .noBuffer) :
      Move S .report { S.setSockStatus fd conn .closed with worker := .idle }
  | failed {fd : QSock} {conn : ℕ} (hw : S.worker = .assist fd conn .failed) :
      Move S .report { S.setSockStatus fd conn .closed with worker := .closing fd conn }
  | linked {fd : QSock} {conn : ℕ} (hw : S.worker = .assist fd conn .ok) :
      Move S .report
        { S.setSockStatus fd conn .linked with
          session := Function.update S.session fd (some (conn, .tcpClient))
          worker := .idle }
  | ended {fd : QSock} {conn : ℕ} (hw : S.worker = .ending fd conn) :
      Move S .report
        { S.setSockStatus fd conn .closed with
          session := Function.update S.session fd none
          worker := .closing fd conn }
  | free {fd : QSock} {conn : ℕ} (hw : S.worker = .closing fd conn) :
      Move S .free { S with owner := Function.update S.owner fd none, worker := .idle }

/-- **A step does one of these.** -/
theorem move_step (S : LinkWorld) (i : Step) : S.Move i (S.step i) := by
  cases i with
  | addHost pszIp usPort pszName =>
    simp only [step, LinkWorld.addHost]
    split_ifs with _ hany
    · exact .pass _ S.pass
    · exact .addHost pszIp usPort pszName (by simpa using hany)
    · exact .pass _ S.pass
  | lock =>
    simp only [step]
    split_ifs
    · exact .pass _ (some 0)
    · exact .pass _ S.pass
  | visit o =>
    simp only [step, LinkWorld.visit]
    split
    · exact .pass _ S.pass
    next i hp =>
      split
      · exact .pass _ S.pass
      next l sok hl =>
        split_ifs with hc
        · exact .pass _ (some (i + 1))
        · exact .connect sok hp hl (not_not.mp hc)
      · exact .pass _ (some (i + 1))
  | unlock =>
    simp only [step]
    split_ifs
    · exact .pass _ none
    · exact .pass _ S.pass
  | accept fd emType => exact .accept fd emType
  | onMainRead =>
    simp only [step, LinkWorld.onMainRead]
    split
    next hw hm => exact .onMainRead hw hm
    · exact .pass _ S.pass
  | onAssistRead o =>
    simp only [step, LinkWorld.onAssistRead]
    split
    next hw ha => exact .onAssistRead o hw ha
    · exact .pass _ S.pass
  | close fd =>
    simp only [step, LinkWorld.close]
    split
    next hw hs => exact .ending hw hs
    next conn t hne hw hs => exact .close hw hs hne
    · exact .pass _ S.pass
  | report =>
    simp only [step, LinkWorld.report]
    split
    next hw => exact .noBuffer hw
    next hw => exact .failed hw
    next hw => exact .linked hw
    next hw => exact .ended hw
    · exact .pass _ S.pass
  | free =>
    simp only [step, LinkWorld.free]
    split
    next hw => exact .free hw
    · exact .pass _ S.pass

/-! ## The connections keep their places -/

end LinkWorld

/-- An entry of a list after something was appended. -/
theorem getElem?_concat_cases {α : Type*} {l : List α} {a b : α} {i : ℕ}
    (h : (l ++ [a])[i]? = some b) : l[i]? = some b ∨ b = a := by
  rcases lt_or_ge i l.length with hi | hi
  · rw [List.getElem?_append_left hi] at h
    exact .inl h
  · rw [List.getElem?_append_right hi] at h
    exact .inr (List.mem_singleton.mp (List.mem_of_getElem? h))

/-- An entry of a list after one was set. -/
theorem getElem?_set_cases {α : Type*} {l : List α} {a b : α} {i j : ℕ}
    (h : (l.set i a)[j]? = some b) : (j = i ∧ b = a) ∨ (j ≠ i ∧ l[j]? = some b) := by
  rcases eq_or_ne j i with rfl | hj
  · rw [List.getElem?_set_self'] at h
    obtain ⟨_, -, hb⟩ := Option.map_eq_some_iff.mp h
    exact .inl ⟨rfl, hb.symm⟩
  · rw [List.getElem?_set_ne hj.symm] at h
    exact .inr ⟨hj, h⟩

/-- The socket that the worker is to close. -/
def Doing.closes : Doing → Option (QSock × ℕ)
  | .closing fd conn => some (fd, conn)
  | _ => none

/-- The connection that the worker has in its hands, outside the session map. -/
def Doing.held : Doing → List (QSock × ℕ)
  | .assist fd conn _ => [(fd, conn)]
  | .closing fd conn => [(fd, conn)]
  | _ => []

namespace LinkWorld

/-- The connections in the queues and in the hands of the worker. -/
def held (S : LinkWorld) : List (QSock × ℕ) :=
  S.worker.held ++ (S.assist ++ S.main.map fun m => (m.1, m.2.1))

/-- Every connection is where its kind belongs: what the link thread sends and the worker
sets up was opened for an entry, what the listening thread sends was not, and
a session of a connection that was opened for an entry has the type to report
its end. -/
structure Sound (S : LinkWorld) : Prop where
  handles : Handles S.held S.session S.owner S.conns
  valid : ∀ fd c, S.owner fd = some c → fd ≠ invalidSock
  opened : ∀ c e, S.opened c = some e → c < S.conns ∧ e < S.links.length
  assist : ∀ p ∈ S.assist, ∃ e, S.opened p.2 = some e
  worker : ∀ fd c o, S.worker = .assist fd c o → ∃ e, S.opened c = some e
  main : ∀ m ∈ S.main, S.opened m.2.1 = none
  client : ∀ fd c t e, S.session fd = some (c, t) → S.opened c = some e → t = .tcpClient
  ending : ∀ fd c, S.worker = .ending fd c → S.session fd = some (c, .tcpClient)

variable {S S' : LinkWorld}

theorem Sound.start : start.Sound where
  handles := .nil
  valid _ _ h := absurd h (by simp [LinkWorld.start])
  opened _ _ h := absurd h (by simp [LinkWorld.start])
  assist _ h := absurd h List.not_mem_nil
  worker _ _ _ h := Doing.noConfusion h
  main _ h := absurd h List.not_mem_nil
  client _ _ _ _ h := absurd h (by simp [LinkWorld.start])
  ending _ _ h := Doing.noConfusion h

@[simp] theorem length_setStatus (links : List LinkInfo) (sock : QSock) (st : SessionStatus) :
    (setStatus links sock st).length = links.length := by
  unfold setStatus
  split <;> simp

/-- **What `setSockStatus` does to an entry.** -/
theorem getElem?_setStatus (links : List LinkInfo) (sock : QSock) (st : SessionStatus) (e : ℕ) :
    (setStatus links sock st)[e]? = links[e]?.map fun l =>
      if find links sock = some e then { l with emStatus := st } else l := by
  unfold setStatus
  cases find links sock with
  | none => simp
  | some i => simp [List.getElem?_modify]

/-- An entry after `setSockStatus` has the socket and the name that it had. -/
theorem of_getElem?_setStatus {links : List LinkInfo} {sock : QSock} {st : SessionStatus} {e : ℕ}
    {l' : LinkInfo} (h : (setStatus links sock st)[e]? = some l') :
    ∃ l, links[e]? = some l ∧ l'.sock = l.sock ∧ l'.strName = l.strName := by
  rw [getElem?_setStatus] at h
  obtain ⟨l, hl, rfl⟩ := Option.map_eq_some_iff.mp h
  refine ⟨l, hl, ?_⟩
  split_ifs <;> exact ⟨rfl, rfl⟩

/-- The handles after a step. -/
theorem Sound.handles_move (h : S.Sound) {i : Step} (hi : S.Enabled i) (m : S.Move i S') :
    Handles S'.held S'.session S'.owner S'.conns := by
  have h₀ := h.handles
  cases m with
  | pass p => exact h₀
  | addHost pszIp usPort pszName hnew => exact h₀
  | connect sok hp hl hc =>
    refine (h₀.take hi.2).perm ?_
    simp only [held, connect, List.append_assoc, List.singleton_append]
    exact (List.perm_middle.append_left _).trans List.perm_middle
  | accept fd emType =>
    refine (h₀.take hi.2).perm ?_
    simp only [held, accept, List.map_append, List.map_cons, List.map_nil, ← List.append_assoc]
    exact List.perm_append_singleton _ _
  | onMainRead hw hm =>
    rw [held, hw, hm] at h₀
    refine Handles.store (h₀.perm ?_) _
    rw [held, hw]
    show List.Perm (_ :: (S.assist ++ _)) (S.assist ++ _ :: _)
    exact List.perm_middle.symm
  | onAssistRead o hw ha =>
    rw [held, hw, ha] at h₀
    exact h₀
  | ending hw hs =>
    rw [held, hw] at h₀
    exact h₀
  | close hw hs ht =>
    rw [held, hw] at h₀
    exact h₀.unstore hs
  | noBuffer hw =>
    rw [held, hw] at h₀
    exact h₀.drop
  | failed hw =>
    rw [held, hw] at h₀
    exact h₀
  | linked hw =>
    rw [held, hw] at h₀
    exact h₀.store _
  | ended hw =>
    rw [held, hw] at h₀
    exact h₀.unstore (h.ending _ _ hw)
  | free hw =>
    rw [held, hw] at h₀
    exact h₀.free

/-- A connection that is held has its socket. -/
theorem Sound.owner_worker (h : S.Sound) {fd : QSock} {c : ℕ} (hm : (fd, c) ∈ S.worker.held) :
    S.owner fd = some c :=
  h.handles.held_owner fd c (List.mem_append_left _ hm)

theorem Sound.owner_assist (h : S.Sound) {p : QSock × ℕ} (hp : p ∈ S.assist) :
    S.owner p.1 = some p.2 :=
  h.handles.held_owner p.1 p.2 (List.mem_append_right _ (List.mem_append_left _ hp))

theorem Sound.owner_main (h : S.Sound) {m : QSock × ℕ × SessionType} (hm : m ∈ S.main) :
    S.owner m.1 = some m.2.1 := by
  refine h.handles.held_owner m.1 m.2.1 (List.mem_append_right _ (List.mem_append_right _ ?_))
  exact List.mem_map_of_mem hm

/-- A socket that is handed out was nobody's. -/
theorem owner_update {fd fd' : QSock} {c : ℕ} (hfree : S.owner fd = none)
    (ho : S.owner fd' = some c) : Function.update S.owner fd (some S.conns) fd' = some c := by
  rw [Function.update_of_ne, ho]
  rintro rfl
  cases hfree.symm.trans ho

/-- What the connections so far were opened for stays. -/
theorem Sound.opened_update (h : S.Sound) {fd : QSock} {c : ℕ} {e : Option ℕ}
    (ho : S.owner fd = some c) : Function.update S.opened S.conns e c = S.opened c :=
  Function.update_of_ne (h.handles.lt fd c ho).ne ..

/-- What the worker has in its hands was opened for an entry if it is being set up. -/
theorem Sound.opened_worker (h : S.Sound) {fd : QSock} {c : ℕ} {o : LinkSetUp}
    (hw : S.worker = .assist fd c o) : S.owner fd = some c ∧ ∃ e, S.opened c = some e :=
  ⟨h.owner_worker (by simp only [hw, Doing.held, List.mem_singleton]), h.worker fd c o hw⟩

theorem Sound.addHost (h : S.Sound) (l : LinkInfo) :
    Sound { S with links := S.links ++ [l] } :=
  { h with
    opened := fun c e ho => by
      obtain ⟨hc, he⟩ := h.opened c e ho
      refine ⟨hc, ?_⟩
      simpa using he.trans (Nat.lt_succ_self _) }

/-- The new connection is opened for the entry, and the others are what they were. -/
theorem Sound.connect (h : S.Sound) {i : ℕ} {l : LinkInfo} {sok : QSock}
    (hv : sok ≠ invalidSock) (hl : S.links[i]? = some l)
    (hh : Handles (S.connect i l sok).held S.session (S.connect i l sok).owner (S.conns + 1)) :
    (S.connect i l sok).Sound where
  handles := hh
  valid fd c ho := by
    rcases update_some_cases ho with ⟨rfl, -⟩ | ⟨-, ho⟩
    · exact hv
    · exact h.valid fd c ho
  opened c e ho := by
    have hi : i < S.links.length := (List.getElem?_eq_some_iff.mp hl).1
    show c < S.conns + 1 ∧ e < (S.links.set i _).length
    rw [List.length_set]
    rcases update_some_cases ho with ⟨rfl, rfl⟩ | ⟨-, ho⟩
    · exact ⟨Nat.lt_succ_self _, hi⟩
    · obtain ⟨hc, he⟩ := h.opened c e ho
      exact ⟨hc.trans (Nat.lt_succ_self _), he⟩
  assist p hp := by
    rcases List.mem_append.mp hp with hp | hp
    · obtain ⟨e, he⟩ := h.assist p hp
      exact ⟨e, (h.opened_update (h.owner_assist hp)).trans he⟩
    · obtain rfl := List.mem_singleton.mp hp
      exact ⟨i, Function.update_self ..⟩
  worker fd c o hw := by
    obtain ⟨ho, e, he⟩ := h.opened_worker hw
    exact ⟨e, (h.opened_update ho).trans he⟩
  main m hm := (h.opened_update (h.owner_main hm)).trans (h.main m hm)
  client fd c t e ht ho :=
    h.client fd c t e ht ((h.opened_update (h.handles.table_owner fd c t ht)).symm.trans ho)
  ending := h.ending

/-- An accepted connection is opened for no entry. -/
theorem Sound.accept (h : S.Sound) {fd : QSock} {emType : SessionType} (hv : fd ≠ invalidSock)
    (hh : Handles (S.accept fd emType).held S.session (S.accept fd emType).owner (S.conns + 1)) :
    (S.accept fd emType).Sound :=
  { h with
    handles := hh
    valid := fun fd' c ho => by
      rcases update_some_cases ho with ⟨rfl, -⟩ | ⟨-, ho⟩
      · exact hv
      · exact h.valid fd' c ho
    opened := fun c e ho => by
      obtain ⟨hc, he⟩ := h.opened c e ho
      exact ⟨hc.trans (Nat.lt_succ_self _), he⟩
    main := fun m hm => by
      rcases List.mem_append.mp hm with hm | hm
      · exact h.main m hm
      · obtain rfl := List.mem_singleton.mp hm
        show S.opened S.conns = none
        refine Option.eq_none_iff_forall_ne_some.mpr fun e he => ?_
        exact absurd (h.opened _ e he).1 (lt_irrefl _) }

theorem Sound.setSockStatus (h : S.Sound) (fd : QSock) (c : ℕ) (st : SessionStatus) :
    (S.setSockStatus fd c st).Sound :=
  { h with opened := fun c e ho => by simpa [LinkWorld.setSockStatus] using h.opened c e ho }

/-- The worker has nothing more to report. -/
theorem Sound.done (h : S.Sound) {session : QSock → Option (ℕ × SessionType)} {w : Doing}
    (hh : Handles (LinkWorld.held { S with worker := w }) session S.owner S.conns)
    (hw : w = .idle ∨ ∃ fd c, w = .closing fd c)
    (hclient : ∀ fd c t e, session fd = some (c, t) → S.opened c = some e → t = .tcpClient) :
    Sound { S with session := session, worker := w } :=
  { h with
    handles := hh
    worker := fun fd c o ho => by
      have ho : w = .assist fd c o := ho
      rcases hw with rfl | ⟨_, _, rfl⟩ <;> cases ho
    client := hclient
    ending := fun fd c he => by
      have he : w = .ending fd c := he
      rcases hw with rfl | ⟨_, _, rfl⟩ <;> cases he }

/-- **Every connection stays where its kind belongs.** -/
theorem Sound.move (h : S.Sound) {i : Step} (hi : S.Enabled i) (m : S.Move i S') : S'.Sound := by
  have hh := h.handles_move hi m
  cases m with
  | pass p => exact { h with handles := hh }
  | addHost pszIp usPort pszName hnew => exact h.addHost _
  | connect sok hp hl hc => exact h.connect hi.1 hl hh
  | accept fd emType => exact h.accept hi.1 hh
  | @onMainRead fd conn emType main hw hm =>
    refine { h with
      handles := hh
      main := fun m hm' => h.main m (hm ▸ List.mem_cons_of_mem _ hm')
      client := fun fd' c t e ht ho => ?_
      ending := fun fd' c hw' => Doing.noConfusion (hw.symm.trans hw') }
    rcases update_some_cases ht with ⟨rfl, he⟩ | ⟨-, ht⟩
    · have hnone : S.opened conn = none := h.main _ (hm ▸ List.mem_cons_self)
      rw [← (Prod.mk.inj he).1] at hnone
      cases hnone.symm.trans ho
    · exact h.client fd' c t e ht ho
  | @onAssistRead fd conn assist o hw ha =>
    refine { h with
      handles := hh
      assist := fun p hp => h.assist p (ha ▸ List.mem_cons_of_mem _ hp)
      worker := fun fd' c o' hw' => ?_
      ending := fun _ _ hw' => Doing.noConfusion hw' }
    obtain ⟨-, rfl, -⟩ := Doing.assist.inj hw'
    exact h.assist (fd, conn) (ha ▸ List.mem_cons_self)
  | @ending fd conn hw hs =>
    refine { h with
      handles := hh
      worker := fun _ _ _ hw' => Doing.noConfusion hw'
      ending := fun fd' c hw' => ?_ }
    obtain ⟨rfl, rfl⟩ := Doing.ending.inj hw'
    exact hs
  | close hw hs ht =>
    refine h.done hh (.inr ⟨_, _, rfl⟩) fun fd' c t e ht ho => ?_
    exact h.client fd' c t e (update_none_cases ht).2 ho
  | noBuffer hw => exact (h.setSockStatus ..).done hh (.inl rfl) h.client
  | failed hw => exact (h.setSockStatus ..).done hh (.inr ⟨_, _, rfl⟩) h.client
  | linked hw =>
    refine (h.setSockStatus ..).done hh (.inl rfl) fun fd' c t e ht ho => ?_
    rcases update_some_cases ht with ⟨-, he⟩ | ⟨-, ht⟩
    · exact (Prod.mk.inj he).2
    · exact h.client fd' c t e ht ho
  | ended hw =>
    refine (h.setSockStatus ..).done hh (.inr ⟨_, _, rfl⟩) fun fd' c t e ht ho => ?_
    exact h.client fd' c t e (update_none_cases ht).2 ho
  | free hw =>
    exact { h with
      handles := hh
      valid := fun fd' c ho => h.valid fd' c (update_none_cases ho).2
      worker := fun _ _ _ hw' => Doing.noConfusion hw'
      ending := fun _ _ hw' => Doing.noConfusion hw' }

/-- The state after a step. -/
theorem Sound.step (h : S.Sound) {i : Step} (hi : S.Enabled i) : (S.step i).Sound :=
  h.move hi (S.move_step i)

/-- **In every run the connections are in their places.** -/
theorem Sound.of_reach (h : Reach LinkWorld.step Enabled LinkWorld.start S) : S.Sound :=
  h.invariant Sound .start fun _ _ hS hi => hS.step hi

end LinkWorld
