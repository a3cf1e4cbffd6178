import QService.Handles
import QService.Runs
import QService.Session

/-!
# Who closes a socket

A socket goes from the thread that has accepted or connected it to the worker, as a
message. Whoever cannot go on with it closes it. The worker gives it to a
`bufferevent` made with `BEV_OPT_CLOSE_ON_FREE`, which closes its socket when it is
freed.

The threads alternate at every close, and the system may hand out the number of a
socket as soon as it is closed. What a thread has still to close is its `todo` list:
`evutil_closesocket` and `bufferevent_free` are one entry each. Every close that is
made is logged with the connection it was made for and the one that had the number.

In two branches of `onMainRead` the socket is closed by both, and in one branch of
`onAssistRead` by none. `right_of_careful` is about the runs that avoid these three;
each of them is wrong in every run (`not_right_of_not_careful`).
-/

/-- How the set-up of a session comes out: `bufferevent_socket_new`, `addSession` or
`bufferevent_enable` fails, or none does. -/
inductive SockSetUp
  | noBuffer
  | noSession
  | notEnabled
  | ok
  deriving DecidableEq, Repr

/-- A thread that can close sockets: that of `CServer`, of `CLinkOther`, and the
worker. -/
inductive SockThread
  | listener
  | linker
  | worker
  deriving DecidableEq, Repr

/-- A close that was made: the number, the connection it was made for, and the
connection that had the number. -/
structure CloseCall where
  fd : QSock
  conn : ℕ
  owner : Option ℕ
  deriving DecidableEq, Repr

/-- The threads, their messages, and the sockets of the system. -/
structure SockWorld where
  /-- the messages of `sendMainMsg` -/
  main : List ((QSock × ℕ) × SessionType)
  /-- the messages of `sendAssistMsg` -/
  assist : List (QSock × ℕ)
  /-- `m_umapSession` -/
  session : QSock → Option (ℕ × SessionType)
  todo : SockThread → List (QSock × ℕ)
  /-- which connection has a socket -/
  owner : QSock → Option ℕ
  /-- the number of connections so far -/
  conns : ℕ
  /-- the connections whose set-up has failed -/
  failed : List ℕ
  closes : List CloseCall

namespace SockWorld

def start : SockWorld :=
  ⟨[], [], fun _ => none, fun _ => [], fun _ => none, 0, [], []⟩

/-- A step of one of the threads. -/
inductive Step
  /-- `listenerAcceptCB`, with the type of the listener and whether the socket can be sent
  to the worker -/
  | listenerAcceptCB (sock : QSock) (emType : SessionType) (bSent : Bool)
  /-- an entry of the loop of `Link`: the socket that `initSock` makes, and whether it is
  connected and can be sent to the worker -/
  | link (sok : QSock) (bSent : Bool)
  | onMainRead (o : SockSetUp)
  | onAssistRead (o : SockSetUp)
  /-- a session ends, in `workThreadEventCB` or in `closeLinkByID` -/
  | endSession (fd : QSock)
  /-- a thread makes its next close -/
  | close (t : SockThread)
  deriving DecidableEq, Repr

/-- A new connection gets a number of the system. -/
def openSock (S : SockWorld) (fd : QSock) : SockWorld :=
  { S with owner := Function.update S.owner fd (some S.conns), conns := S.conns + 1 }

/-- A thread is to close these. -/
def setTodo (S : SockWorld) (t : SockThread) (l : List (QSock × ℕ)) : SockWorld :=
  { S with todo := Function.update S.todo t l }

/-- The set-up of a connection has failed, and the thread is to make these closes. -/
def fail (S : SockWorld) (t : SockThread) (conn : ℕ) (l : List (QSock × ℕ)) : SockWorld :=
  { S.setTodo t l with failed := S.failed ++ [conn] }

/-- `CServer::listenerAcceptCB`. A socket that is not sent is closed. -/
def listenerAcceptCB (S : SockWorld) (sock : QSock) (emType : SessionType) (bSent : Bool) :
    SockWorld :=
  let T := S.openSock sock
  if bSent then { T with main := S.main ++ [((sock, S.conns), emType)] }
  else T.fail .listener S.conns [(sock, S.conns)]

/-- An entry of `CLinkOther::Link`. -/
def link (S : SockWorld) (sok : QSock) (bSent : Bool) : SockWorld :=
  let T := S.openSock sok
  if bSent then { T with assist := S.assist ++ [(sok, S.conns)] }
  else T.fail .linker S.conns [(sok, S.conns)]

/-- A round of `CWorkThreadEvent::onMainRead`. When `addSession` or `bufferevent_enable`
fails, `evutil_closesocket` comes before `bufferevent_free`. -/
def onMainRead (S : SockWorld) (o : SockSetUp) : SockWorld :=
  match S.main with
  | [] => S
  | ((iSock, conn), emType) :: main =>
    let T := { S with main := main }
    match o with
    | .noBuffer => T.fail .worker conn [(iSock, conn)]
    | .noSession => T.fail .worker conn [(iSock, conn), (iSock, conn)]
    | .notEnabled => T.fail .worker conn [(iSock, conn), (iSock, conn)]
    | .ok => { T with session := Function.update S.session iSock (some (conn, emType)) }

/-- A round of `CWorkThreadEvent::onAssistRead`. A socket without a `bufferevent` is not
closed. -/
def onAssistRead (S : SockWorld) (o : SockSetUp) : SockWorld :=
  match S.assist with
  | [] => S
  | (iSock, conn) :: assist =>
    let T := { S with assist := assist }
    match o with
    | .noBuffer => T.fail .worker conn []
    | .noSession => T.fail .worker conn [(iSock, conn)]
    | .notEnabled => T.fail .worker conn [(iSock, conn)]
    | .ok => { T with session := Function.update S.session iSock (some (conn, .tcpClient)) }

/-- A session is taken out of the map, and its `bufferevent` is to be freed. -/
def endSession (S : SockWorld) (fd : QSock) : SockWorld :=
  match S.session fd with
  | none => S
  | some (conn, _) =>
    { S.setTodo .worker [(fd, conn)] with session := Function.update S.session fd none }

/-- The next close of a thread. The number is free then, whoever had it. -/
def close (S : SockWorld) (t : SockThread) : SockWorld :=
  match S.todo t with
  | [] => S
  | (fd, conn) :: l =>
    { S.setTodo t l with
      owner := Function.update S.owner fd none
      closes := S.closes ++ [⟨fd, conn, S.owner fd⟩] }

/-- The state after a step. A thread goes on only when it has made its closes. -/
def step (S : SockWorld) : Step → SockWorld
  | .listenerAcceptCB sock emType bSent =>
    if S.todo .listener = [] then S.listenerAcceptCB sock emType bSent else S
  | .link sok bSent => if S.todo .linker = [] then S.link sok bSent else S
  | .onMainRead o => if S.todo .worker = [] then S.onMainRead o else S
  | .onAssistRead o => if S.todo .worker = [] then S.onAssistRead o else S
  | .endSession fd => if S.todo .worker = [] then S.endSession fd else S
  | .close t => S.close t

/-- The system hands out a number only when no connection has it. -/
def Enabled (S : SockWorld) : Step → Prop
  | .listenerAcceptCB sock _ _ => S.owner sock = none
  | .link sok _ => S.owner sok = none
  | .onMainRead _ | .onAssistRead _ | .endSession _ | .close _ => True

instance (S : SockWorld) : DecidablePred S.Enabled
  | .listenerAcceptCB sock _ _ => inferInstanceAs (Decidable (S.owner sock = none))
  | .link sok _ => inferInstanceAs (Decidable (S.owner sok = none))
  | .onMainRead _ | .onAssistRead _ | .endSession _ | .close _ => .isTrue trivial

/-- **Each socket is closed once, and no other**: of a connection whose set-up has failed
at most one close was made, and exactly one when no thread has one left to make;
and no close was made of a number that another connection had. -/
structure Right (S : SockWorld) : Prop where
  atMost : ∀ c ∈ S.failed, S.closes.countP (·.conn = c) ≤ 1
  exactly : ∀ c ∈ S.failed, (∀ t fd, (fd, c) ∉ S.todo t) → S.closes.countP (·.conn = c) = 1
  own : ∀ k ∈ S.closes, ∀ c ∈ k.owner, c = k.conn

/-! ## What is kept -/

variable {S : SockWorld} {t : SockThread} {fd : QSock} {c : ℕ}

theorem todo_setTodo_self (S : SockWorld) (t : SockThread) (l : List (QSock × ℕ)) :
    (S.setTodo t l).todo t = l := Function.update_self _ _ _

theorem todo_setTodo_ne {t' : SockThread} (l : List (QSock × ℕ)) (h : t' ≠ t) :
    (S.setTodo t l).todo t' = S.todo t' := Function.update_of_ne h _ _

/-- The connections that are in a message, or that a thread is to close. -/
def held (S : SockWorld) : List (QSock × ℕ) :=
  S.main.map Prod.fst ++ S.assist ++ (S.todo .listener ++ S.todo .linker ++ S.todo .worker)

/-- A thread without anything to close gets something. -/
theorem held_setTodo (h : S.todo t = []) (l : List (QSock × ℕ)) :
    (S.setTodo t l).held.Perm (l ++ S.held) := by
  refine List.perm_iff_count.mpr fun x => ?_
  cases t
  all_goals
    simp [held, setTodo, Function.update, h]
    omega

/-- A thread is done with its first close. -/
theorem held_of_todo {l : List (QSock × ℕ)} (h : S.todo t = (fd, c) :: l) :
    S.held.Perm ((fd, c) :: (S.setTodo t l).held) := by
  refine List.perm_iff_count.mpr fun x => ?_
  cases t
  all_goals
    simp [held, setTodo, Function.update, h, List.count_cons]
    omega

/-- **What is kept**: every connection is in one place; one that was closed has no
number any more, and was closed once, under its own number; one whose set-up has
failed was closed or is to be. -/
structure Inv (S : SockWorld) : Prop where
  handles : Handles S.held S.session S.owner S.conns
  closed : ∀ k ∈ S.closes, k.conn < S.conns ∧ ∀ fd, S.owner fd ≠ some k.conn
  once : (S.closes.map CloseCall.conn).Nodup
  failed : ∀ c ∈ S.failed, c ∈ S.closes.map CloseCall.conn ∨ ∃ t fd, (fd, c) ∈ S.todo t
  own : ∀ k ∈ S.closes, ∀ c ∈ k.owner, c = k.conn

theorem Inv.start : Inv start where
  handles := .nil
  closed k hk := by cases hk
  once := List.nodup_nil
  failed c hc := by cases hc
  own k hk := by cases hk

theorem Inv.right (h : S.Inv) : S.Right := by
  have hcount : ∀ c, S.closes.countP (·.conn = c) = (S.closes.map CloseCall.conn).count c := by
    intro c
    rw [List.count, List.countP_map]
    exact List.countP_congr fun k _ => by simp
  refine ⟨fun c _ => ?_, fun c hc hno => ?_, h.own⟩
  · rw [hcount]
    exact List.nodup_iff_count_le_one.mp h.once c
  · rw [hcount]
    refine List.count_eq_one_of_mem h.once ((h.failed c hc).resolve_right ?_)
    rintro ⟨t, fd, hmem⟩
    exact hno t fd hmem

/-- A connection that is held was not closed. -/
theorem Inv.notMem_closes (h : S.Inv) (hm : (fd, c) ∈ S.held) :
    c ∉ S.closes.map CloseCall.conn := by
  intro hc
  obtain ⟨k, hk, rfl⟩ := List.mem_map.mp hc
  exact (h.closed k hk).2 fd (h.handles.held_owner fd _ hm)

/-- A step that closes nothing. -/
theorem Inv.of_closes (h : S.Inv) {S' : SockWorld} (hcl : S'.closes = S.closes)
    (hh : Handles S'.held S'.session S'.owner S'.conns)
    (hclosed : ∀ k ∈ S.closes, k.conn < S'.conns ∧ ∀ fd, S'.owner fd ≠ some k.conn)
    (hf : ∀ c ∈ S'.failed, c ∈ S.closes.map CloseCall.conn ∨ ∃ t fd, (fd, c) ∈ S'.todo t) :
    S'.Inv where
  handles := hh
  closed := hcl ▸ hclosed
  once := hcl ▸ h.once
  failed := hcl ▸ hf
  own := hcl ▸ h.own

/-- A connection moves from a message to the `todo` list of an idle thread, or to the
map. -/
theorem Inv.withHandles (h : S.Inv) {S' : SockWorld}
    (hh : Handles S'.held S'.session S'.owner S'.conns) (ho : S'.owner = S.owner)
    (hcn : S'.conns = S.conns) (hcl : S'.closes = S.closes)
    (hf : ∀ c ∈ S'.failed, c ∈ S.closes.map CloseCall.conn ∨ ∃ t fd, (fd, c) ∈ S'.todo t) :
    S'.Inv := by
  refine h.of_closes hcl hh (fun k hk => ?_) hf
  rw [hcn, ho]
  exact h.closed k hk

/-- A new connection has its number, and is held by whoever has opened it. -/
theorem Inv.openSock (h : S.Inv) (hfree : S.owner fd = none) {S' : SockWorld}
    (hheld : S'.held.Perm ((fd, S.conns) :: S.held)) (hse : S'.session = S.session)
    (ho : S'.owner = (S.openSock fd).owner) (hcn : S'.conns = S.conns + 1)
    (hcl : S'.closes = S.closes)
    (hf : ∀ c ∈ S'.failed, c ∈ S.closes.map CloseCall.conn ∨ ∃ t fd, (fd, c) ∈ S'.todo t) :
    S'.Inv := by
  refine h.of_closes hcl ?_ (fun k hk => ?_) hf
  · rw [hse, ho, hcn]
    exact (h.handles.take hfree).perm hheld
  · obtain ⟨hlt, hno⟩ := h.closed k hk
    rw [hcn, ho]
    refine ⟨Nat.lt_succ_of_lt hlt, fun fd' hfd' => ?_⟩
    rcases update_some_cases hfd' with ⟨-, hc⟩ | ⟨-, hfd'⟩
    · exact hlt.ne hc
    · exact hno fd' hfd'

/-- What was to be closed by a thread stays to be closed when an idle thread gets
something. -/
theorem Inv.failed_setTodo (h : S.Inv) (ht : S.todo t = []) (l : List (QSock × ℕ)) :
    ∀ c ∈ S.failed, c ∈ S.closes.map CloseCall.conn
      ∨ ∃ t' fd, (fd, c) ∈ (S.setTodo t l).todo t' := by
  intro c hc
  rcases h.failed c hc with hc | ⟨t', fd, hmem⟩
  · exact .inl hc
  · refine .inr ⟨t', fd, ?_⟩
    have hne : t' ≠ t := by
      rintro rfl
      rw [ht] at hmem
      cases hmem
    rw [todo_setTodo_ne l hne]
    exact hmem

/-- The failures with that of the connection that a thread is to close now. -/
theorem Inv.failed_fail (h : S.Inv) (ht : S.todo t = []) (fd : QSock) (c : ℕ) :
    ∀ c' ∈ S.failed ++ [c], c' ∈ S.closes.map CloseCall.conn
      ∨ ∃ t' fd', (fd', c') ∈ (S.setTodo t [(fd, c)]).todo t' := by
  intro c' hc
  rcases List.mem_append.mp hc with hc | hc
  · exact h.failed_setTodo ht _ c' hc
  · obtain rfl := List.mem_singleton.mp hc
    refine .inr ⟨t, fd, ?_⟩
    rw [todo_setTodo_self]
    exact List.mem_singleton_self _

theorem Inv.listenerAcceptCB (h : S.Inv) (ht : S.todo .listener = []) {sock : QSock}
    (hfree : S.owner sock = none) (emType : SessionType) (bSent : Bool) :
    (S.listenerAcceptCB sock emType bSent).Inv := by
  cases bSent with
  | true =>
    refine h.openSock hfree ?_ rfl rfl rfl rfl h.failed
    refine List.perm_iff_count.mpr fun x => ?_
    simp [held, SockWorld.listenerAcceptCB, SockWorld.openSock, List.count_cons]
    omega
  | false =>
    exact h.openSock hfree (held_setTodo (S := S.openSock sock) ht _) rfl rfl rfl rfl
      (h.failed_fail ht sock S.conns)

theorem Inv.link (h : S.Inv) (ht : S.todo .linker = []) {sok : QSock}
    (hfree : S.owner sok = none) (bSent : Bool) : (S.link sok bSent).Inv := by
  cases bSent with
  | true =>
    refine h.openSock hfree ?_ rfl rfl rfl rfl h.failed
    refine List.perm_iff_count.mpr fun x => ?_
    simp [held, SockWorld.link, SockWorld.openSock, List.count_cons]
    omega
  | false =>
    exact h.openSock hfree (held_setTodo (S := S.openSock sok) ht _) rfl rfl rfl rfl
      (h.failed_fail ht sok S.conns)

/-- What the handles hold when a message is taken. -/
theorem Inv.onSock (h : S.Inv) (ht : S.todo .worker = []) {T : SockWorld}
    (hheld : S.held.Perm ((fd, c) :: T.held))
    (hT : T = { S with main := T.main, assist := T.assist })
    (emType : SessionType) :
    (T.fail .worker c [(fd, c)]).Inv
      ∧ { T with session := Function.update T.session fd (some (c, emType)) : SockWorld }.Inv := by
  have hh : Handles ((fd, c) :: T.held) S.session S.owner S.conns := h.handles.perm hheld.symm
  have htT : T.todo .worker = [] := by
    rw [hT]
    exact ht
  constructor
  · refine h.withHandles ?_ (by rw [hT]; rfl) (by rw [hT]; rfl) (by rw [hT]; rfl) ?_
    · have hfail : (T.fail .worker c [(fd, c)]).held.Perm ((fd, c) :: T.held) :=
        held_setTodo htT _
      rw [hT] at hfail hh ⊢
      exact hh.perm hfail
    · rw [hT]
      exact h.failed_fail ht fd c
  · refine h.withHandles ?_ (by rw [hT]) (by rw [hT]) (by rw [hT]) ?_
    · rw [hT] at hh ⊢
      exact hh.store emType
    · rw [hT]
      exact h.failed

theorem Inv.onMainRead (h : S.Inv) (ht : S.todo .worker = []) {o : SockSetUp}
    (ho : o = .noBuffer ∨ o = .ok) : (S.onMainRead o).Inv := by
  unfold SockWorld.onMainRead
  split
  · exact h
  case h_2 iSock conn emType main hmain =>
    have hheld : S.held.Perm ((iSock, conn) :: { S with main := main : SockWorld }.held) := by
      simp [held, hmain]
    obtain ⟨hfail, hstore⟩ := h.onSock ht hheld rfl emType
    rcases ho with rfl | rfl
    · exact hfail
    · exact hstore

theorem Inv.onAssistRead (h : S.Inv) (ht : S.todo .worker = []) {o : SockSetUp}
    (ho : o ≠ .noBuffer) : (S.onAssistRead o).Inv := by
  unfold SockWorld.onAssistRead
  split
  · exact h
  case h_2 iSock conn assist hassist =>
    have hheld : S.held.Perm
        ((iSock, conn) :: { S with assist := assist : SockWorld }.held) := by
      refine List.perm_iff_count.mpr fun x => ?_
      simp [held, hassist, List.count_cons]
      omega
    obtain ⟨hfail, hstore⟩ := h.onSock ht hheld rfl .tcpClient
    cases o with
    | noBuffer => exact absurd rfl ho
    | noSession => exact hfail
    | notEnabled => exact hfail
    | ok => exact hstore

theorem Inv.endSession (h : S.Inv) (ht : S.todo .worker = []) (fd : QSock) :
    (S.endSession fd).Inv := by
  unfold SockWorld.endSession
  split
  · exact h
  case h_2 conn emType hs =>
    refine h.withHandles ?_ rfl rfl rfl (h.failed_setTodo ht _)
    exact (h.handles.unstore hs).perm (held_setTodo ht _)

/-- **A close** is of the connection's own number. -/
theorem Inv.close (h : S.Inv) (t : SockThread) : (S.close t).Inv := by
  unfold SockWorld.close
  split
  · exact h
  case h_2 fd conn l hl =>
    have hheld := held_of_todo hl
    have hh : Handles ((fd, conn) :: (S.setTodo t l).held) S.session S.owner S.conns :=
      h.handles.perm hheld.symm
    have hown : S.owner fd = some conn := hh.held_owner fd conn List.mem_cons_self
    have hnew := h.notMem_closes (hheld.symm.subset List.mem_cons_self)
    have hlog : (S.closes ++ [(⟨fd, conn, S.owner fd⟩ : CloseCall)]).map CloseCall.conn
        = S.closes.map CloseCall.conn ++ [conn] := by
      rw [List.map_append]
      rfl
    refine ⟨hh.free, fun k hk => ?_, ?_, fun c hc => ?_, fun k hk => ?_⟩
    · rcases List.mem_append.mp hk with hk | hk
      · obtain ⟨hlt, hno⟩ := h.closed k hk
        exact ⟨hlt, fun fd' hfd' => hno fd' (update_none_cases hfd').2⟩
      · obtain rfl := List.mem_singleton.mp hk
        refine ⟨h.handles.lt fd conn hown, fun fd' hfd' => ?_⟩
        obtain ⟨hne, hfd'⟩ := update_none_cases hfd'
        exact hne (h.handles.unique fd' fd conn hfd' hown)
    · dsimp only
      rw [hlog]
      exact List.nodup_append.mpr ⟨h.once, List.nodup_singleton _, fun a ha b hb hab => by
        rw [List.mem_singleton.mp hb] at hab
        exact hnew (hab ▸ ha)⟩
    · dsimp only
      rw [hlog]
      rcases h.failed c hc with hc | ⟨t', fd', hmem⟩
      · exact .inl (List.mem_append_left _ hc)
      · by_cases hne : t' = t
        · rw [hne, hl] at hmem
          rcases List.mem_cons.mp hmem with he | hmem
          · obtain rfl := (Prod.mk.inj he).2
            exact .inl (List.mem_append_right _ (List.mem_singleton_self _))
          · refine .inr ⟨t, fd', ?_⟩
            rw [todo_setTodo_self]
            exact hmem
        · refine .inr ⟨t', fd', ?_⟩
          rw [todo_setTodo_ne l hne]
          exact hmem
    · rcases List.mem_append.mp hk with hk | hk
      · exact h.own k hk
      · obtain rfl := List.mem_singleton.mp hk
        intro c hc
        exact Option.some.inj (hc.symm.trans hown)

/-! ## Failure paths -/

/-- `addSession` and `bufferevent_enable` do not fail in `onMainRead`, and
`bufferevent_socket_new` does not fail in `onAssistRead`. -/
def Careful (S : SockWorld) (i : Step) : Prop :=
  S.Enabled i ∧ match i with
    | .onMainRead o => o = .noBuffer ∨ o = .ok
    | .onAssistRead o => o ≠ .noBuffer
    | _ => True

instance (S : SockWorld) : DecidablePred S.Careful
  | .onMainRead _ => inferInstanceAs (Decidable (True ∧ (_ ∨ _)))
  | .onAssistRead _ => inferInstanceAs (Decidable (True ∧ _ ≠ _))
  | .listenerAcceptCB _ _ _ | .link _ _ => inferInstanceAs (Decidable (_ = _ ∧ True))
  | .endSession _ | .close _ => .isTrue ⟨trivial, trivial⟩

theorem Inv.step (h : S.Inv) {i : Step} (hi : S.Careful i) : (S.step i).Inv := by
  cases i with
  | listenerAcceptCB sock emType bSent =>
    rw [SockWorld.step]
    split
    · exact h.listenerAcceptCB ‹_› hi.1 emType bSent
    · exact h
  | link sok bSent =>
    rw [SockWorld.step]
    split
    · exact h.link ‹_› hi.1 bSent
    · exact h
  | onMainRead o =>
    rw [SockWorld.step]
    split
    · exact h.onMainRead ‹_› hi.2
    · exact h
  | onAssistRead o =>
    rw [SockWorld.step]
    split
    · exact h.onAssistRead ‹_› hi.2
    · exact h
  | endSession fd =>
    rw [SockWorld.step]
    split
    · exact h.endSession ‹_› fd
    · exact h
  | close t => exact h.close t

/-- **Every socket whose set-up fails is closed exactly once, and no close hits another
connection**, in every run without the three branches. -/
theorem right_of_careful (h : Reach step Careful start S) : S.Right :=
  (h.invariant Inv .start fun _ _ hS hi => hS.step hi).right

theorem close_of_todo {l : List (QSock × ℕ)} (h : S.todo t = (fd, c) :: l) :
    (S.close t).closes = S.closes ++ [⟨fd, c, S.owner fd⟩] ∧ (S.close t).todo t = l
      ∧ (S.close t).failed = S.failed := by
  rw [close, h]
  exact ⟨rfl, todo_setTodo_self S t l, rfl⟩

/-- A connection that both `evutil_closesocket` and `bufferevent_free` are to close is
closed twice. -/
theorem not_right_of_twice (hc : c ∈ S.failed) (h : S.todo .worker = [(fd, c), (fd, c)]) :
    ¬ ((S.close .worker).close .worker).Right := by
  intro hright
  obtain ⟨hcl₁, htodo₁, hf₁⟩ := close_of_todo h
  obtain ⟨hcl₂, -, hf₂⟩ := close_of_todo htodo₁
  have hle := hright.atMost c (by rw [hf₂, hf₁]; exact hc)
  rw [hcl₂, hcl₁] at hle
  simp [List.countP_append] at hle

/-- A connection that nobody is to close, although its set-up has failed. -/
theorem not_right_of_leak (hc : c ∈ S.failed) (hno : ∀ t fd, (fd, c) ∉ S.todo t)
    (hcl : c ∉ S.closes.map CloseCall.conn) : ¬ S.Right := by
  intro hright
  have hone := hright.exactly c hc hno
  have hpos : 0 < S.closes.countP (·.conn = c) := by
    rw [hone]
    exact Nat.one_pos
  obtain ⟨k, hk, hkc⟩ := List.countP_pos_iff.mp hpos
  exact hcl (List.mem_map.mpr ⟨k, hk, of_decide_eq_true hkc⟩)

/-- **Each of the three branches is wrong** wherever a run without them comes to it: two
close their socket twice, and one not at all. -/
theorem not_right_of_not_careful (h : Reach step Careful start S) (ht : S.todo .worker = []) :
    (∀ o, o = .noSession ∨ o = .notEnabled → S.main ≠ [] →
      ¬ (((S.step (.onMainRead o)).close .worker).close .worker).Right)
      ∧ (S.assist ≠ [] → ¬ (S.step (.onAssistRead .noBuffer)).Right) := by
  have hinv : S.Inv := h.invariant Inv .start fun _ _ hS hi => hS.step hi
  constructor
  · intro o ho hm
    obtain ⟨⟨⟨fd, c⟩, emType⟩, main, hmain⟩ := List.exists_cons_of_ne_nil hm
    have hfail : S.step (.onMainRead o)
        = { S with main := main : SockWorld }.fail .worker c [(fd, c), (fd, c)] := by
      rw [step, if_pos ht, onMainRead, hmain]
      rcases ho with rfl | rfl
      · rfl
      · rfl
    rw [hfail]
    exact @not_right_of_twice _ fd c (List.mem_append_right _ (List.mem_singleton_self _))
      (todo_setTodo_self { S with main := main } .worker _)
  · intro ha
    obtain ⟨⟨fd, c⟩, assist, hassist⟩ := List.exists_cons_of_ne_nil ha
    have hfail : S.step (.onAssistRead .noBuffer)
        = { S with assist := assist : SockWorld }.fail .worker c [] := by
      rw [step, if_pos ht, onAssistRead, hassist]
    have hheld : S.held.Perm ((fd, c) :: { S with assist := assist : SockWorld }.held) := by
      refine List.perm_iff_count.mpr fun x => ?_
      simp [held, hassist, List.count_cons]
      omega
    have hmem : (fd, c) ∈ S.held := hheld.symm.subset List.mem_cons_self
    rw [hfail]
    refine not_right_of_leak (c := c) (List.mem_append_right _ (List.mem_singleton_self _)) ?_
      (hinv.notMem_closes hmem)
    intro t fd' htodo
    replace htodo : (fd', c) ∈ (setTodo { S with assist := assist } .worker []).todo t := htodo
    have htodo' : (fd', c) ∈ S.todo t := by
      by_cases hne : t = .worker
      · rw [hne, todo_setTodo_self] at htodo
        cases htodo
      · rw [todo_setTodo_ne [] hne] at htodo
        exact htodo
    have hin : (fd', c) ∈ { S with assist := assist : SockWorld }.held := by
      cases t
      all_goals simp [held, htodo']
    -- it would be held in two places
    have howner := hinv.handles.held_owner fd' c (hheld.symm.subset (List.mem_cons_of_mem _ hin))
    obtain rfl := hinv.handles.unique fd' fd c howner (hinv.handles.held_owner fd c hmem)
    exact (List.nodup_cons.mp (hheld.nodup_iff.mp hinv.handles.nodup)).1 hin

/-- A link and a connection cannot be set up, another connection cannot be sent, and the
number of the first one is handed out again. -/
def carefulFailures : List Step :=
  [.link 5 true, .listenerAcceptCB 6 .tcp true, .listenerAcceptCB 7 .tcp false,
    .onAssistRead .noSession, .close .worker, .link 5 true, .onMainRead .noBuffer,
    .close .listener, .close .worker, .onAssistRead .ok]

theorem right_carefulFailures : (carefulFailures.foldl step start).failed = [2, 0, 1]
    ∧ (carefulFailures.foldl step start).Right := by
  have hrun : Reach step Careful start (carefulFailures.foldl step start) :=
    Reach.start.of_list carefulFailures (by decide)
  exact ⟨by decide, right_of_careful hrun⟩

/-- `addSession` fails; the socket is closed, its number goes to a new connection, and
`bufferevent_free` closes it again. -/
def closeReused : List Step :=
  [.listenerAcceptCB 5 .tcp true, .onMainRead .noSession, .close .worker,
    .listenerAcceptCB 5 .tcp true, .close .worker]

theorem not_right_closeReused :
    ¬ ∀ S : SockWorld, Reach step Enabled start S → S.Right := by
  intro h
  have hrun : Reach step Enabled start (closeReused.foldl step start) :=
    Reach.start.of_list closeReused (by decide)
  have hlog : (closeReused.foldl step start).closes = [⟨5, 0, some 0⟩, ⟨5, 0, some 1⟩] := by
    decide
  have hown := (h _ hrun).own ⟨5, 0, some 1⟩ (by simp [hlog]) 1 rfl
  exact absurd hown (by decide)

end SockWorld
