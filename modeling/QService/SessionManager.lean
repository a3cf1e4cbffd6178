import QService.CInt
import QService.ObjPool
import QService.Runs
import QService.Session
import Mathlib.Data.List.AList

/-!
# The session manager and its pool

`CSessionManager` keeps the sessions in a map from sockets, and the session
objects in a pool. Here the objects are explicit: an operation that ends a
session clears its object, gives it back to the pool, and erases the entry.

Two things are proved over whole runs. The map and the pool agree
(`agrees_of_run`): the objects in the map are exactly those in use, under
their own sockets. And a session that is put in the map carries nothing of an
earlier connection (`fresh_of_clearedFrees`). This needs that every path
clears an object before it gives it back, and `freeAllSession` does not: it
is safe only while no session carries anything (`freeAllSession_leaks`).
-/

/-- A libevent `bufferevent`: its number, its socket, and whether it has the two
buffers that `setBuffer` asks for. -/
structure BufferEvent where
  id : ℕ
  fd : QSock
  input : Bool
  output : Bool
  deriving DecidableEq, Repr

/-- A `CEventBuffer`: `m_pBev` and `m_FD`. -/
structure EventBuf where
  bev : Option BufferEvent
  fd : QSock
  deriving DecidableEq, Repr

/-- `CEventBuffer::setBuffer`, with whether it succeeds. -/
def EventBuf.setBuffer (pBev : Option BufferEvent) (B : EventBuf) : Bool × EventBuf :=
  match pBev with
  | none => (false, ⟨none, invalidSock⟩)
  | some bev =>
    let B := { B with bev := some bev }
    if !bev.input then (false, B)
    else if !bev.output then (false, B)
    else
      let B := { B with fd := bev.fd }
      if bev.fd = invalidSock then (false, B) else (true, B)

/-- A `CSession` object. -/
structure SessionObject where
  type : SessionType
  status : SessionStatus
  sessionID : QSock
  ping : ℕ
  exterID : List UInt8
  account : List UInt8
  idCard : List UInt8
  buffer : EventBuf
  deriving DecidableEq, Repr

namespace SessionObject

/-- `CSession::CSession`. -/
def new : SessionObject := ⟨.tcp, .closed, -1, 0, [], [], [], ⟨none, invalidSock⟩⟩

/-- `CSession::Clear`. -/
def clear (S : SessionObject) : SessionObject :=
  { S with
    type := .tcp
    sessionID := -1
    status := .closed
    ping := 0
    exterID := []
    account := []
    idCard := []
    buffer := (S.buffer.setBuffer none).2 }

/-- `CSession::getSessionID`, which converts the socket to an `int`. -/
def getSessionID (S : SessionObject) : ℤ := CInt.int.cast S.sessionID

/-- A call of a setter of the session. -/
inductive Setter
  | account (pszAccount : List UInt8)
  | idCard (pszID : List UInt8)
  | exterID (pszID : List UInt8)
  | type (emType : SessionType)
  | status (status : SessionStatus)
  | ping (uiPing : ℕ)

/-- The session after a call of a setter. -/
def set (S : SessionObject) : Setter → SessionObject
  | .account s => { S with account := s }
  | .idCard s => { S with idCard := s }
  | .exterID s => { S with exterID := s }
  | .type t => { S with type := t }
  | .status st => { S with status := st }
  | .ping n => { S with ping := n }

/-- **The session carries nothing of a connection**: no account, no ID card and no
ID, and the type and status of a new session. -/
def Fresh (S : SessionObject) : Prop :=
  S.account = [] ∧ S.idCard = [] ∧ S.exterID = [] ∧ S.type = .tcp ∧ S.status = .closed

instance (S : SessionObject) : Decidable S.Fresh := inferInstanceAs (Decidable (_ ∧ _))

theorem clear_eq_new (S : SessionObject) : S.clear = new := rfl

theorem fresh_new : new.Fresh := by decide

end SessionObject

/-- `CSessionManager`: the map, the pool and its objects, the current session and
the number of timer events. -/
structure SessionManager where
  umapSession : AList fun _ : QSock => ℕ
  sessionPool : ObjPool
  objects : ℕ → SessionObject
  current : Option ℕ
  count : ℕ

namespace SessionManager

/-- `Q_INITSESSIONSIZE`. -/
def initSessionSize : ℕ := 1024

/-- The manager before the first connection. -/
def start : SessionManager :=
  ⟨∅, .init initSessionSize, fun _ => .new, none, 0⟩

/-- The objects in the map. -/
def values (M : SessionManager) : List ℕ := M.umapSession.entries.map Sigma.snd

/-- An object is changed. -/
def modify (M : SessionManager) (p : ℕ) (f : SessionObject → SessionObject) : SessionManager :=
  { M with objects := Function.update M.objects p (f (M.objects p)) }

/-- `m_objSessionPool.Malloc()`. An object that is not from the queue is
constructed. -/
def malloc (M : SessionManager) : ℕ × SessionManager :=
  let (p, pool) := M.sessionPool.malloc
  let objects :=
    if M.sessionPool.quFree = [] then Function.update M.objects p .new else M.objects
  (p, { M with sessionPool := pool, objects := objects })

/-- `m_objSessionPool.Free(pSession)`. -/
def free (M : SessionManager) (p : ℕ) : SessionManager :=
  { M with sessionPool := M.sessionPool.free p }

/-- The entry of a socket is erased from the map. -/
def eraseEntry (M : SessionManager) (fd : QSock) : SessionManager :=
  { M with umapSession := M.umapSession.erase fd }

/-- `pSession->Clear()`, `Free(pSession)` and the erasure of the entry, with which
`dellSession` and `closeLinkByID` end. -/
def recycle (M : SessionManager) (fd : QSock) (p : ℕ) : SessionManager :=
  ((M.modify p SessionObject.clear).free p).eraseEntry fd

/-- `CSessionManager::getSession`. -/
def getSession (M : SessionManager) (bev : BufferEvent) : Option ℕ :=
  if bev.fd = invalidSock then none else M.umapSession.lookup bev.fd

/-- `CSessionManager::dellSession`. No entry of the map is NULL. -/
def dellSession (M : SessionManager) (bev : BufferEvent) : SessionManager :=
  match M.umapSession.lookup bev.fd with
  | none => M
  | some pSession => M.recycle bev.fd pSession

/-- `CSessionManager::addSession`, with whether it succeeds. -/
def addSession (M : SessionManager) (bev : BufferEvent) : Bool × SessionManager :=
  let (pSession, M) := M.malloc
  let (bOk, buffer) := (M.objects pSession).buffer.setBuffer (some bev)
  let M := M.modify pSession fun S => { S with buffer := buffer }
  if !bOk then (false, (M.modify pSession SessionObject.clear).free pSession)
  else
    let fd := buffer.fd
    let M := M.modify pSession fun S => { S with sessionID := fd, ping := M.count }
    (true, { M with umapSession := M.umapSession.insert fd pSession })

/-- `CSessionManager::closeLinkByID`. -/
def closeLinkByID (M : SessionManager) (iID : QSock) : SessionManager :=
  if iID = invalidSock then M
  else
    match M.umapSession.lookup iID with
    | none => M
    | some pSession => M.recycle iID pSession

/-- `CSessionManager::closeCurLink`. -/
def closeCurLink (M : SessionManager) : SessionManager :=
  match M.current with
  | none => M
  | some p => M.closeLinkByID (M.objects p).getSessionID

/-- `CSessionManager::freeAllSession`, for the order in which the map is walked. It
frees the objects as they are. -/
def freeAllSession (M : SessionManager) (order : List ℕ) : SessionManager :=
  { order.foldl free M with umapSession := ∅ }

/-- An operation of the manager, or a call of a setter. -/
inductive Op
  | addSession (bev : BufferEvent)
  | dellSession (bev : BufferEvent)
  | closeLinkByID (iID : QSock)
  | closeCurLink
  | freeAllSession (order : List ℕ)
  | setCurSession (p : Option ℕ)
  | set (p : ℕ) (call : SessionObject.Setter)

/-- One operation. -/
def step (M : SessionManager) : Op → SessionManager
  | .addSession bev => (M.addSession bev).2
  | .dellSession bev => M.dellSession bev
  | .closeLinkByID iID => M.closeLinkByID iID
  | .closeCurLink => M.closeCurLink
  | .freeAllSession order => M.freeAllSession order
  | .setCurSession p => { M with current := p }
  | .set p call => M.modify p (SessionObject.set · call)

/-- The map is walked in some order; setters are called on objects in use. -/
def Proper (M : SessionManager) : Op → Prop
  | .freeAllSession order => order.Perm M.values
  | .set p _ => p ∈ M.sessionPool.lstUsed
  | _ => True

/-! ## The map and the objects in it -/

/-- The objects in the map are in use, each under its own socket and under no
other. -/
structure Inv (M : SessionManager) : Prop where
  nodup : M.values.Nodup
  used : ∀ p ∈ M.values, p ∈ M.sessionPool.lstUsed
  ids : ∀ fd p, M.umapSession.lookup fd = some p →
    (M.objects p).sessionID = fd ∧ (M.objects p).buffer.fd = fd

theorem mem_values {M : SessionManager} {fd : QSock} {p : ℕ}
    (h : M.umapSession.lookup fd = some p) : p ∈ M.values :=
  List.mem_map.mpr ⟨⟨fd, p⟩, AList.mem_lookup_iff.mp h, rfl⟩

/-- An entry is one of the values, and erasing it leaves the others. -/
theorem perm_values_eraseEntry {M : SessionManager} {fd : QSock} {p : ℕ}
    (h : M.umapSession.lookup fd = some p) :
    M.values.Perm (p :: (M.eraseEntry fd).values) := by
  have hmem : fd ∈ M.umapSession.entries.keys :=
    AList.mem_keys.mp (AList.lookup_isSome.mp (by rw [h]; rfl))
  obtain ⟨q, l₁, l₂, hnot, hl, hk⟩ := List.exists_of_kerase hmem
  have hq : q = p := by
    have hin : (⟨fd, q⟩ : Sigma fun _ : QSock => ℕ) ∈ M.umapSession.entries := by
      rw [hl]
      exact List.mem_append_right _ List.mem_cons_self
    have hlook := AList.mem_lookup_iff.mpr hin
    rw [h] at hlook
    exact (Option.some.inj hlook).symm
  have hvals : (M.eraseEntry fd).values = (l₁ ++ l₂).map Sigma.snd := by
    show (M.umapSession.entries.kerase fd).map Sigma.snd = _
    rw [hk]
  rw [hvals, values, hl, hq, List.map_append, List.map_append, List.map_cons]
  exact List.perm_middle

/-! ### Recycling -/

section Recycle

variable {M : SessionManager} {fd : QSock} {p : ℕ}

theorem objects_recycle_same : (M.recycle fd p).objects p = .new := Function.update_self _ _ _

theorem objects_recycle_ne {q : ℕ} (h : q ≠ p) :
    (M.recycle fd p).objects q = M.objects q := Function.update_of_ne h _ _

theorem lookup_recycle {sd : QSock} {q : ℕ} (h : (M.recycle fd p).umapSession.lookup sd = some q) :
    sd ≠ fd ∧ M.umapSession.lookup sd = some q := by
  have hne : sd ≠ fd := by
    rintro rfl
    rw [show (M.recycle sd p).umapSession = M.umapSession.erase sd from rfl,
      AList.lookup_erase] at h
    cases h
  exact ⟨hne, (AList.lookup_erase_ne hne).symm.trans h⟩

/-- A session is recycled. -/
theorem Inv.recycle (h : Inv M) (hp : M.umapSession.lookup fd = some p) :
    Inv (M.recycle fd p) := by
  have hperm := perm_values_eraseEntry hp
  have hnodup := hperm.nodup_iff.mp h.nodup
  have hother : ∀ q ∈ (M.recycle fd p).values, q ≠ p := by
    rintro q hq rfl
    exact (List.nodup_cons.mp hnodup).1 hq
  refine ⟨(List.nodup_cons.mp hnodup).2, fun q hq => ?_, fun sd q hq => ?_⟩
  · show q ∈ (M.sessionPool.free p).lstUsed
    rw [ObjPool.lstUsed_free]
    have hval : q ∈ M.values := hperm.mem_iff.mpr (List.mem_cons_of_mem _ hq)
    exact (List.mem_erase_of_ne (hother q hq)).mpr (h.used q hval)
  · obtain ⟨-, hlook⟩ := lookup_recycle hq
    rw [objects_recycle_ne (hother q (mem_values hq))]
    exact h.ids sd q hlook

end Recycle

/-! ### Adding -/

section Add

variable {M : SessionManager} {bev : BufferEvent}

/-- What the object that `Malloc` gives holds. -/
def mallocObject (M : SessionManager) : SessionObject :=
  if M.sessionPool.quFree = [] then .new else M.objects M.sessionPool.malloc.1

/-- `setBuffer` succeeds for the event. -/
def BufferOk (bev : BufferEvent) : Prop :=
  bev.input = true ∧ bev.output = true ∧ bev.fd ≠ invalidSock

instance (bev : BufferEvent) : Decidable (BufferOk bev) := inferInstanceAs (Decidable (_ ∧ _))

theorem setBuffer_of_ok (h : BufferOk bev) (B : EventBuf) :
    B.setBuffer (some bev) = (true, ⟨some bev, bev.fd⟩) := by
  obtain ⟨hin, hout, hfd⟩ := h
  simp [EventBuf.setBuffer, hin, hout, hfd]

theorem setBuffer_of_not_ok (h : ¬ BufferOk bev) (B : EventBuf) :
    (B.setBuffer (some bev)).1 = false := by
  unfold EventBuf.setBuffer
  dsimp only
  split_ifs with h₁ h₂ h₃
  · rfl
  · rfl
  · rfl
  · exact absurd ⟨by simpa using h₁, by simpa using h₂, h₃⟩ h

/-- **A session is added**: the object that the pool gives is put under the socket,
and only that object is written. -/
theorem addSession_of_ok (h : BufferOk bev) :
    M.addSession bev
      = (true, { M with
          umapSession := M.umapSession.insert bev.fd M.sessionPool.malloc.1
          sessionPool := M.sessionPool.malloc.2
          objects := Function.update M.objects M.sessionPool.malloc.1
            { M.mallocObject with
              buffer := ⟨some bev, bev.fd⟩, sessionID := bev.fd, ping := M.count } }) := by
  unfold addSession malloc modify mallocObject
  dsimp only
  rw [setBuffer_of_ok h]
  by_cases hfree : M.sessionPool.quFree = []
  · simp [hfree]
  · simp [hfree]

theorem lookup_addSession (h : BufferOk bev) :
    (M.addSession bev).2.umapSession.lookup bev.fd = some M.sessionPool.malloc.1 := by
  rw [addSession_of_ok h]
  exact AList.lookup_insert _

/-- The object of the session that is added. -/
theorem objects_addSession (h : BufferOk bev) :
    (M.addSession bev).2.objects M.sessionPool.malloc.1
      = { M.mallocObject with
          buffer := ⟨some bev, bev.fd⟩, sessionID := bev.fd, ping := M.count } := by
  rw [addSession_of_ok h]
  exact Function.update_self _ _ _

theorem account_addSession (h : BufferOk bev) :
    ((M.addSession bev).2.objects M.sessionPool.malloc.1).account = M.mallocObject.account := by
  rw [objects_addSession h]

/-- **A session is not added**: the object goes back to the pool as a new one. -/
theorem addSession_of_not_ok (h : ¬ BufferOk bev) :
    M.addSession bev
      = (false, { M with
          sessionPool := M.sessionPool.malloc.2.free M.sessionPool.malloc.1
          objects := Function.update M.objects M.sessionPool.malloc.1 .new }) := by
  unfold addSession malloc modify free
  dsimp only
  rw [setBuffer_of_not_ok h]
  by_cases hfree : M.sessionPool.quFree = []
  · simp [hfree, SessionObject.clear_eq_new]
  · simp [hfree, SessionObject.clear_eq_new]

theorem Inv.malloc_notMem_values (h : Inv M) : M.sessionPool.malloc.1 ∉ M.values :=
  fun hp => M.sessionPool.malloc_notMem_lstUsed (h.used _ hp)

/-- The next object of the pool has no entry. -/
theorem Inv.ne_malloc_of_lookup (h : Inv M) {sd : QSock} {q : ℕ}
    (hq : M.umapSession.lookup sd = some q) : q ≠ M.sessionPool.malloc.1 := by
  rintro rfl
  exact h.malloc_notMem_values (mem_values hq)

/-- Two entries have two objects. -/
theorem Inv.ne_of_lookup (h : Inv M) {sd fd : QSock} {q p : ℕ}
    (hq : M.umapSession.lookup sd = some q) (hp : M.umapSession.lookup fd = some p)
    (hne : sd ≠ fd) : q ≠ p := by
  rintro rfl
  exact hne ((h.ids sd q hq).1.symm.trans (h.ids fd q hp).1)

theorem Inv.addSession (h : Inv M) (bev : BufferEvent) : Inv (M.addSession bev).2 := by
  have hnew := h.malloc_notMem_values
  by_cases hok : BufferOk bev
  · rw [addSession_of_ok hok]
    set p := M.sessionPool.malloc.1
    have hvals : (M.umapSession.insert bev.fd p).entries.map Sigma.snd
        = p :: (M.eraseEntry bev.fd).values := rfl
    have hsub : ((M.eraseEntry bev.fd).values).Sublist M.values :=
      (List.kerase_sublist _ _).map _
    refine ⟨?_, fun q hq => ?_, fun sd q hq => ?_⟩
    · show ((M.umapSession.insert bev.fd p).entries.map Sigma.snd).Nodup
      rw [hvals]
      exact List.nodup_cons.mpr ⟨fun hp => hnew (hsub.subset hp), hsub.nodup h.nodup⟩
    · have hq' : q ∈ p :: (M.eraseEntry bev.fd).values := hq
      show q ∈ M.sessionPool.malloc.2.lstUsed
      rw [ObjPool.lstUsed_malloc]
      rcases List.mem_cons.mp hq' with rfl | hq'
      · exact List.mem_append_right _ (List.mem_singleton_self _)
      · exact List.mem_append_left _ (h.used q (hsub.subset hq'))
    · dsimp only at hq ⊢
      by_cases hsd : sd = bev.fd
      · rw [hsd, AList.lookup_insert] at hq
        rw [← Option.some.inj hq, Function.update_self, hsd]
        exact ⟨rfl, rfl⟩
      · rw [AList.lookup_insert_ne hsd] at hq
        have hqp : q ≠ p := by
          rintro rfl
          exact hnew (mem_values hq)
        rw [Function.update_of_ne hqp]
        exact h.ids sd q hq
  · rw [addSession_of_not_ok hok]
    refine ⟨h.nodup, fun q hq => ?_, fun sd q hq => ?_⟩
    · have hq' : q ∈ M.values := hq
      show q ∈ (M.sessionPool.malloc.2.free M.sessionPool.malloc.1).lstUsed
      rw [ObjPool.lstUsed_free, ObjPool.lstUsed_malloc]
      refine (List.mem_erase_of_ne ?_).mpr (List.mem_append_left _ (h.used q hq'))
      rintro rfl
      exact hnew hq'
    · dsimp only at hq ⊢
      have hqp : q ≠ M.sessionPool.malloc.1 := by
        rintro rfl
        exact hnew (mem_values hq)
      rw [Function.update_of_ne hqp]
      exact h.ids sd q hq

end Add

/-! ### The other operations -/

theorem Inv.start : Inv start := ⟨List.nodup_nil, nofun, nofun⟩

/-- What a close or a deletion can do: nothing, or recycle a session. -/
theorem closeLinkByID_cases (M : SessionManager) (iID : QSock) :
    M.closeLinkByID iID = M
      ∨ ∃ p, M.umapSession.lookup iID = some p ∧ M.closeLinkByID iID = M.recycle iID p := by
  unfold closeLinkByID
  split_ifs
  · exact .inl rfl
  · cases hp : M.umapSession.lookup iID with
    | none => exact .inl rfl
    | some p => exact .inr ⟨p, rfl, rfl⟩

theorem dellSession_cases (M : SessionManager) (bev : BufferEvent) :
    M.dellSession bev = M
      ∨ ∃ p, M.umapSession.lookup bev.fd = some p ∧ M.dellSession bev = M.recycle bev.fd p := by
  unfold dellSession
  cases hp : M.umapSession.lookup bev.fd with
  | none => exact .inl rfl
  | some p => exact .inr ⟨p, rfl, rfl⟩

/-- **What an operation can do** to the map, the pool and the objects: nothing, add
a session, recycle one, free them all, or call a setter. -/
theorem step_cases (M : SessionManager) (op : Op) :
    (∃ cur, M.step op = { M with current := cur })
      ∨ (∃ bev, op = .addSession bev ∧ M.step op = (M.addSession bev).2)
      ∨ (∃ fd p, M.umapSession.lookup fd = some p ∧ M.step op = M.recycle fd p)
      ∨ (∃ order, op = .freeAllSession order ∧ M.step op = M.freeAllSession order)
      ∨ ∃ p call, op = .set p call ∧ M.step op = M.modify p (SessionObject.set · call) := by
  have hclose : ∀ id, (∃ cur, M.closeLinkByID id = { M with current := cur })
      ∨ ∃ fd p, M.umapSession.lookup fd = some p ∧ M.closeLinkByID id = M.recycle fd p := by
    intro id
    rcases M.closeLinkByID_cases id with heq | ⟨p, hp, heq⟩
    · exact .inl ⟨M.current, heq⟩
    · exact .inr ⟨id, p, hp, heq⟩
  cases op with
  | addSession bev => exact .inr (.inl ⟨bev, rfl, rfl⟩)
  | dellSession bev =>
    rcases M.dellSession_cases bev with heq | ⟨p, hp, heq⟩
    · exact .inl ⟨M.current, heq⟩
    · exact .inr (.inr (.inl ⟨bev.fd, p, hp, heq⟩))
  | closeLinkByID id =>
    rcases hclose id with h | h
    · exact .inl h
    · exact .inr (.inr (.inl h))
  | closeCurLink =>
    show (∃ cur, M.closeCurLink = _) ∨ _ ∨ (∃ fd p, _ ∧ M.closeCurLink = _) ∨ _
    unfold closeCurLink
    cases M.current with
    | none => exact .inl ⟨M.current, rfl⟩
    | some p =>
      rcases hclose (M.objects p).getSessionID with h | h
      · exact .inl h
      · exact .inr (.inr (.inl h))
  | freeAllSession order => exact .inr (.inr (.inr (.inl ⟨order, rfl, rfl⟩)))
  | setCurSession p => exact .inl ⟨p, rfl⟩
  | set p call => exact .inr (.inr (.inr (.inr ⟨p, call, rfl, rfl⟩)))

/-- A setter does not touch the socket of a session. -/
theorem set_ids (S : SessionObject) (call : SessionObject.Setter) :
    (S.set call).sessionID = S.sessionID ∧ (S.set call).buffer = S.buffer := by
  cases call <;> exact ⟨rfl, rfl⟩

theorem objects_modify (M : SessionManager) (p q : ℕ) (f : SessionObject → SessionObject) :
    (M.modify p f).objects q = if q = p then f (M.objects p) else M.objects q := by
  unfold modify
  dsimp only
  rw [Function.update_apply]

theorem sessionPool_freeAllSession (M : SessionManager) (order : List ℕ) :
    (M.freeAllSession order).sessionPool = order.foldl ObjPool.free M.sessionPool := by
  show (order.foldl free M).sessionPool = _
  induction order generalizing M with
  | nil => rfl
  | cons p order ih =>
    rw [List.foldl_cons, ih, List.foldl_cons]
    rfl

theorem objects_freeAllSession (M : SessionManager) (order : List ℕ) :
    (M.freeAllSession order).objects = M.objects := by
  show (order.foldl free M).objects = _
  induction order generalizing M with
  | nil => rfl
  | cons p order ih =>
    rw [List.foldl_cons, ih]
    rfl

/-- **Every operation keeps the invariant.** -/
theorem Inv.step {M : SessionManager} (h : Inv M) (op : Op) : Inv (M.step op) := by
  rcases M.step_cases op with ⟨cur, heq⟩ | ⟨bev, -, heq⟩ | ⟨fd, p, hp, heq⟩ | ⟨order, -, heq⟩
    | ⟨p, call, -, heq⟩
  · rw [heq]
    exact ⟨h.nodup, h.used, h.ids⟩
  · rw [heq]
    exact h.addSession bev
  · rw [heq]
    exact h.recycle hp
  · rw [heq]
    exact ⟨List.nodup_nil, nofun, nofun⟩
  · rw [heq]
    refine ⟨h.nodup, h.used, fun fd q hq => ?_⟩
    obtain ⟨h₁, h₂⟩ := h.ids fd q hq
    rw [objects_modify]
    split_ifs with hqp
    · subst hqp
      rw [(set_ids _ call).1, (set_ids _ call).2]
      exact ⟨h₁, h₂⟩
    · exact ⟨h₁, h₂⟩

/-! ## The map and the pool agree -/

/-- The system hands out a socket only when the map has none under it, and sockets
are numbers that an `int` holds. -/
def FreshSock (M : SessionManager) (op : Op) : Prop :=
  M.Proper op ∧ match op with
    | .addSession bev => bev.fd ∉ M.umapSession ∧ CInt.int.Fits bev.fd
    | _ => True

/-- **The map and the pool agree**: the objects in the map are exactly those in use,
each once; each key is the ID of its session and the socket of its buffer;
objects in use and free objects are different; and the counter of the pool is
the size of the map. -/
structure Agrees (M : SessionManager) : Prop where
  values : M.values.Perm M.sessionPool.lstUsed ∧ M.values.Nodup
  keys : ∀ fd p, M.umapSession.lookup fd = some p →
    (M.objects p).getSessionID = fd ∧ (M.objects p).buffer.fd = fd
  disjoint : M.sessionPool.lstUsed.Disjoint M.sessionPool.quFree
  uiCount : M.sessionPool.uiCount.toNat = M.umapSession.keys.length

/-- What is kept along a run in which sockets are fresh: no object in use is
missing from the map, and the keys are sockets that an `int` holds. -/
structure Full (M : SessionManager) : Prop extends Inv M where
  size : M.sessionPool.lstUsed.length = M.values.length
  fits : ∀ fd ∈ M.umapSession.keys, CInt.int.Fits fd ∧ fd ≠ invalidSock

theorem length_values (M : SessionManager) : M.values.length = M.umapSession.keys.length := by
  unfold values AList.keys List.keys
  rw [List.length_map, List.length_map]

/-- There are fewer than `2 ^ 32` sockets, so the counter of the pool cannot wrap. -/
theorem length_keys_lt {l : List QSock} (hnodup : l.Nodup)
    (h : ∀ fd ∈ l, CInt.int.Fits fd ∧ fd ≠ invalidSock) : l.length < 2 ^ 32 := by
  have hcard : ∀ a b : ℤ, a ≤ invalidSock → invalidSock ≤ b →
      (∀ fd ∈ l, (a ≤ fd ∧ fd ≤ b) ∧ fd ≠ invalidSock) → l.length < (b + 1 - a).toNat := by
    intro a b ha hb hl
    have hsub : l.toFinset ⊆ (Finset.Icc a b).erase invalidSock := by
      intro fd hfd
      obtain ⟨hfits, hne⟩ := hl fd (List.mem_toFinset.mp hfd)
      exact Finset.mem_erase.mpr ⟨hne, Finset.mem_Icc.mpr hfits⟩
    have hle := Finset.card_le_card hsub
    rw [List.toFinset_card_of_nodup hnodup,
      Finset.card_erase_of_mem (Finset.mem_Icc.mpr ⟨ha, hb⟩), Int.card_Icc] at hle
    have hab : a ≤ b := le_trans ha hb
    omega
  have hrange : (CInt.int.max + 1 - CInt.int.min).toNat = 2 ^ 32 := by decide +kernel
  rw [← hrange]
  exact hcard _ _ (by decide +kernel) (by decide +kernel) h

/-- **The agreement follows from what is kept.** -/
theorem Full.agrees {M : SessionManager} (h : Full M) : Agrees M where
  values := by
    refine ⟨(List.subperm_of_subset h.nodup h.used).perm_of_length_le ?_, h.nodup⟩
    exact h.size.le
  keys fd p hp := by
    have hkey : fd ∈ M.umapSession.keys :=
      AList.mem_keys.mp (AList.lookup_isSome.mp (by rw [hp]; rfl))
    obtain ⟨h₁, h₂⟩ := h.ids fd p hp
    rw [SessionObject.getSessionID, h₁, CInt.cast_of_fits (h.fits fd hkey).1]
    exact ⟨rfl, h₂⟩
  disjoint := M.sessionPool.disjoint
  uiCount := by
    have hlt := length_keys_lt M.umapSession.keys_nodup h.fits
    rw [M.sessionPool.uiCount_eq, h.size, length_values, UInt32.toNat_ofNat_of_lt' hlt]

/-- A session with a fresh socket is one more in the map and in the pool, and one that
cannot be added is in neither. -/
theorem Full.addSession {M : SessionManager} (h : Full M) {bev : BufferEvent}
    (hfresh : bev.fd ∉ M.umapSession) (hfits : CInt.int.Fits bev.fd)
    (hinv : Inv (M.addSession bev).2) : Full (M.addSession bev).2 := by
  by_cases hok : BufferOk bev
  · rw [addSession_of_ok hok] at hinv ⊢
    refine ⟨hinv, ?_, fun fd hfd => ?_⟩
    · show M.sessionPool.malloc.2.lstUsed.length
        = ((M.umapSession.insert bev.fd M.sessionPool.malloc.1).entries.map Sigma.snd).length
      rw [ObjPool.lstUsed_malloc, AList.entries_insert_of_notMem hfresh, List.map_cons,
        List.length_append, List.length_singleton, List.length_cons, h.size]
      rfl
    · rcases (AList.mem_insert _).mp (AList.mem_keys.mpr hfd) with rfl | hin
      · exact ⟨hfits, hok.2.2⟩
      · exact h.fits fd (AList.mem_keys.mp hin)
  · rw [addSession_of_not_ok hok] at hinv ⊢
    refine ⟨hinv, ?_, h.fits⟩
    show (M.sessionPool.malloc.2.free M.sessionPool.malloc.1).lstUsed.length = M.values.length
    rw [ObjPool.lstUsed_free, ObjPool.lstUsed_malloc,
      List.length_erase_of_mem (List.mem_append_right _ (List.mem_singleton_self _)),
      List.length_append, List.length_singleton, Nat.add_sub_cancel, h.size]

/-- A recycled session is one less in the map and in the pool. -/
theorem Full.recycle {M : SessionManager} (h : Full M) {fd : QSock} {p : ℕ}
    (hp : M.umapSession.lookup fd = some p) (hinv : Inv (M.recycle fd p)) :
    Full (M.recycle fd p) := by
  refine ⟨hinv, ?_, fun sd hsd => ?_⟩
  · have hlen := (perm_values_eraseEntry hp).length_eq
    rw [List.length_cons] at hlen
    show (M.sessionPool.free p).lstUsed.length = (M.eraseEntry fd).values.length
    rw [ObjPool.lstUsed_free, List.length_erase_of_mem (h.used p (mem_values hp)), h.size]
    omega
  · exact h.fits sd (AList.mem_keys.mp (AList.mem_erase.mp (AList.mem_keys.mpr hsd)).2)

/-- The objects that are all freed are all there were. -/
theorem Full.freeAllSession {M : SessionManager} (h : Full M) {order : List ℕ}
    (horder : order.Perm M.values) (hinv : Inv (M.freeAllSession order)) :
    Full (M.freeAllSession order) := by
  refine ⟨hinv, ?_, nofun⟩
  have hperm : order.Perm M.sessionPool.lstUsed := List.Perm.trans horder h.agrees.values.1
  rw [sessionPool_freeAllSession, ObjPool.lstUsed_foldl_free]
  show (M.sessionPool.lstUsed.diff order).length = 0
  have hnil : M.sessionPool.lstUsed.diff order = [] := by
    refine List.eq_nil_iff_forall_not_mem.mpr fun q hq => ?_
    obtain ⟨hin, hout⟩ := M.sessionPool.nodup_lstUsed.mem_sdiff_iff.mp hq
    exact hout (hperm.mem_iff.mpr hin)
  rw [hnil, List.length_nil]

/-- **Every operation with a fresh socket keeps the map full.** -/
theorem Full.step {M : SessionManager} (h : Full M) {op : Op} (hop : M.FreshSock op) :
    Full (M.step op) := by
  have hinv := h.toInv.step op
  rcases M.step_cases op with ⟨cur, heq⟩ | ⟨bev, rfl, heq⟩ | ⟨fd, p, hp, heq⟩
    | ⟨order, rfl, heq⟩ | ⟨p, call, -, heq⟩
  · rw [heq] at hinv ⊢
    exact ⟨hinv, h.size, h.fits⟩
  · rw [heq] at hinv ⊢
    exact h.addSession hop.2.1 hop.2.2 hinv
  · rw [heq] at hinv ⊢
    exact h.recycle hp hinv
  · rw [heq] at hinv ⊢
    exact h.freeAllSession hop.1 hinv
  · rw [heq] at hinv ⊢
    exact ⟨hinv, h.size, h.fits⟩

theorem Full.start : Full start := ⟨Inv.start, rfl, nofun⟩

/-- **The session map and the session pool agree in every run** in which the system
never hands out a socket that is still a key. -/
theorem agrees_of_run {M : SessionManager} (h : Reach step FreshSock start M) : Agrees M :=
  (h.invariant Full Full.start (fun _ _ hM hop => hM.step hop)).agrees

/-- Two connections, of which the first is closed and its socket handed out again. -/
theorem agrees_reuse :
    let bev : ℕ → QSock → BufferEvent := fun id fd => ⟨id, fd, true, true⟩
    let M := [Op.addSession (bev 0 5), .addSession (bev 1 6), .closeLinkByID 5,
      .addSession (bev 2 5), .dellSession (bev 1 6)].foldl step start
    M.umapSession.keys = [5] ∧ M.sessionPool.uiCount.toNat = M.umapSession.keys.length := by
  intro bev M
  have hrun : Reach step FreshSock start M := Reach.start.of_list _
    ⟨⟨trivial, by decide +kernel⟩, ⟨trivial, by decide +kernel⟩, ⟨trivial, trivial⟩,
      ⟨trivial, by decide +kernel⟩, ⟨trivial, trivial⟩, trivial⟩
  exact ⟨by decide +kernel, (agrees_of_run hrun).uiCount⟩

/-! ## What a recycled session carries -/

/-- All sessions are freed only while none of them carries anything. -/
def ClearedFrees (M : SessionManager) (op : Op) : Prop :=
  M.Proper op ∧ match op with
    | .freeAllSession _ => ∀ p ∈ M.values, (M.objects p).Fresh
    | _ => True

/-- What is kept along a run of such operations: the objects that wait in the pool
carry nothing. -/
structure Clean (M : SessionManager) : Prop extends Inv M where
  fresh : ∀ p ∈ M.sessionPool.quFree, (M.objects p).Fresh

theorem Clean.start : Clean start := ⟨Inv.start, fun _ _ => SessionObject.fresh_new⟩

/-- The object that the pool gives for the next session carries nothing. -/
theorem Clean.mallocObject {M : SessionManager} (h : Clean M) : M.mallocObject.Fresh := by
  unfold SessionManager.mallocObject
  split_ifs with hfree
  · exact SessionObject.fresh_new
  · refine h.fresh _ ?_
    rcases M.sessionPool.malloc_cases with ⟨free, hq, -⟩ | ⟨hq, -⟩
    · rw [hq]
      exact List.mem_cons_self
    · exact absurd hq hfree

/-- A session that is added takes an object from the pool, or puts it back as a new one. -/
theorem Clean.addSession {M : SessionManager} (h : Clean M) {bev : BufferEvent}
    (hinv : Inv (M.addSession bev).2) : Clean (M.addSession bev).2 := by
  by_cases hok : BufferOk bev
  · rw [addSession_of_ok hok] at hinv ⊢
    refine ⟨hinv, fun q hq => ?_⟩
    have hused := M.sessionPool.malloc.2.disjoint
    rw [ObjPool.lstUsed_malloc] at hused
    have hqp : q ≠ M.sessionPool.malloc.1 := by
      rintro rfl
      exact hused (List.mem_append_right _ (List.mem_singleton_self _)) hq
    dsimp only
    rw [Function.update_of_ne hqp]
    exact h.fresh q (M.sessionPool.mem_quFree_of_malloc hq)
  · rw [addSession_of_not_ok hok] at hinv ⊢
    refine ⟨hinv, fun q hq => ?_⟩
    dsimp only
    by_cases hqp : q = M.sessionPool.malloc.1
    · rw [hqp, Function.update_self]
      exact SessionObject.fresh_new
    · rw [Function.update_of_ne hqp]
      rcases M.sessionPool.malloc.2.mem_quFree_of_free hq with hq | hq
      · exact h.fresh q (M.sessionPool.mem_quFree_of_malloc hq)
      · exact absurd hq hqp

/-- A recycled object is cleared. -/
theorem Clean.recycle {M : SessionManager} (h : Clean M) {fd : QSock} {p : ℕ}
    (hinv : Inv (M.recycle fd p)) : Clean (M.recycle fd p) := by
  refine ⟨hinv, fun q hq => ?_⟩
  by_cases hqp : q = p
  · rw [hqp, objects_recycle_same]
    exact SessionObject.fresh_new
  · rw [objects_recycle_ne hqp]
    rcases M.sessionPool.mem_quFree_of_free hq with hq | hq
    · exact h.fresh q hq
    · exact absurd hq hqp

/-- **Every operation that frees only cleared objects keeps the pool clean.** -/
theorem Clean.step {M : SessionManager} (h : Clean M) {op : Op} (hop : M.ClearedFrees op) :
    Clean (M.step op) := by
  have hinv := h.toInv.step op
  rcases M.step_cases op with ⟨cur, heq⟩ | ⟨bev, rfl, heq⟩ | ⟨fd, p, hp, heq⟩ | ⟨order, rfl, heq⟩
    | ⟨p, call, rfl, heq⟩
  · rw [heq] at hinv ⊢
    exact ⟨hinv, h.fresh⟩
  · rw [heq] at hinv ⊢
    exact h.addSession hinv
  · rw [heq] at hinv ⊢
    exact h.recycle hinv
  · obtain ⟨horder, hfresh⟩ := hop
    refine ⟨hinv, ?_⟩
    rw [heq, objects_freeAllSession, sessionPool_freeAllSession]
    intro q hq
    rcases M.sessionPool.mem_quFree_of_foldl_free hq with hq | hq
    · exact h.fresh q hq
    · exact hfresh q (List.Perm.mem_iff horder |>.mp hq)
  · obtain ⟨hused, -⟩ := hop
    refine ⟨hinv, ?_⟩
    rw [heq]
    intro q hq
    rw [objects_modify]
    split_ifs with hqp
    · subst hqp
      exact absurd hq (M.sessionPool.disjoint hused)
    · exact h.fresh q hq

/-- **No session starts with what an earlier connection left**: in every run in
which all sessions are freed only while none of them carries anything, the
session that the next `addSession` puts in the map has no account, no ID card
and no ID, and the type and status of a new one. -/
theorem fresh_of_clearedFrees {M : SessionManager} (h : Reach step ClearedFrees start M)
    (bev : BufferEvent) (p : ℕ) (hadd : (M.addSession bev).1 = true)
    (hp : (M.addSession bev).2.umapSession.lookup bev.fd = some p) :
    ((M.addSession bev).2.objects p).Fresh := by
  have hclean := h.invariant Clean Clean.start (fun _ _ hM hop => hM.step hop)
  by_cases hok : BufferOk bev
  · rw [lookup_addSession hok] at hp
    rw [← Option.some.inj hp, objects_addSession hok]
    exact hclean.mallocObject
  · rw [addSession_of_not_ok hok] at hadd
    cases hadd

/-- A session with an account is closed, and one without anything is freed with all
the others. -/
theorem fresh_afterClose :
    let bev : ℕ → QSock → BufferEvent := fun id fd => ⟨id, fd, true, true⟩
    let M := [Op.addSession (bev 0 5), .set 0 (.account [98, 111, 98]), .closeLinkByID 5,
      .addSession (bev 1 6), .freeAllSession [1]].foldl step start
    ((M.addSession (bev 2 5)).2.objects 2).Fresh := by
  intro bev M
  have hrun : Reach step ClearedFrees start M := Reach.start.of_list _
    ⟨⟨trivial, trivial⟩, ⟨show 0 ∈ _ by decide +kernel, trivial⟩, ⟨trivial, trivial⟩,
      ⟨trivial, trivial⟩, ⟨show [1].Perm _ by decide +kernel, by decide +kernel⟩, trivial⟩
  exact fresh_of_clearedFrees hrun (bev 2 5) 2 (by decide +kernel) (by decide +kernel)

/-- Open and close a connection on socket 5. -/
def openClose : List Op := [.addSession ⟨0, 5, true, true⟩, .closeLinkByID 5]

/-- A connection that is opened and closed moves the first object of the queue to
its end. -/
theorem openClose_spec {M : SessionManager} {p : ℕ} {free : List ℕ}
    (hmap : M.umapSession = ∅) (hfree : M.sessionPool.quFree = p :: free) :
    (openClose.foldl step M).umapSession = ∅
      ∧ (openClose.foldl step M).sessionPool.quFree = free ++ [p]
      ∧ ∀ q, q ≠ p → (openClose.foldl step M).objects q = M.objects q := by
  have hp : M.sessionPool.malloc.1 = p ∧ M.sessionPool.malloc.2.quFree = free := by
    rcases M.sessionPool.malloc_cases with ⟨free', hq, hq', -⟩ | ⟨hq, -⟩
    · rw [hfree] at hq
      obtain ⟨h₁, h₂⟩ := List.cons.inj hq
      exact ⟨h₁.symm, by rw [hq', h₂]⟩
    · rw [hfree] at hq
      cases hq
  obtain ⟨hp, hq⟩ := hp
  have hok : BufferOk ⟨0, 5, true, true⟩ := by decide
  have hmem : p ∈ M.sessionPool.malloc.2.lstUsed := by
    rw [ObjPool.lstUsed_malloc, hp]
    exact List.mem_append_right _ (List.mem_singleton_self _)
  have hclose : ∀ N : SessionManager, N.umapSession.lookup 5 = some p →
      N.closeLinkByID 5 = N.recycle 5 p := by
    intro N hN
    rw [closeLinkByID, if_neg (by decide), hN]
  show ((M.addSession ⟨0, 5, true, true⟩).2.closeLinkByID 5).umapSession = ∅
    ∧ ((M.addSession ⟨0, 5, true, true⟩).2.closeLinkByID 5).sessionPool.quFree = free ++ [p]
    ∧ ∀ q, q ≠ p → ((M.addSession ⟨0, 5, true, true⟩).2.closeLinkByID 5).objects q = M.objects q
  rw [addSession_of_ok hok, hp, hclose _ (AList.lookup_insert _), hmap]
  refine ⟨rfl, ?_, fun q hqp => ?_⟩
  · show (M.sessionPool.malloc.2.free p).quFree = free ++ [p]
    rw [ObjPool.quFree_free_of_mem _ hmem, hq]
  · rw [objects_recycle_ne hqp]
    exact Function.update_of_ne hqp _ _

/-- Connections opened and closed one after the other turn the queue. -/
theorem openClose_turn (l r : List ℕ) {M : SessionManager} (hmap : M.umapSession = ∅)
    (hfree : M.sessionPool.quFree = l ++ r) (hr : ∀ q ∈ r, q ∉ l) :
    ((List.replicate l.length openClose).flatten.foldl step M).umapSession = ∅
      ∧ ((List.replicate l.length openClose).flatten.foldl step M).sessionPool.quFree = r ++ l
      ∧ ∀ q ∈ r, ((List.replicate l.length openClose).flatten.foldl step M).objects q
        = M.objects q := by
  induction l generalizing r M with
  | nil => exact ⟨hmap, by rw [List.append_nil]; exact hfree, fun _ _ => rfl⟩
  | cons p l ih =>
    rw [List.cons_append] at hfree
    obtain ⟨h₁, h₂, h₃⟩ := openClose_spec hmap hfree
    have hnodup : p ∉ l := by
      have hn := M.sessionPool.nodup
      rw [hfree] at hn
      have hl := (List.nodup_cons.mp (List.nodup_append.mp hn).2.1).1
      exact fun hp => hl (List.mem_append_left _ hp)
    rw [List.append_assoc] at h₂
    obtain ⟨g₁, g₂, g₃⟩ := ih (r ++ [p]) h₁ h₂ (by
      intro q hq
      rcases List.mem_append.mp hq with hq | hq
      · exact fun hl => hr q hq (List.mem_cons_of_mem _ hl)
      · rw [List.mem_singleton.mp hq]
        exact hnodup)
    rw [List.length_cons, List.replicate_succ, List.flatten_cons, List.foldl_append]
    refine ⟨g₁, ?_, fun q hq => ?_⟩
    · rw [g₂, List.append_assoc, List.singleton_append]
    · rw [g₃ q (List.mem_append_left _ hq), h₃ q]
      rintro rfl
      exact hr q hq List.mem_cons_self

theorem reach_openClose {S M : SessionManager} (n : ℕ) (h : Reach step Proper S M) :
    Reach step Proper S ((List.replicate n openClose).flatten.foldl step M) := by
  induction n generalizing M with
  | zero => exact h
  | succ n ih =>
    rw [List.replicate_succ, List.flatten_cons, List.foldl_append]
    exact ih (h.of_list openClose ⟨trivial, trivial, trivial⟩)

/-- A session gets the account `bob`, and all sessions are freed. -/
def freeBob : List Op :=
  [.addSession ⟨0, 5, true, true⟩, .set 0 (.account [98, 111, 98]), .freeAllSession [0]]

/-- The object with the account is now the last one of the queue. -/
theorem freeBob_spec :
    Reach step Proper start (freeBob.foldl step start)
      ∧ (freeBob.foldl step start).umapSession = ∅
      ∧ (freeBob.foldl step start).sessionPool.quFree = List.range' 1 1023 ++ [0]
      ∧ ((freeBob.foldl step start).objects 0).account = [98, 111, 98] := by
  refine ⟨?_, rfl, by decide +kernel, rfl⟩
  exact Reach.start.of_list _
    ⟨trivial, show 0 ∈ _ by decide +kernel, show [0].Perm _ by decide +kernel, trivial⟩

/-- The first object of the queue is the one that the next session gets. -/
theorem mallocObject_of_quFree {M : SessionManager} {p : ℕ} {free : List ℕ}
    (h : M.sessionPool.quFree = p :: free) :
    M.sessionPool.malloc.1 = p ∧ M.mallocObject = M.objects p := by
  have hp : M.sessionPool.malloc.1 = p := by
    rcases M.sessionPool.malloc_cases with ⟨free', hq, -⟩ | ⟨hq, -⟩
    · rw [h] at hq
      exact (List.cons.inj hq).1.symm
    · rw [h] at hq
      cases hq
  refine ⟨hp, ?_⟩
  rw [mallocObject, if_neg (by rw [h]; exact List.cons_ne_nil _ _), hp]

/-- When all the other objects of the queue have had their turn, the next session
gets the last one, as it was left. -/
theorem mallocObject_openClose {M : SessionManager} {p n : ℕ} {l : List ℕ} (hl : l.length = n)
    (hmap : M.umapSession = ∅) (hfree : M.sessionPool.quFree = l ++ [p]) (hp : p ∉ l) :
    ((List.replicate n openClose).flatten.foldl step M).sessionPool.malloc.1 = p
      ∧ ((List.replicate n openClose).flatten.foldl step M).mallocObject = M.objects p := by
  obtain ⟨-, hfree', hobj⟩ := openClose_turn l [p] hmap hfree (by simpa using hp)
  rw [hl] at hfree' hobj
  obtain ⟨h₁, h₂⟩ := mallocObject_of_quFree hfree'
  exact ⟨h₁, h₂.trans (hobj p (List.mem_singleton_self p))⟩

/-- The manager when all other objects have had their turn after `freeBob`. -/
def afterBob : SessionManager :=
  (freeBob ++ (List.replicate 1023 openClose).flatten).foldl step start

theorem afterBob_eq :
    afterBob = (List.replicate 1023 openClose).flatten.foldl step (freeBob.foldl step start) :=
  List.foldl_append

theorem afterBob_spec :
    Reach step Proper start afterBob ∧ afterBob.sessionPool.malloc.1 = 0
      ∧ afterBob.mallocObject.account = [98, 111, 98] := by
  obtain ⟨hrun, hmap, hfree, hbob⟩ := freeBob_spec
  obtain ⟨hp, hobject⟩ := mallocObject_openClose List.length_range' hmap hfree (by simp)
  rw [afterBob_eq]
  refine ⟨reach_openClose 1023 hrun, hp, ?_⟩
  rw [hobject, hbob]

/-- **An account outlives its connection**: a session gets the account `bob`, all
sessions are freed, and when the other objects of the pool have had their
turn, the next connection starts with that account. -/
theorem freeAllSession_leaks :
    let bev : BufferEvent := ⟨0, 5, true, true⟩
    Reach step Proper start afterBob ∧ (afterBob.addSession bev).1 = true
      ∧ (afterBob.addSession bev).2.umapSession.lookup 5 = some 0
      ∧ ((afterBob.addSession bev).2.objects 0).account = [98, 111, 98]
      ∧ ¬ ((afterBob.addSession bev).2.objects 0).Fresh := by
  intro bev
  obtain ⟨hrun, hp, hbob⟩ := afterBob_spec
  have hok : BufferOk bev := by decide
  have hin := lookup_addSession (M := afterBob) hok
  have haccount := account_addSession (M := afterBob) hok
  rw [hp] at hin haccount
  rw [hbob] at haccount
  refine ⟨hrun, ?_, hin, haccount, fun hfresh => ?_⟩
  · rw [addSession_of_ok hok]
  · exact absurd (haccount.symm.trans hfresh.1) (by decide)

end SessionManager
