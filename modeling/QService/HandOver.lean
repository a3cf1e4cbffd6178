import QService.Session

/-!
# What the interface is given

The read loops of the worker give payloads to `Decode`, and the messages that come of
them to the interface, whose handlers may close sessions. What `Decode` says of a row of
payloads (`Env.decodeAll`), and whether a handler closes the session on one of the
messages (`Worker.Closes`), can be told without a read loop: a handler sees what has
happened so far and nothing of the buffers (`Worker.closes_congr`).
-/

/-- What `Decode` makes of these payloads, in calls one after another from the `n`-th on,
unless it refuses one of them. -/
def Env.decodeAll (E : Env) (bSVLink : Bool) : ℕ → List (List UInt8) → Option (List (List UInt8))
  | _, [] => some []
  | n, msg :: msgs =>
    match E.decodeMsg n bSVLink msg with
    | none => none
    | some data => (E.decodeAll bSVLink (n + 1) msgs).map (data :: ·)

theorem Env.decodeAll_of_none {E : Env} {b : Bool} {n : ℕ} {msg : List UInt8}
    (h : E.decodeMsg n b msg = none) (msgs : List (List UInt8)) :
    E.decodeAll b n (msg :: msgs) = none := by
  rw [decodeAll, h]

theorem Env.decodeAll_of_some {E : Env} {b : Bool} {n : ℕ} {msg data : List UInt8}
    (h : E.decodeMsg n b msg = some data) (msgs : List (List UInt8)) :
    E.decodeAll b n (msg :: msgs) = (E.decodeAll b (n + 1) msgs).map (data :: ·) := by
  rw [decodeAll, h]

namespace Worker

/-! ## What a handler closes -/

theorem session_closeLinkByID_eq_none_iff (W : Worker) (id fd : QSock) :
    (W.closeLinkByID id).session fd = none
      ↔ W.session fd = none ∨ fd ≠ invalidSock ∧ fd = id := by
  by_cases hid : id = invalidSock
  · unfold closeLinkByID
    rw [if_pos hid, hid, or_iff_left fun h => h.1 h.2]
  · cases hS : W.session id with
    | none =>
      rw [closeLinkByID_of_none hS, or_iff_left_of_imp]
      rintro ⟨-, rfl⟩
      exact hS
    | some S =>
      rw [closeLinkByID_of_session hid hS]
      by_cases hfd : fd = id
      · subst hfd
        exact iff_of_true (Function.update_self _ _ _) (.inr ⟨hid, rfl⟩)
      · show Function.update W.session id none fd = none ↔ _
        rw [Function.update_of_ne hfd]
        simp [hfd]

/-- **A session is gone after a handler** if it was gone before, or is one that the
handler closes. -/
theorem session_closeAll_eq_none_iff (W : Worker) (ids : List QSock) (fd : QSock) :
    (W.closeAll ids).session fd = none
      ↔ W.session fd = none ∨ fd ≠ invalidSock ∧ fd ∈ ids := by
  induction ids generalizing W with
  | nil => simp [closeAll]
  | cons id ids ih =>
    rw [closeAll, List.foldl_cons, ← closeAll, ih, session_closeLinkByID_eq_none_iff,
      List.mem_cons]
    tauto

/-! ## Payloads and messages -/

section Given

variable (h : Handler) (fd : QSock) (conn : ℕ) (call : List UInt8 → Event)

/-- A payload of the connection `conn` is decoded to `data`. If a message is complete with
it the interface is called, and `call` is the event of that. -/
def give (data : List UInt8) (msg : Option (List UInt8)) (W : Worker) : Worker :=
  let W := W.countCipher.emit (.payload conn data)
  match msg with
  | none => W
  | some msg => (W.emit (call msg)).closeAll (h W.log fd msg)

/-- **The interface closes the session of `fd`** when these payloads are decoded, one after
the other: the handler of a message that is complete with one of them asks for it. -/
def Closes : List (List UInt8 × Option (List UInt8)) → Worker → Prop
  | [], _ => False
  | (data, msg) :: given, W =>
    (fd ≠ invalidSock ∧ ∃ m ∈ msg, fd ∈ h (W.log ++ [.payload conn data]) fd m)
      ∨ Closes given (W.give h fd conn call data msg)

variable {h fd conn call}

@[simp] theorem ciphers_closeAll (W : Worker) (ids : List QSock) :
    (W.closeAll ids).ciphers = W.ciphers := by
  induction ids generalizing W with
  | nil => rfl
  | cons id ids ih =>
    rw [closeAll, List.foldl_cons, ← closeAll, ih]
    rcases W.closeLinkByID_cases id with heq | ⟨S, -, es, -, heq⟩ <;> rw [heq]

@[simp] theorem ciphers_give (data : List UInt8) (msg : Option (List UInt8)) (W : Worker) :
    (W.give h fd conn call data msg).ciphers = W.ciphers + 1 := by
  cases msg with
  | none => rfl
  | some msg => exact ciphers_closeAll _ _

/-- A session stays as it was, or is closed by the handler. -/
theorem session_give (h : Handler) (fd : QSock) (conn : ℕ) (call : List UInt8 → Event)
    (data : List UInt8) (msg : Option (List UInt8)) (W : Worker) :
    (W.give h fd conn call data msg).session fd = W.session fd
      ∨ (W.give h fd conn call data msg).session fd = none := by
  cases msg with
  | none => exact .inl rfl
  | some msg => exact session_closeAll _ _ fd

theorem session_give_eq_none_iff (data : List UInt8) (msg : Option (List UInt8)) (W : Worker) :
    (W.give h fd conn call data msg).session fd = none
      ↔ W.session fd = none
        ∨ fd ≠ invalidSock ∧ ∃ m ∈ msg, fd ∈ h (W.log ++ [.payload conn data]) fd m := by
  cases msg with
  | none => simp [give]
  | some msg =>
    refine (session_closeAll_eq_none_iff _ _ fd).trans
      (or_congr Iff.rfl (and_congr_right fun _ => ?_))
    exact ⟨fun hmem => ⟨msg, rfl, hmem⟩, fun ⟨_, hm, hmem⟩ => Option.some.inj hm ▸ hmem⟩

/-- Where there is a session, the interface closes it with one payload if it is gone then. -/
theorem closes_singleton_iff {W : Worker} {S : Session} (hS : W.session fd = some S)
    (h : Handler) (conn : ℕ) (call : List UInt8 → Event) (data : List UInt8)
    (msg : Option (List UInt8)) :
    Closes h fd conn call [(data, msg)] W
      ↔ (W.give h fd conn call data msg).session fd = none := by
  rw [session_give_eq_none_iff, hS, or_iff_right (by simp)]
  exact or_iff_left id

/-! ## What a handler sees -/

/-- Nothing that a handler sees or does tells the two workers apart: the same has happened,
and the sessions have the same sockets, types and connections. -/
structure Alike (A B : Worker) : Prop where
  log : A.log = B.log
  session : ∀ sd, (A.session sd).map (fun S => (S.type, S.conn))
    = (B.session sd).map fun S => (S.type, S.conn)

namespace Alike

variable {A B C : Worker}

theorem refl (A : Worker) : Alike A A := ⟨rfl, fun _ => rfl⟩

theorem symm (hAB : Alike A B) : Alike B A := ⟨hAB.log.symm, fun sd => (hAB.session sd).symm⟩

theorem trans (hAB : Alike A B) (hBC : Alike B C) : Alike A C :=
  ⟨hAB.log.trans hBC.log, fun sd => (hAB.session sd).trans (hBC.session sd)⟩

theorem emit (hAB : Alike A B) (e : Event) : Alike (A.emit e) (B.emit e) :=
  ⟨congrArg (· ++ [e]) hAB.log, hAB.session⟩

theorem countCipher (hAB : Alike A B) : Alike A.countCipher B.countCipher :=
  ⟨hAB.log, hAB.session⟩

/-- A session is written, but for its type and its connection. -/
theorem setSession {sd : QSock} {S T : Session} (hS : A.session sd = some S)
    (htype : T.type = S.type) (hconn : T.conn = S.conn) : Alike A (A.setSession sd T) := by
  refine ⟨rfl, fun id => ?_⟩
  by_cases hid : id = sd
  · rw [hid, hS, session_setSession_same, Option.map_some, Option.map_some, htype, hconn]
  · rw [session_setSession_ne _ _ hid]

theorem closeLinkByID (hAB : Alike A B) (id : QSock) :
    Alike (A.closeLinkByID id) (B.closeLinkByID id) := by
  by_cases hid : id = invalidSock
  · unfold Worker.closeLinkByID
    rw [if_pos hid, if_pos hid]
    exact hAB
  · have hsame := hAB.session id
    cases hS : A.session id with
    | none =>
      rw [hS] at hsame
      rw [closeLinkByID_of_none hS,
        closeLinkByID_of_none (Option.map_eq_none_iff.mp hsame.symm)]
      exact hAB
    | some S =>
      rw [hS] at hsame
      obtain ⟨T, hT, hkey⟩ := Option.map_eq_some_iff.mp hsame.symm
      obtain ⟨htype, hconn⟩ := Prod.mk.injEq _ _ _ _ ▸ hkey
      rw [closeLinkByID_of_session hid hS, closeLinkByID_of_session hid hT, htype, hconn]
      refine ⟨congrArg (· ++ _) hAB.log, fun sd => ?_⟩
      by_cases hsd : sd = id
      · subst hsd
        simp
      · show (Function.update A.session id none sd).map _
          = (Function.update B.session id none sd).map _
        rw [Function.update_of_ne hsd, Function.update_of_ne hsd]
        exact hAB.session sd

theorem closeAll (hAB : Alike A B) (ids : List QSock) :
    Alike (A.closeAll ids) (B.closeAll ids) := by
  induction ids generalizing A B with
  | nil => exact hAB
  | cons id ids ih => exact ih (hAB.closeLinkByID id)

theorem give (hAB : Alike A B) (data : List UInt8) (msg : Option (List UInt8)) :
    Alike (A.give h fd conn call data msg) (B.give h fd conn call data msg) := by
  have hpay := hAB.countCipher.emit (.payload conn data)
  cases msg with
  | none => exact hpay
  | some msg =>
    unfold Worker.give
    dsimp only
    rw [hpay.log]
    exact (hpay.emit (call msg)).closeAll _

end Alike

/-- What the interface closes does not depend on what it does not see. -/
theorem closes_congr {given : List (List UInt8 × Option (List UInt8))} {A B : Worker}
    (hAB : Alike A B) : Closes h fd conn call given A ↔ Closes h fd conn call given B := by
  induction given generalizing A B with
  | nil => exact Iff.rfl
  | cons g given ih =>
    unfold Closes
    rw [hAB.log, ih (hAB.give g.1 g.2)]

end Given

end Worker
