import QService.TimeWheel.Finished
import QService.TimeWheel.Firing

/-!
# Removing by a position that may be wrong

A callback that adds a timer to the slot it is called from leaves a wrong position
behind, and a later `Remove` goes by it: it may take out another timer than it was
asked to. After that the recorded wheels, slots and positions say little. But only
`Remove` reads them, so nothing else does depend on them.

So a run with such removals is followed by a *ghost*: a wheel with the same slots,
from which a timer that is taken out of its slot is gone as if it had never been
made (`forget`). No `Remove` is left in what happened to the ghost, and it keeps the
invariant of the runs that only add timers. The two agree on
everything but the positions of timers, and the timers that are gone, which nobody
touches again (`Blind`).
-/

/-- Two pieces of code end in the same way, in states that are related. -/
def Outcome.Rel {σ : Type*} (R : σ → σ → Prop) : Outcome σ → Outcome σ → Prop
  | .ok s, .ok t => R s t
  | .error e s, .error e' t => e = e' ∧ R s t
  | _, _ => False

theorem Outcome.Rel.bind {σ : Type*} {R : σ → σ → Prop} {o o' : Outcome σ} {f g : σ → Outcome σ}
    (h : o.Rel R o') (hf : ∀ s t, R s t → (f s).Rel R (g t)) : (o.bind f).Rel R (o'.bind g) := by
  cases o with
  | ok s =>
    cases o' with
    | ok t => exact hf s t h
    | error e t => exact h.elim
  | error e s =>
    cases o' with
    | ok t => exact h.elim
    | error e' t => exact h

/-- What holds at the end of the one gives what holds at the end of the other. -/
theorem Outcome.Rel.all {σ : Type*} {R : σ → σ → Prop} {I J : σ → Prop} {o o' : Outcome σ}
    (h : o.Rel R o') (hI : o.All I) (hJ : ∀ s t, R s t → I s → J t) : o'.All J := by
  cases o with
  | ok s =>
    cases o' with
    | ok t => exact hJ s t h hI
    | error e t => exact h.elim
  | error e s =>
    cases o' with
    | ok t => exact h.elim
    | error e' t => exact hJ s t h.2 hI

namespace WheelMgr

open WheelId

/-! ## What the loops see of a timer -/

/-- A timer without what only `Remove` reads. -/
def bare (x : TvecBase) : TvecBase := { x with regWheel := none, regSlot := 0, regIndex := 0 }

/-- The event is about the timer, and is not its removal. -/
def about (id : TimerId) : TimerEvent → Bool
  | .added j _ _ => j = id
  | .called j _ => j = id
  | .removed _ => false
  | .error _ => false

/-- A timer and what is on record about it. -/
def view (M : WheelMgr) (id : TimerId) : TvecBase × List TimerEvent :=
  (bare (M.timers id), M.log.filter (about id))

/-- **The ghost `G` follows the wheel `M`.** The timers in `D` are gone, with the views `Z`. -/
structure Blind (D : TimerId → Prop) (Z : TimerId → TvecBase × List TimerEvent)
    (G M : WheelMgr) : Prop where
  slot : M.slot = G.slot
  curWheel : M.curWheel = G.curWheel
  tick : M.tick = G.tick
  next : M.next = G.next
  live : ∀ w i id, id ∈ G.slot w i → ¬ D id
  fresh : ∀ id, G.next ≤ id → ¬ D id
  timer : ∀ id, ¬ D id → bare (M.timers id) = bare (G.timers id)
  events : ∀ id, ¬ D id → M.log.filter (about id) = G.log.filter (about id)
  gone : ∀ id, D id → M.view id = Z id
  script : ∀ id, ¬ D id → (G.timers id).func.AddOnly
  past : ∀ id T t, .added id T t ∈ M.log → T ≤ M.tick


section Blind

variable {D : TimerId → Prop} {Z : TimerId → TvecBase × List TimerEvent} {G M : WheelMgr}

/-! ## One write -/

/-- What a timer is but for its registration. -/
theorem bare_fields {x y : TvecBase} (h : bare x = bare y) :
    x.func = y.func ∧ x.timeOut = y.timeOut ∧ x.compTime = y.compTime ∧ x.regTick = y.regTick := by
  obtain ⟨hfunc, htime, hcomp, -, -, -, -, htick⟩ := TvecBase.mk.inj h
  exact ⟨hfunc, htime, hcomp, htick⟩

theorem Blind.get_eq (h : Blind D Z G M) (w : WheelId) (i : ℕ) : M.get w i = G.get w i := by
  unfold get
  rw [h.slot]

/-- A timer that is not gone is written, on both sides. -/
theorem Blind.updTimer (h : Blind D Z G M) {id : TimerId} (hid : ¬ D id)
    {f : TvecBase → TvecBase} (hf : bare (f (M.timers id)) = bare (f (G.timers id)))
    (hfunc : (f (G.timers id)).func.AddOnly) : Blind D Z (G.updTimer id f) (M.updTimer id f) where
  slot := h.slot
  curWheel := h.curWheel
  tick := h.tick
  next := h.next
  live := h.live
  fresh := h.fresh
  timer := fun v hv => by
    by_cases hvid : v = id
    · rw [hvid, timers_updTimer_self, timers_updTimer_self]
      exact hf
    · rw [timers_updTimer_of_ne _ hvid, timers_updTimer_of_ne _ hvid]
      exact h.timer v hv
  events := h.events
  gone := fun v hv => by
    have hvid : v ≠ id := fun he => hid (he ▸ hv)
    rw [← h.gone v hv]
    rw [WheelMgr.view, timers_updTimer_of_ne _ hvid]
    rfl
  script := fun v hv => by
    by_cases hvid : v = id
    · rw [hvid, timers_updTimer_self]
      exact hfunc
    · rw [timers_updTimer_of_ne _ hvid]
      exact h.script v hv
  past := h.past

/-- An event that is not about a timer that is gone. -/
theorem Blind.emit (h : Blind D Z G M) {e : TimerEvent} (he : ∀ id, D id → about id e = false)
    (hpast : ∀ id T t, e = .added id T t → T ≤ G.tick) : Blind D Z (G.emit e) (M.emit e) where
  slot := h.slot
  curWheel := h.curWheel
  tick := h.tick
  next := h.next
  live := h.live
  fresh := h.fresh
  timer := h.timer
  events := fun v hv => by
    unfold WheelMgr.emit
    dsimp only
    rw [List.filter_append, List.filter_append, h.events v hv]
  gone := fun v hv => by
    rw [← h.gone v hv]
    unfold WheelMgr.view WheelMgr.emit
    dsimp only
    rw [List.filter_append, List.filter_cons_of_neg (by simp [he v hv]), List.filter_nil,
      List.append_nil]
  script := h.script
  past := fun id T t hmem => by
    rcases List.mem_append.mp hmem with hm | hm
    · exact h.past id T t hm
    · have hle := hpast id T t (List.mem_singleton.mp hm).symm
      rwa [← h.tick] at hle

theorem Blind.setSlot (h : Blind D Z G M) (w : WheelId) (i : ℕ) {l : List TimerId}
    (hl : ∀ id ∈ l, ¬ D id) : Blind D Z (G.setSlot w i l) (M.setSlot w i l) where
  slot := by
    unfold WheelMgr.setSlot
    dsimp only
    rw [h.slot]
  curWheel := h.curWheel
  tick := h.tick
  next := h.next
  live := fun w' i' id hid => by
    by_cases hwi : w' = w ∧ i' = i
    · rw [hwi.1, hwi.2, slot_setSlot_same] at hid
      exact hl id hid
    · rw [slot_setSlot_ne G l hwi] at hid
      exact h.live w' i' id hid
  fresh := h.fresh
  timer := h.timer
  events := h.events
  gone := h.gone
  script := h.script
  past := h.past

theorem Blind.setCurWheel (h : Blind D Z G M) (w : WheelId) (n : ℕ) :
    Blind D Z (G.setCurWheel w n) (M.setCurWheel w n) where
  slot := h.slot
  curWheel := by
    unfold WheelMgr.setCurWheel
    dsimp only
    rw [h.curWheel]
  tick := h.tick
  next := h.next
  live := h.live
  fresh := h.fresh
  timer := h.timer
  events := h.events
  gone := h.gone
  script := h.script
  past := h.past

theorem Blind.setTick (h : Blind D Z G M) {n : ℕ} (hn : G.tick ≤ n) :
    Blind D Z { G with tick := n } { M with tick := n } where
  slot := h.slot
  curWheel := h.curWheel
  tick := rfl
  next := h.next
  live := h.live
  fresh := h.fresh
  timer := h.timer
  events := h.events
  gone := h.gone
  script := h.script
  past := fun id T t hmem => (h.past id T t hmem).trans (h.tick.trans_le hn)

theorem Blind.setNext (h : Blind D Z G M) {k : TimerId} (hk : G.next ≤ k) :
    Blind D Z { G with next := k } { M with next := k } where
  slot := h.slot
  curWheel := h.curWheel
  tick := h.tick
  next := rfl
  live := h.live
  fresh := fun id hid => h.fresh id (hk.trans hid)
  timer := h.timer
  events := h.events
  gone := h.gone
  script := h.script
  past := h.past

/-- A timer is made. -/
theorem Blind.newTimer (h : Blind D Z G M) {func : Script} (hfunc : func.AddOnly) (t : ℤ) :
    Blind D Z (G.newTimer func t) (M.newTimer func t) := by
  have hnew : ¬ D G.next := h.fresh _ le_rfl
  have hset : Blind D Z (G.updTimer G.next fun _ => .new func t)
      (M.updTimer G.next fun _ => .new func t) := h.updTimer hnew rfl hfunc
  have hlog := hset.emit (e := .added G.next G.tick t)
    (fun id hid => decide_eq_false fun he => hnew (he ▸ hid)) fun id T t' he => by
      cases he
      exact le_rfl
  unfold WheelMgr.newTimer
  rw [h.next, h.tick]
  exact (hlog.setNext (k := G.next + 1) (Nat.le_succ _)).setTick (n := G.tick) le_rfl

/-! ## A timer goes into a slot -/

theorem Blind.register (h : Blind D Z G M) {id : TimerId} (hid : ¬ D id) (w : WheelId) (i : ℕ) :
    ((G.setRegInfo id w i).bind fun G => G.wheelAdd w i id).Rel (Blind D Z)
      ((M.setRegInfo id w i).bind fun M => M.wheelAdd w i id) := by
  have hreg : (G.setRegInfo id w i).Rel (Blind D Z) (M.setRegInfo id w i) := by
    have hset := h.updTimer hid (f := fun x => { x with regWheel := some w, regSlot := i })
      (h.timer id hid) (h.script id hid)
    unfold setRegInfo
    dsimp only
    rw [hset.get_eq]
    split
    · exact ⟨rfl, hset⟩
    · rename_i tSlot _
      have htick : (M.updTimer id fun x => { x with regWheel := some w, regSlot := i }).tick
          = (G.updTimer id fun x => { x with regWheel := some w, regSlot := i }).tick := h.tick
      rw [htick]
      refine hset.updTimer hid ?_ (hset.script id hid)
      exact congrArg (fun x : TvecBase => { x with regTick := G.tick }) (hset.timer id hid)
  refine hreg.bind fun G' M' h' => ?_
  unfold wheelAdd
  rw [h'.get_eq]
  split
  · exact ⟨rfl, h'⟩
  · rename_i tSlot hget
    refine h'.setSlot w i fun v hv => ?_
    rcases List.mem_append.mp hv with hv | hv
    · refine h'.live w i v ?_
      unfold get at hget
      split at hget
      · cases hget
        exact hv
      · cases hget
    · rw [List.mem_singleton.mp hv]
      exact hid

theorem Blind.slotAfter_eq (h : Blind D Z G M) (w : WheelId) (n : ℤ) :
    M.slotAfter w n = G.slotAfter w n := by
  unfold slotAfter
  rw [h.curWheel]

theorem Blind.addWheel (h : Blind D Z G M) {id : TimerId} (hid : ¬ D id) (t : ℤ) (w v : WheelId)
    (getCompTime : ℕ → ℤ) :
    (G.addWheel id t w v getCompTime).Rel (Blind D Z) (M.addWheel id t w v getCompTime) := by
  unfold WheelMgr.addWheel
  dsimp only
  rw [h.slotAfter_eq]
  have hcomp := h.updTimer hid
    (f := fun x => { x with compTime := getCompTime (G.slotAfter w (t / v.range)) })
    (congrArg (fun x : TvecBase => { x with compTime := getCompTime (G.slotAfter w (t / v.range)) })
      (h.timer id hid))
    (h.script id hid)
  exact hcomp.register hid w _

/-- `Add`, if the calls of the timer agree. -/
theorem Blind.addWith (h : Blind D Z G M) {c c' : WheelMgr → WheelMgr}
    (hc : ∀ G M, Blind D Z G M → Blind D Z (c G) (c' M)) {id : TimerId} (hid : ¬ D id) (t : ℤ) :
    (WheelMgr.addWith c G id t).Rel (Blind D Z) (WheelMgr.addWith c' M id t) := by
  have hrun := h.updTimer hid (f := fun x => { x with run := false })
    (congrArg (fun x : TvecBase => { x with run := false }) (h.timer id hid)) (h.script id hid)
  unfold WheelMgr.addWith getMinCompTime getHorCompTime getDayCompTime getMonCompTime
  dsimp only
  rw [hrun.curWheel]
  split_ifs
  · exact hc _ _ hrun
  · unfold addSec
    dsimp only
    rw [hrun.slotAfter_eq]
    exact hrun.register hid _ _
  · exact hrun.addWheel hid t _ _ _
  · exact hrun.addWheel hid t _ _ _
  · exact hrun.addWheel hid t _ _ _
  · exact hrun.addWheel hid t _ _ _
  · exact ⟨rfl, h⟩

/-! ## Calls -/

theorem Blind.callWith (h : Blind D Z G M) {body body' : WheelMgr → Outcome WheelMgr}
    (hbody : ∀ G M, Blind D Z G M → (body G).Rel (Blind D Z) (body' M)) {id : TimerId}
    (hid : ¬ D id) : Blind D Z (WheelMgr.callWith body id G) (WheelMgr.callWith body' id M) := by
  have hrun := (h.updTimer hid (f := fun x => { x with run := true })
    (congrArg (fun x : TvecBase => { x with run := true }) (h.timer id hid))
    (h.script id hid)).emit (e := .called id G.tick)
      (fun v hv => decide_eq_false fun he => hid (he ▸ hv)) nofun
  have hend := hbody _ _ hrun
  unfold WheelMgr.callWith
  dsimp only
  rw [h.tick]
  revert hend
  cases body ((G.updTimer id fun x => { x with run := true }).emit (.called id G.tick)) with
  | ok G' =>
    cases body' ((M.updTimer id fun x => { x with run := true }).emit (.called id G.tick)) with
    | ok M' => exact fun hend => hend
    | error e M' => exact fun hend => hend.elim
  | error e G' =>
    cases body' ((M.updTimer id fun x => { x with run := true }).emit (.called id G.tick)) with
    | ok M' => exact fun hend => hend.elim
    | error e' M' =>
      rintro ⟨rfl, hend⟩
      exact hend.emit (fun v hv => rfl) nofun

/-- **A callback that only adds timers does the same to both.** -/
theorem Blind.runScript (s : Script) (hs : s.AddOnly) (h : Blind D Z G M) :
    (WheelMgr.runScript s G).Rel (Blind D Z) (WheelMgr.runScript s M) := by
  induction s generalizing G M with
  | done => exact h
  | addTimer t func rest ihf ihr =>
    unfold WheelMgr.runScript
    rw [h.next]
    refine ((h.newTimer hs.1 t).addWith (fun G' M' h' => ?_) (h.fresh _ le_rfl) t).bind
      fun G' M' h' => ihr hs.2 h'
    exact h'.callWith (fun G'' M'' h'' => ihf hs.1 h'') (h.fresh _ le_rfl)
  | remove id rest ih => exact hs.elim
  | cancel id rest ih => exact hs.elim

theorem Blind.call (h : Blind D Z G M) {id : TimerId} (hid : ¬ D id) :
    Blind D Z (G.call id) (M.call id) := by
  unfold WheelMgr.call
  rw [(bare_fields (h.timer id hid)).1]
  exact h.callWith (fun G' M' h' => h'.runScript _ (h.script id hid)) hid

theorem Blind.add (h : Blind D Z G M) {id : TimerId} (hid : ¬ D id) (t : ℤ) :
    (G.add id t).Rel (Blind D Z) (M.add id t) :=
  h.addWith (fun _ _ h' => h'.call hid) hid t

theorem Blind.addTimer (h : Blind D Z G M) {func : Script} (hfunc : func.AddOnly) (t : ℤ) :
    (G.addTimer func t).Rel (Blind D Z) (M.addTimer func t) := by
  unfold WheelMgr.addTimer
  rw [h.next]
  exact (h.newTimer hfunc t).add (h.fresh _ le_rfl) t

/-! ## The loops -/

theorem eq_eraseIdx_of_tableRemove {α : Type*} {t t' : List α} {pos : ℕ}
    (h : tableRemove t pos = some t') : t' = t.eraseIdx (pos - 1) := by
  unfold tableRemove at h
  split at h
  · exact (Option.some.inj h).symm
  · cases h

/-- A timer is taken out of a slot. -/
theorem Blind.tableRemove (h : Blind D Z G M) (w : WheelId) (i : ℕ) {pos : ℕ} {l : List TimerId}
    (hl : tableRemove (G.slot w i) pos = some l) :
    Blind D Z (G.setSlot w i l) (M.setSlot w i l) := by
  refine h.setSlot w i fun id hid => h.live w i id ?_
  rw [eq_eraseIdx_of_tableRemove hl] at hid
  exact List.mem_of_mem_eraseIdx hid

theorem Blind.runSlot (h : Blind D Z G M) (i : ℕ) :
    (WheelMgr.runSlot i G).Rel (Blind D Z) (WheelMgr.runSlot i M) := by
  induction i generalizing G M with
  | zero => exact h
  | succ i ih =>
    unfold WheelMgr.runSlot
    rw [h.slot, h.curWheel]
    cases hget : (G.slot .sec (G.curWheel .sec))[i]? with
    | none => exact ih h
    | some id =>
      have hcall := h.call (h.live _ _ id (List.mem_of_getElem? hget))
      dsimp only
      rw [hcall.slot, hcall.curWheel]
      split
      · exact ⟨rfl, hcall⟩
      · rename_i l hl
        exact ih (hcall.tableRemove _ _ hl)

theorem Blind.cashLoop (h : Blind D Z G M) (w : WheelId) (i : ℕ) :
    (WheelMgr.cashLoop w i G).Rel (Blind D Z) (WheelMgr.cashLoop w i M) := by
  induction i generalizing G M with
  | zero => exact h
  | succ i ih =>
    unfold WheelMgr.cashLoop
    rw [h.slot, h.curWheel]
    cases hget : (G.slot w (G.curWheel w))[i]? with
    | none => exact ⟨rfl, h⟩
    | some id =>
      have hid := h.live _ _ id (List.mem_of_getElem? hget)
      have hsub := h.updTimer hid (f := fun x => { x with timeOut := x.timeOut - x.compTime })
        (congrArg (fun x : TvecBase => { x with timeOut := x.timeOut - x.compTime })
          (h.timer id hid))
        (h.script id hid)
      dsimp only
      rw [(bare_fields (hsub.timer id hid)).2.1]
      refine (hsub.add hid _).bind fun G' M' h' => ?_
      rw [h'.slot, h'.curWheel]
      split
      · exact ⟨rfl, h'⟩
      · rename_i l hl
        exact ih (h'.tableRemove _ _ hl)

theorem Blind.cashData (h : Blind D Z G M) (w : WheelId) :
    (G.cashData w).Rel (Blind D Z) (M.cashData w) := by
  unfold WheelMgr.cashData
  rw [h.get_eq, h.curWheel]
  split
  · exact ⟨rfl, h⟩
  · exact h.cashLoop w _

theorem Blind.cashFrom (h : Blind D Z G M) (v : WheelId) (ws : List WheelId) :
    (WheelMgr.cashFrom v ws G).Rel (Blind D Z) (WheelMgr.cashFrom v ws M) := by
  induction ws generalizing G M v with
  | nil =>
    unfold WheelMgr.cashFrom
    rw [h.curWheel]
    split_ifs
    · exact h.setCurWheel v 0
    · exact h
  | cons w ws ih =>
    unfold WheelMgr.cashFrom
    dsimp only
    rw [(h.setCurWheel v 0).curWheel, h.curWheel]
    split_ifs
    · exact (((h.setCurWheel v 0).setCurWheel w _).cashData w).bind fun G' M' h' => ih h' w
    · exact h

theorem Blind.onTime (h : Blind D Z G M) : G.onTime.Rel (Blind D Z) M.onTime := by
  have htick : Blind D Z ({ G with tick := G.tick + 1 }.setCurWheel .sec (G.curWheel .sec + 1))
      ({ M with tick := M.tick + 1 }.setCurWheel .sec (M.curWheel .sec + 1)) := by
    have hcur : M.curWheel .sec = G.curWheel .sec := by rw [h.curWheel]
    rw [h.tick, hcur]
    exact (h.setTick (Nat.le_succ G.tick)).setCurWheel .sec (G.curWheel .sec + 1)
  unfold WheelMgr.onTime
  dsimp only
  rw [htick.get_eq, htick.curWheel]
  split
  · exact ⟨rfl, htick⟩
  · exact (htick.runSlot _).bind fun G' M' h' => h'.cashFrom _ _

end Blind

/-! ## A timer is taken out of its slot -/

section Unslot

variable {G : WheelMgr} {y : TimerId} {w : WheelId} {i : ℕ} {l₁ l₂ : List TimerId}

/-- The ghost with a timer taken out of its slot, and nothing on record about it. -/
def unslot (G : WheelMgr) (y : TimerId) (w : WheelId) (i : ℕ) (l₁ l₂ : List TimerId) : WheelMgr :=
  { G.removed y w i l₁ l₂ with log := G.log }

theorem nodup_of_slot (h : Inv adding none none G) (hslot : G.slot w i = l₁ ++ y :: l₂) :
    y ∉ l₂ ∧ l₂.Nodup := by
  have hnodup : (l₁ ++ y :: l₂).Nodup := hslot ▸ h.slots.nodup w i
  exact List.nodup_cons.mp hnodup.of_append_right

/-- **A timer that is taken out of its slot is in hand**, with its due tick. -/
theorem Inv.unslot (h : Inv adding none none G) (hslot : G.slot w i = l₁ ++ y :: l₂) :
    Inv adding none (some (y, G.due y)) (G.unslot y w i l₁ l₂) := by
  obtain ⟨hy, hl₂⟩ := nodup_of_slot h hslot
  have hcold : ∀ t : Turn, none = some t → ¬ (w = t.wheel ∧ i = G.curWheel w) := nofun
  have hpiff : ∀ id, Pending none (G.unslot y w i l₁ l₂) id ↔ Pending none G id ∧ id ≠ y :=
    h.slots.pending_removed hcold hslot
  obtain ⟨-, -, htick, hnext, -⟩ : (G.removed y w i l₁ l₂).slot
      = (G.setSlot w i (l₁ ++ l₂)).slot ∧ (G.removed y w i l₁ l₂).curWheel = G.curWheel
      ∧ (G.removed y w i l₁ l₂).tick = G.tick ∧ (G.removed y w i l₁ l₂).next = G.next
      ∧ _ := renumber_frame _ l₂ _
  have hpending : Pending none G y := by
    refine ⟨w, i, ?_⟩
    show y ∈ G.slot w i
    rw [hslot]
    simp
  have hother : ∀ id, id ≠ y →
      ∃ n, (G.unslot y w i l₁ l₂).timers id = { G.timers id with regIndex := n } :=
    fun id hne => timers_removed_ne G w i l₁ hl₂ hne
  refine ⟨(h.slots.remove hcold hslot).congr_timers rfl rfl rfl fun _ _ => rfl, ?_⟩
  constructor
  · intro id hid
    have hid' : G.next ≤ id := hnext.symm.trans_le hid
    obtain ⟨n, hn⟩ := hother id ((h.pending_lt hpending).trans_le hid').ne'
    rw [hn]
    exact h.book.known id hid'
  · intro id hp hne
    have hid : id ≠ y := fun he => hne _ (by rw [he])
    obtain ⟨n, hn⟩ := hother id hid
    rw [hn]
    exact h.book.idle id (fun hc => hp ((hpiff id).mpr ⟨hc, hid⟩)) nofun
  · intro id d hd
    cases hd
    exact ⟨fun hp => ((hpiff y).mp hp).2 rfl, hnext.symm ▸ h.pending_lt hpending⟩
  · intro id
    by_cases hid : id = y
    · rw [hid]
      unfold WheelMgr.unslot removed
      dsimp only
      rw [timers_renumber_of_notMem _ _ hy]
      show adding.script (Function.update G.timers y _ y).func
      rw [Function.update_self]
      exact h.book.script y
    · obtain ⟨n, hn⟩ := hother id hid
      rw [hn]
      exact h.book.script id
  · intro id T t hmem hle
    have hfate : Fate none none G id (fire T t) := h.book.fate id T t hmem hle
    by_cases hid : id = y
    · -- it waited in the slot, so its call is still due
      subst hid
      rcases hfate with ⟨k₁, k₂, hw | hw⟩ | ⟨-, -, -, k, -⟩ | ⟨-, -, k, -⟩
      · exact .inl ⟨k₁, k₂, .inr (by rw [hw.2])⟩
      · cases hw
      · exact absurd hpending k
      · exact absurd hpending k
    · refine Fate.frame (M := G) rfl Iff.rfl htick.ge ((hpiff id).trans (and_iff_left hid))
        (fun _ => ?_) (fun d => ⟨fun hd => ?_, fun hd => ?_⟩) hfate
      · exact due_removed hl₂ hid
      · cases hd
        exact absurd rfl hid
      · cases hd
  · intro m₁ id T t m₂ hm ht
    rcases h.book.prompt m₁ id T t m₂ hm ht with hc | ⟨-, hd⟩
    · exact .inl hc
    · cases hd
  · exact h.book.noError
  · exact h.book.kept

end Unslot

/-! ## A timer is forgotten -/

section Forget

variable {G : WheelMgr} {y : TimerId} {d : ℤ}

/-- The ghost with nothing on record about a timer. -/
def forget (G : WheelMgr) (y : TimerId) : WheelMgr :=
  { G with log := G.log.filter fun e => ¬ about y e }

theorem mem_forget {e : TimerEvent} : e ∈ (G.forget y).log ↔ e ∈ G.log ∧ about y e = false := by
  simp [WheelMgr.forget]

/-- An event is about one timer. -/
theorem about_ne {id : TimerId} (hne : id ≠ y) {e : TimerEvent} (he : about id e = true) :
    about y e = false := by
  cases e with
  | added j T t => exact decide_eq_false fun hj => hne ((of_decide_eq_true he).symm.trans hj)
  | called j T => exact decide_eq_false fun hj => hne ((of_decide_eq_true he).symm.trans hj)
  | removed j => rfl
  | error e => rfl

/-- What is on record about the others stays. -/
theorem filter_forget {id : TimerId} (hne : id ≠ y) :
    (G.forget y).log.filter (about id) = G.log.filter (about id) := by
  unfold WheelMgr.forget
  dsimp only
  rw [List.filter_filter]
  refine List.filter_congr fun e _ => ?_
  cases he : about id e with
  | false => rfl
  | true => simp [about_ne hne he]

/-- The calls of a timer are among the events about it. -/
theorem calls_filter (id : TimerId) (l : List TimerEvent) :
    calls id (l.filter (about id)) = calls id l := by
  unfold calls
  rw [List.filterMap_filter]
  refine List.filterMap_congr fun e _ => ?_
  cases e with
  | added j T t => exact ite_self _
  | called j T => by_cases hj : j = id <;> simp [about, hj]
  | removed j => rfl
  | error e => rfl

theorem calls_forget {id : TimerId} (hne : id ≠ y) :
    calls id (G.forget y).log = calls id G.log := by
  rw [← calls_filter id (G.forget y).log, filter_forget hne, calls_filter]

/-- **A timer in hand is forgotten**, as if it had never been made. -/
theorem Inv.forget (h : Inv adding none (some (y, d)) G) (hreg : (G.timers y).regWheel = none) :
    Inv adding none none (G.forget y) := by
  obtain ⟨hpend, hlt⟩ := h.book.held y d rfl
  have hne : ∀ id T t, .added id T t ∈ (G.forget y).log → id ≠ y := fun id T t hm =>
    of_decide_eq_false (mem_forget.mp hm).2
  refine ⟨h.slots.congr_timers rfl rfl rfl fun _ _ => rfl, ?_⟩
  constructor
  · intro id hid
    obtain ⟨k₁, k₂, k₃, k₄⟩ := h.book.known id hid
    refine ⟨k₁, (calls_forget (hlt.trans_le hid).ne').trans k₂,
      fun hm => k₃ (mem_forget.mp hm).1, fun T t hm => k₄ T t (mem_forget.mp hm).1⟩
  · intro id hp _
    by_cases hid : id = y
    · rw [hid]
      exact .inr hreg
    · refine h.book.idle id hp fun d' hd => hid ?_
      cases hd
      rfl
  · intro id d' hd
    cases hd
  · exact h.book.script
  · intro id T t hm hle
    have hid := hne id T t hm
    refine (h.book.fate id T t (mem_forget.mp hm).1 hle).frame (calls_forget hid) ?_ le_rfl Iff.rfl
      (fun _ => rfl) fun d' => ⟨nofun, fun hd => ?_⟩
    · rw [mem_forget]
      exact and_iff_left rfl
    · cases hd
      exact absurd rfl hid
  · intro l₁ id T t l₂ hl ht
    have hm : .added id T t ∈ (G.forget y).log := by
      rw [hl]
      simp
    have hid := hne id T t hm
    -- what comes after it in the log of the ghost came after it before
    obtain ⟨m₁, m, hlog, -, hm₂⟩ := List.filter_eq_append_iff.mp hl
    obtain ⟨m₂, m₃, rfl, -, -, rfl⟩ := List.filter_eq_cons_iff.mp hm₂
    rw [← List.append_assoc] at hlog
    rcases h.book.prompt _ id T t m₃ hlog ht with ⟨l₃, rfl⟩ | ⟨-, hd⟩
    · refine .inl ⟨_, List.filter_cons_of_pos ?_⟩
      have habout : about y (.called id T) = false := decide_eq_false hid
      simp [habout]
    · cases hd
      exact absurd rfl hid
  · intro e hm
    exact h.book.noError e (mem_forget.mp hm).1
  · intro hf id hm
    exact h.book.kept hf id (mem_forget.mp hm).1

end Forget

end WheelMgr
