import QService.TimeWheel.Ghost

/-!
# The due tick of a timer

When a timer is spread to a smaller wheel, `cashData` takes `CompTime` off its timeout
and `Add` sets `RegTick` anew. The two make up for each other: `RegTick + TimeOut` is the
tick at which the timer was added and its timeout, from the first wheel to the last.
`onRemoveDelayEvent` of the test relies on it. It takes the time that a timer has waited
off its timeout, removes it and adds it again.

A position that is wrong does no harm here (`due_of_ghosted`). `Remove` may take out
another timer than it was asked to, but no `RegTick` and no `TimeOut` changes then. If
the position is right, the timer that was added again is called when it was to be
called before (`Ghosted.reschedule`).
-/

namespace WheelMgr

open WheelId

variable {G M : WheelMgr}

/-! ## What `Remove` does, whatever the position -/

/-- Two wheels have the same but in slots and registrations. -/
structure Alike (M M' : WheelMgr) : Prop where
  curWheel : M'.curWheel = M.curWheel
  tick : M'.tick = M.tick
  next : M'.next = M.next
  timers : ∀ v, bare (M'.timers v) = bare (M.timers v)
  events : ∀ v, M'.log.filter (about v) = M.log.filter (about v)

/-- **The timer at a position of a slot is out of it.** -/
structure Cut (M : WheelMgr) (w : WheelId) (i p : ℕ) (M' : WheelMgr) : Prop where
  slot : M'.slot = (M.setSlot w i ((M.slot w i).eraseIdx p)).slot
  alike : Alike M M'

theorem bare_updTimer (M : WheelMgr) (id : TimerId) {f : TvecBase → TvecBase}
    (hf : ∀ x, bare (f x) = bare x) (v : TimerId) :
    bare ((M.updTimer id f).timers v) = bare (M.timers v) := by
  by_cases hv : v = id
  · rw [hv, timers_updTimer_self, hf]
  · rw [timers_updTimer_of_ne _ hv]

theorem bare_renumber (M : WheelMgr) (l : List TimerId) (k : ℕ) (v : TimerId) :
    bare ((M.renumber l k).timers v) = bare (M.timers v) := by
  induction l generalizing M k with
  | nil => rfl
  | cons x l ih =>
    unfold renumber
    rw [ih]
    refine bare_updTimer M x (fun _ => ?_) v
    rfl

/-- A removal is about the registration only. -/
theorem alike_removed (M : WheelMgr) (id : TimerId) (w : WheelId) (i : ℕ) (l l' : List TimerId)
    (k : ℕ) :
    Alike M ((((M.setSlot w i l).clearRegInfo id).emit (.removed id)).renumber l' k) := by
  obtain ⟨-, hcur, htick, hnext, hlog⟩ := renumber_frame
    (((M.setSlot w i l).clearRegInfo id).emit (.removed id)) l' k
  refine ⟨hcur, htick, hnext, fun v => (bare_renumber _ _ _ v).trans ?_, fun v => ?_⟩
  · exact bare_updTimer (M.setSlot w i l) id
      (f := fun x => { x with regWheel := none, regSlot := 0, regIndex := 0 }) (fun _ => rfl) v
  · rw [hlog]
    unfold emit
    dsimp only
    rw [List.filter_append]
    exact List.append_nil _

/-- **`Remove`** does nothing, raises an error, or takes out whoever is at the position
of the timer. -/
theorem remove_cases (M : WheelMgr) (id : TimerId) :
    M.remove id = .ok M ∨ (∃ e, M.remove id = .error e M)
      ∨ ∃ w M', (M.timers id).regWheel = some w ∧ M.remove id = .ok M'
        ∧ Cut M w (M.timers id).regSlot ((M.timers id).regIndex - 1) M' := by
  unfold WheelMgr.remove
  dsimp only
  split
  · exact .inl rfl
  · rename_i w hw
    split_ifs
    · exact .inl rfl
    · split
      · exact .inr (.inl ⟨_, rfl⟩)
      · rename_i tSlot hget
        obtain rfl : tSlot = M.slot w (M.timers id).regSlot := by
          unfold get at hget
          split at hget
          · exact (Option.some.inj hget).symm
          · cases hget
        split
        · exact .inr (.inl ⟨_, rfl⟩)
        · rename_i tSlot' hrem
          right
          right
          rw [eq_eraseIdx_of_tableRemove hrem]
          split_ifs
          · exact ⟨w, _, hw, rfl, rfl, M.alike_removed id w _ _ [] 0⟩
          · exact ⟨w, _, hw, rfl, (renumber_frame _ _ _).1, M.alike_removed id w _ _ _ _⟩

/-! ## The ghost of a run -/

theorem added_filter {id : TimerId} {T : ℕ} {t : ℤ} {l : List TimerEvent} :
    TimerEvent.added id T t ∈ l.filter (about id) ↔ TimerEvent.added id T t ∈ l := by
  simp [about]

section Blind

variable {D : TimerId → Prop} {Z : TimerId → TvecBase × List TimerEvent} {G' M' : WheelMgr}

/-- What is known of a timer that is not gone. -/
theorem Blind.same (h : Blind D Z G M) {id : TimerId} (hid : ¬ D id) :
    (∀ T t, TimerEvent.added id T t ∈ M.log → TimerEvent.added id T t ∈ G.log)
      ∧ calls id M.log = calls id G.log ∧ M.due id = G.due id := by
  have hlog := h.events id hid
  obtain ⟨-, htime, -, htick⟩ := bare_fields (h.timer id hid)
  refine ⟨fun T t hadd => ?_, ?_, ?_⟩
  · rw [← added_filter, ← hlog, added_filter]
    exact hadd
  · rw [← calls_filter id M.log, hlog, calls_filter]
  · rw [due, due, htime, htick]

/-- The ghost still follows when both have lost the same timers from their slots. -/
theorem Blind.alike (h : Blind D Z G M) (hG : Alike G G') (hM : Alike M M')
    (hslot : M'.slot = G'.slot) (hsub : ∀ w i id, id ∈ G'.slot w i → id ∈ G.slot w i) :
    Blind D Z G' M' where
  slot := hslot
  curWheel := by rw [hM.curWheel, hG.curWheel, h.curWheel]
  tick := by rw [hM.tick, hG.tick, h.tick]
  next := by rw [hM.next, hG.next, h.next]
  live := fun w i id hid => h.live w i id (hsub w i id hid)
  fresh := fun id hid => h.fresh id (hG.next ▸ hid)
  timer := fun v hv => by rw [hM.timers, hG.timers, h.timer v hv]
  events := fun v hv => by rw [hM.events, hG.events, h.events v hv]
  gone := fun v hv => by
    rw [← h.gone v hv]
    exact Prod.ext (hM.timers v) (hM.events v)
  script := fun v hv => by
    rw [(bare_fields (hG.timers v)).1]
    exact h.script v hv
  past := fun id T t hm => by
    rw [hM.tick]
    refine h.past id T t ?_
    rwa [← added_filter, ← hM.events, added_filter]

/-- **The ghost forgets a timer** that is in no slot. -/
theorem Blind.forget (h : Blind D Z G M) {y : TimerId} (hy : y < G.next)
    (hout : ∀ w i, y ∉ G.slot w i) :
    Blind (fun v => D v ∨ v = y) (Function.update Z y (M.view y)) (G.forget y) M where
  slot := h.slot
  curWheel := h.curWheel
  tick := h.tick
  next := h.next
  live := fun w i id hid => not_or.mpr ⟨h.live w i id hid, fun he => hout w i (he ▸ hid)⟩
  fresh := fun id hid => not_or.mpr ⟨h.fresh id hid, (hy.trans_le hid).ne'⟩
  timer := fun v hv => h.timer v (not_or.mp hv).1
  events := fun v hv => by
    rw [filter_forget (not_or.mp hv).2]
    exact h.events v (not_or.mp hv).1
  gone := fun v hv => by
    by_cases hvy : v = y
    · rw [hvy, Function.update_self]
    · rw [Function.update_of_ne hvy]
      exact h.gone v (hv.resolve_right hvy)
  script := fun v hv => h.script v (not_or.mp hv).1
  past := h.past

end Blind

/-- **What is known of a timer that is gone**: it has not been called, and it is due when
it was to be called. -/
def Kept (id : TimerId) (x : TvecBase) (l : List TimerEvent) : Prop :=
  ∀ (T : ℕ) (t : ℤ), .added id T t ∈ l → 1 ≤ t → t ≤ mon.range → calls id l = []
    ∧ x.regTick + x.timeOut = T + t

/-- **The ghost follows the wheel**, and keeps the invariant of runs without `Remove`. -/
structure Follows (D : TimerId → Prop) (Z : TimerId → TvecBase × List TimerEvent)
    (G M : WheelMgr) : Prop where
  blind : Blind D Z G M
  inv : Inv adding none none G
  kept : ∀ id, D id → Kept id (Z id).1 (Z id).2

/-- A ghost follows the wheel. -/
def Ghosted (M : WheelMgr) : Prop := ∃ D Z G, Follows D Z G M

theorem Ghosted.new : Ghosted new := by
  refine ⟨fun _ => False, fun id => WheelMgr.new.view id, WheelMgr.new, ?_, Inv.new adding,
    fun id hid => hid.elim⟩
  exact
    { slot := rfl
      curWheel := rfl
      tick := rfl
      next := rfl
      live := fun w i id hid => by cases hid
      fresh := fun id _ hid => hid
      timer := fun id _ => rfl
      events := fun id _ => rfl
      gone := fun id hid => hid.elim
      script := fun id _ => trivial
      past := fun id T t hm => by cases hm }

/-- **A timer is called when it was to be called, and is due then until it is.** Here it
is for a wheel that a ghost follows. -/
theorem due_of_ghosted (h : Ghosted M) {id : TimerId} {T : ℕ} {t : ℤ}
    (hadd : .added id T t ∈ M.log) (ht : 1 ≤ t) (ht' : t ≤ mon.range) :
    (calls id M.log = [] ∧ M.due id = T + t) ∨ (calls id M.log = [T + t] ∧ T + t ≤ M.tick) := by
  obtain ⟨D, Z, G, hblind, hinv, hkept⟩ := h
  by_cases hid : D id
  · have hview := hblind.gone id hid
    have hold := hkept id hid T t
    rw [← hview] at hold
    obtain ⟨hcalls, hdue⟩ := hold (added_filter.mpr hadd) ht ht'
    exact .inl ⟨(calls_filter id M.log).symm.trans hcalls, hdue⟩
  · obtain ⟨haddG, hcalls, hdue⟩ := hblind.same hid
    have hfire : fire T t = T + t := if_neg (by omega)
    rw [hcalls, hdue, hblind.tick, ← hfire]
    rcases hinv.book.fate id T t (haddG T t hadd) ht' with
      ⟨k₁, -, hw | hw⟩ | ⟨k₁, k₂, -⟩ | ⟨-, k, -⟩
    · exact .inl ⟨k₁, hw.2⟩
    · cases hw
    · exact .inr ⟨k₁, k₂⟩
    · exact absurd k (hinv.book.kept rfl id)

theorem alike_unslot (G : WheelMgr) (y : TimerId) (w : WheelId) (i : ℕ) (l₁ l₂ : List TimerId) :
    Alike G (G.unslot y w i l₁ l₂) := by
  obtain ⟨hcur, htick, hnext, htimers, -⟩ := G.alike_removed y w i (l₁ ++ l₂) l₂ (l₁.length + 1)
  exact ⟨hcur, htick, hnext, htimers, fun _ => rfl⟩

/-- The ghost loses a timer from its slot as the wheel does. -/
theorem Blind.unslot {D : TimerId → Prop} {Z : TimerId → TvecBase × List TimerEvent}
    (h : Blind D Z G M) {y : TimerId} {w : WheelId} {i : ℕ} {l₁ l₂ : List TimerId}
    {M' : WheelMgr} (hslot : G.slot w i = l₁ ++ y :: l₂) (hcut : Cut M w i l₁.length M') :
    Blind D Z (G.unslot y w i l₁ l₂) M' := by
  have herase : (M.slot w i).eraseIdx l₁.length = l₁ ++ l₂ := by
    rw [h.slot, hslot]
    simp [List.eraseIdx_append_of_length_le]
  have hset : (G.unslot y w i l₁ l₂).slot = (G.setSlot w i (l₁ ++ l₂)).slot :=
    slot_removed G y w i l₁ l₂
  have hsame : M'.slot = (G.unslot y w i l₁ l₂).slot := by
    rw [hset, hcut.slot, herase]
    unfold WheelMgr.setSlot
    dsimp only
    rw [h.slot]
  refine h.alike (alike_unslot G y w i l₁ l₂) hcut.alike hsame fun w' i' id hid => ?_
  rw [hset] at hid
  by_cases hwi : w' = w ∧ i' = i
  · rw [hwi.1, hwi.2, slot_setSlot_same] at hid
    rw [hwi.1, hwi.2, hslot]
    rcases List.mem_append.mp hid with hid | hid
    · exact List.mem_append_left _ hid
    · exact List.mem_append_right _ (List.mem_cons_of_mem y hid)
  · rwa [slot_setSlot_ne G _ hwi] at hid

/-- A timer that waits has not been called, and is due when it was to be called. -/
theorem Inv.kept (h : Inv adding none none G) {id : TimerId} (hp : Pending none G id) :
    Kept id (G.timers id) G.log := by
  intro T t hadd ht ht'
  have hfire : fire T t = T + t := if_neg (by omega)
  rcases h.book.fate id T t hadd ht' with ⟨k₁, -, hw | hw⟩ | ⟨-, -, -, k, -⟩ | ⟨-, -, k, -⟩
  · exact ⟨k₁, hw.2.trans hfire⟩
  · cases hw
  · exact absurd hp k
  · exact absurd hp k

/-- That is seen from what is on record about it. -/
theorem kept_view {id : TimerId} :
    Kept id (M.view id).1 (M.view id).2 ↔ Kept id (M.timers id) M.log := by
  unfold Kept WheelMgr.view
  simp only [added_filter, calls_filter, bare]

/-- Nothing has happened to a timer that is not gone, but to its position. -/
def Untouched (D : TimerId → Prop) (G G' : WheelMgr) : Prop :=
  G'.tick = G.tick ∧ ∀ v, ¬ D v → (∃ n, G'.timers v = { G.timers v with regIndex := n })
    ∧ G'.log.filter (about v) = G.log.filter (about v)

section Follows

variable {D : TimerId → Prop} {Z : TimerId → TvecBase × List TimerEvent}

/-- What is not about a timer does not matter to the ghost. -/
theorem Follows.alike (h : Follows D Z G M) {M' : WheelMgr} (hM : Alike M M')
    (hslot : M'.slot = M.slot) : Follows D Z G M' :=
  ⟨h.blind.alike ⟨rfl, rfl, rfl, fun _ => rfl, fun _ => rfl⟩ hM (hslot.trans h.blind.slot)
    fun _ _ _ hid => hid, h.inv, h.kept⟩

theorem Follows.error (h : Follows D Z G M) (e : LuaError) : Follows D Z G (M.emit (.error e)) := by
  refine h.alike ⟨rfl, rfl, rfl, fun _ => rfl, fun v => ?_⟩ rfl
  unfold emit
  dsimp only
  rw [List.filter_append]
  exact List.append_nil _

/-- **A timer is cut out of its slot**, and the ghost forgets it. -/
theorem Follows.cut (h : Follows D Z G M) {w : WheelId} {i p : ℕ} {M' : WheelMgr}
    (hcut : Cut M w i p M') :
    ∃ D' Z' G', Follows D' Z' G' M' ∧ (∀ v, D v → D' v) ∧ Untouched D' G G' := by
  obtain ⟨hblind, hinv, hkept⟩ := h
  cases hget : (G.slot w i)[p]? with
  | none =>
    have hsame : M'.slot = G.slot := by
      rw [hcut.slot, List.eraseIdx_of_length_le]
      · unfold setSlot
        dsimp only
        rw [Function.update_eq_self, Function.update_eq_self]
        exact hblind.slot
      · rw [hblind.slot]
        exact List.getElem?_eq_none_iff.mp hget
    exact ⟨D, Z, G, (⟨hblind, hinv, hkept⟩ : Follows D Z G M).alike hcut.alike
      (hsame.trans hblind.slot.symm), fun _ hv => hv, rfl, fun v _ => ⟨⟨_, rfl⟩, rfl⟩⟩
  | some y =>
    obtain ⟨l₁, l₂, hslot, rfl⟩ := exists_split_of_getElem? hget
    have hmem : y ∈ G.slot w i := by
      rw [hslot]
      simp
    have hhand := hinv.unslot hslot
    have hcut' := hblind.unslot hslot hcut
    obtain ⟨hpend, hlt⟩ := hhand.book.held y _ rfl
    have hnodup := nodup_of_slot hinv hslot
    refine ⟨_, _, _, ⟨hcut'.forget hlt fun w' i' hy => hpend ⟨w', i', hy⟩,
      hhand.forget (timers_removed_self hnodup.1), fun id hid => ?_⟩, fun _ => .inl,
      (alike_unslot G y w i l₁ l₂).tick, fun v hv => ⟨?_, filter_forget (not_or.mp hv).2⟩⟩
    swap
    · exact timers_removed_ne G w i l₁ hnodup.2 (not_or.mp hv).2
    by_cases hidy : id = y
    · subst hidy
      have hview : M'.view id = G.view id := by
        have hid : ¬ D id := hblind.live w i id hmem
        refine Prod.ext ?_ ?_
        · exact (hcut.alike.timers id).trans (hblind.timer id hid)
        · exact (hcut.alike.events id).trans (hblind.events id hid)
      rw [Function.update_self, hview, kept_view]
      exact hinv.kept ⟨w, i, hmem⟩
    · rw [Function.update_of_ne hidy]
      exact hkept id (hid.resolve_right hidy)

/-- **`Remove`, whatever the position.** -/
theorem Follows.remove (h : Follows D Z G M) (id : TimerId) :
    (M.remove id).All fun M' =>
      ∃ D' Z' G', Follows D' Z' G' M' ∧ (∀ v, D v → D' v) ∧ Untouched D' G G' := by
  have hsame : ∃ D' Z' G', Follows D' Z' G' M ∧ (∀ v, D v → D' v) ∧ Untouched D' G G' :=
    ⟨D, Z, G, h, fun _ hv => hv, rfl, fun v _ => ⟨⟨_, rfl⟩, rfl⟩⟩
  rcases M.remove_cases id with hrem | ⟨e, hrem⟩ | ⟨w, M', -, hrem, hcut⟩
  · rw [hrem]
    exact hsame
  · rw [hrem]
    exact hsame
  · rw [hrem]
    exact h.cut hcut

/-- No `Remove` is about what is on record of a timer. -/
theorem remove_events (M : WheelMgr) (id : TimerId) :
    (M.remove id).All fun M' => ∀ v, M'.log.filter (about v) = M.log.filter (about v) := by
  rcases M.remove_cases id with hrem | ⟨e, hrem⟩ | ⟨w, M', -, hrem, hcut⟩
  · rw [hrem]
    exact fun _ => rfl
  · rw [hrem]
    exact fun _ => rfl
  · rw [hrem]
    exact hcut.alike.events

theorem Ends.all {I : WheelMgr → Prop} {o : Outcome WheelMgr} (h : Ends I o) : o.All I := by
  obtain ⟨M', rfl | rfl, hM'⟩ := h
  · exact hM'
  · exact hM'

/-- **A timer is added** by the wheel and by its ghost. -/
theorem Follows.addTimer (h : Follows D Z G M) {func : Script} (hfunc : func.AddOnly) (t : ℤ) :
    ∃ G', (G.addTimer func t = .ok G' ∨ G.addTimer func t = .error .timeOut G')
      ∧ (M.addTimer func t).All (Follows D Z G') := by
  obtain ⟨G', hadd, hinv'⟩ : Ends (Inv adding none none) (G.addTimer func t) :=
    h.inv.addWith (c := fun G' => G'.call G.next) hfunc (fun _ _ h₁ => h₁.call nofun)
      fun _ _ => nofun
  refine ⟨G', hadd, (h.blind.addTimer hfunc t).all (I := fun s => s = G') ?_ ?_⟩
  · rcases hadd with hadd | hadd
    · rw [hadd]
      rfl
    · rw [hadd]
      rfl
  · rintro _ M' hblind' rfl
    exact ⟨hblind', hinv', h.kept⟩

/-- **The clock ticks** for both. -/
theorem Follows.onTime (h : Follows D Z G M) {J : WheelMgr → Prop} (hJ : Watch adding J)
    (hG : J G.ticked) :
    ∃ G', G.onTime = .ok G' ∧ J G' ∧ M.onTime.All (Follows D Z G') := by
  obtain ⟨G', hrun, hinv', hG'⟩ :=
    h.inv.onTime_watch hJ (fun w i l₁ id l₂ _ _ => h.inv.book.script id) hG
  refine ⟨G', hrun, hG', h.blind.onTime.all (I := fun s => s = G') ?_ ?_⟩
  · rw [hrun]
    rfl
  · rintro _ M' hblind' rfl
    exact ⟨hblind', hinv', h.kept⟩

end Follows

/-- **What waits in a slot** has not been called, and is due later. -/
theorem pending_of_ghosted (h : Ghosted M) {id : TimerId} {T : ℕ} {t : ℤ}
    (hadd : .added id T t ∈ M.log) (ht : 1 ≤ t) (ht' : t ≤ mon.range) (hp : Pending none M id) :
    calls id M.log = [] ∧ M.tick < T + t := by
  obtain ⟨D, Z, G, hblind, hinv, -⟩ := h
  obtain ⟨w, i, hmem⟩ := hp
  have hmemG : id ∈ G.slot w i := by
    rw [← hblind.slot]
    exact hmem
  obtain ⟨haddG, hcalls, -⟩ := hblind.same (hblind.live w i id hmemG)
  obtain ⟨hnone, hdue⟩ := hinv.kept ⟨w, i, hmemG⟩ T t (haddG T t hadd) ht ht'
  have hlt : G.tick < G.due id := hinv.tick_lt_due ⟨w, i, hmemG⟩
  refine ⟨hcalls.trans hnone, ?_⟩
  rw [hblind.tick, ← hdue]
  exact hlt

/-! ## The recipe of the test -/

/-- `TvecBase:setTime`. -/
def setTime (M : WheelMgr) (id : TimerId) (iTime : ℤ) : WheelMgr :=
  M.updTimer id fun x => { x with timeOut := iTime }

/-- `onRemoveDelayEvent`, as far as it is about the timer it is given. -/
def reschedule (M : WheelMgr) (id : TimerId) : Outcome WheelMgr :=
  let iTimeOut := (M.timers id).timeOut - ((M.tick : ℤ) - (M.timers id).regTick)
  (M.remove id).bind fun M =>
    let M := M.setTime id iTimeOut
    M.add id (M.timers id).timeOut

@[simp] theorem timeOut_setTime (M : WheelMgr) (id : TimerId) (iTime : ℤ) :
    ((M.setTime id iTime).timers id).timeOut = iTime := by
  rw [setTime, timers_updTimer_self]

theorem due_place (M : WheelMgr) (id : TimerId) (w : WheelId) (i : ℕ) :
    (M.place id w i).due id = M.tick + (M.timers id).timeOut := by
  unfold due place setSlot updTimer
  dsimp only
  rw [Function.update_self]

/-- The timer is added again. -/
theorem add_setTime (M : WheelMgr) (id : TimerId) {r : ℤ} (hcur : ∀ w, M.curWheel w ≤ w.count)
    (hr : 1 ≤ r) (hr' : r ≤ mon.range) :
    (M.setTime id r).add id r = .ok ((M.setTime id r).place id (holding r) (M.slotFor r)) :=
  addWith_place _ _ _ hcur hr hr'

/-- **The recipe leaves the due tick of a timer as it is**, whatever `Remove` takes out. -/
theorem Ghosted.due_reschedule (h : Ghosted M) {id : TimerId} {T : ℕ} {t : ℤ}
    (hadd : .added id T t ∈ M.log) (ht : t ≤ mon.range) (hdue : M.due id = T + t)
    (hlt : M.tick < M.due id) :
    ∃ M', (M.reschedule id = .ok M' ∨ ∃ e, M.reschedule id = .error e M')
      ∧ M'.due id = T + t := by
  obtain ⟨D, Z, G, hblind, hinv, -⟩ := h
  have hcur : ∀ w, M.curWheel w ≤ w.count := by
    rw [hblind.curWheel]
    exact hinv.slots.cursor.le_count
  have hpast := hblind.past id T t hadd
  unfold WheelMgr.reschedule
  dsimp only
  set r := (M.timers id).timeOut - ((M.tick : ℤ) - (M.timers id).regTick) with hr
  have hrest : (M.tick : ℤ) + r = T + t := by
    rw [← hdue, due]
    omega
  -- `Add` finds the cursors and the tick as they were
  have hagain : ∀ M₁ : WheelMgr, M₁.curWheel = M.curWheel → M₁.tick = M.tick →
      ∃ M', (M₁.setTime id r).add id r = .ok M' ∧ M'.due id = T + t := by
    intro M₁ hcur₁ htick₁
    refine ⟨_, M₁.add_setTime id (hcur₁ ▸ hcur) (by omega) (by omega), ?_⟩
    rw [due_place, timeOut_setTime, ← hrest, ← htick₁]
    rfl
  rcases M.remove_cases id with hrem | ⟨e, hrem⟩ | ⟨w, M₁, -, hrem, hcut⟩
  · obtain ⟨M', hM', hdue'⟩ := hagain M rfl rfl
    rw [hrem, Outcome.ok_bind, timeOut_setTime]
    exact ⟨M', .inl hM', hdue'⟩
  · rw [hrem]
    exact ⟨M, .inr ⟨e, rfl⟩, hdue⟩
  · obtain ⟨M', hM', hdue'⟩ := hagain M₁ hcut.alike.curWheel hcut.alike.tick
    rw [hrem, Outcome.ok_bind, timeOut_setTime]
    exact ⟨M', .inl hM', hdue'⟩

/-- The timer is where it is registered. -/
def Placed (M : WheelMgr) (id : TimerId) : Prop :=
  ∃ w l₁ l₂, (M.timers id).regWheel = some w
    ∧ M.slot w (M.timers id).regSlot = l₁ ++ id :: l₂ ∧ (M.timers id).regIndex = l₁.length + 1

/-- **A timer that is where it is registered moves to another slot**, in the wheel and in
its ghost. -/
theorem Ghosted.reschedule (h : Ghosted M) {id : TimerId} (hplaced : M.Placed id) {T : ℕ} {t : ℤ}
    (hadd : .added id T t ∈ M.log) (ht : 1 ≤ t) (ht' : t ≤ mon.range) :
    (M.reschedule id).All Ghosted := by
  obtain ⟨D, Z, G, hblind, hinv, hkept⟩ := h
  obtain ⟨w, l₁, l₂, hwheel, hslot, hindex⟩ := hplaced
  set i := (M.timers id).regSlot with hi
  have hslotG : G.slot w i = l₁ ++ id :: l₂ := by
    rw [← hblind.slot]
    exact hslot
  have hmem : id ∈ G.slot w i := by
    rw [hslotG]
    simp
  have hid : ¬ D id := hblind.live w i id hmem
  have hbound := hinv.slots.bound w i id hmem
  have hrem : M.remove id = .ok (M.removed id w i l₁ l₂) := remove_eq hbound hslot hwheel rfl hindex
  have hcut : Cut M w i l₁.length (M.removed id w i l₁ l₂) := by
    refine ⟨?_, M.alike_removed id w i _ _ _⟩
    rw [slot_removed, hslot]
    simp [List.eraseIdx_append_of_length_le]
  -- in both wheels the timer is out of its slot now, and on its way into the next one
  have hhand := hinv.unslot hslotG
  have hout := hblind.unslot hslotG hcut
  obtain ⟨haddG, -, hdue⟩ := hblind.same hid
  have hdueG : G.due id = T + t := (hinv.kept ⟨w, i, hmem⟩ T t (haddG T t hadd) ht ht').2
  have hlt := hinv.tick_lt_due ⟨w, i, hmem⟩
  have hpast := hblind.past id T t hadd
  have htick : (G.unslot id w i l₁ l₂).tick = G.tick := (alike_unslot G id w i l₁ l₂).tick
  have htickM := hblind.tick
  set G₁ := G.unslot id w i l₁ l₂
  unfold WheelMgr.reschedule
  dsimp only
  rw [hrem, Outcome.ok_bind, timeOut_setTime]
  set r := (M.timers id).timeOut - ((M.tick : ℤ) - (M.timers id).regTick) with hr
  have hrest : G.due id = G₁.tick + r := by
    rw [htick, ← htickM, ← hdue, due]
    omega
  rw [hrest] at hhand
  have hset : Inv adding none (some (id, (G₁.setTime id r).tick + r)) (G₁.setTime id r) :=
    hhand.updHand rfl
  have hplace := Inv.place hset (by omega) (by omega) (timeOut_setTime G₁ id r)
    fun _ _ hcold => by cases hcold
  have hends : ((G₁.setTime id r).add id r).All (Inv adding none none) := by
    rw [G₁.add_setTime id hhand.slots.cursor.le_count (by omega) (by omega)]
    exact hplace
  have hblind' : Blind D Z (G₁.setTime id r) ((M.removed id w i l₁ l₂).setTime id r) :=
    hout.updTimer hid (congrArg (fun x : TvecBase => { x with timeOut := r }) (hout.timer id hid))
      (hout.script id hid)
  exact (hblind'.add hid r).all hends fun G' M' hG' hinv' => ⟨D, Z, G', hG', hinv', hkept⟩

/-! ## Runs -/

/-- A call of the wheel from outside, or a timer that is removed and added again. -/
inductive Act
  | op (op : Op)
  | reschedule (id : TimerId)

/-- The wheel after it, with an error in the log if there was one. -/
def act (M : WheelMgr) : Act → WheelMgr
  | .op op => M.step op
  | .reschedule id =>
    match M.reschedule id with
    | .ok M => M
    | .error e M => M.emit (.error e)

/-- Timers are added, with callbacks that only add timers, and removed between ticks,
whatever `Remove` takes out. -/
def RunOps (_ : WheelMgr) : Op → Prop
  | .addTimer _ func => func.AddOnly
  | .remove _ => True
  | .onTime => True

/-- And a timer is added again if it is where it is registered. -/
def ActOps (M : WheelMgr) : Act → Prop
  | .op op => M.RunOps op
  | .reschedule id => M.Placed id ∧ ∃ T t, .added id T t ∈ M.log ∧ 1 ≤ t ∧ t ≤ 12 * 30 * 86400

theorem Ghosted.error (h : Ghosted M) (e : LuaError) : Ghosted (M.emit (.error e)) := by
  obtain ⟨D, Z, G, hfollows⟩ := h
  exact ⟨D, Z, G, hfollows.error e⟩

/-- **A ghost follows every call.** -/
theorem Ghosted.step (h : Ghosted M) {op : Op} (hop : M.RunOps op) : Ghosted (M.step op) := by
  obtain ⟨D, Z, G, hfollows⟩ := h
  have hJ : ∀ e M, Ghosted M → Ghosted (M.emit (.error e)) := fun e _ hM => hM.error e
  cases op with
  | addTimer t func =>
    obtain ⟨G', -, hend⟩ := hfollows.addTimer hop t
    exact of_end hJ _ (hend.mono fun _ h' => ⟨D, Z, G', h'⟩)
  | remove id =>
    refine of_end hJ _ ((hfollows.remove id).mono ?_)
    rintro M' ⟨D', Z', G', h', -⟩
    exact ⟨D', Z', G', h'⟩
  | onTime =>
    obtain ⟨G', -, -, hend⟩ := hfollows.onTime (Watch.none adding) trivial
    exact of_end hJ _ (hend.mono fun _ h' => ⟨D, Z, G', h'⟩)

theorem Ghosted.act (h : Ghosted M) {a : Act} (ha : M.ActOps a) : Ghosted (M.act a) := by
  cases a with
  | op op => exact h.step ha
  | reschedule id =>
    obtain ⟨hplaced, T, t, hadd, ht, ht'⟩ := ha
    exact of_end (fun e _ hM => hM.error e) _ (h.reschedule hplaced hadd ht ht')

/-- **`RegTick + TimeOut` is always the due tick.** In every run of `addTimer`, `Remove`,
`onTime` and the recipe of the test, for every timer that was added at tick `T` with
timeout `t`: until it is called, and it is called at no other tick than `T + t`,
`RegTick + TimeOut` is `T + t`. A timer that waits in a slot has not been called yet, and
its due tick is still to come. The recipe leaves that as it is for every timer whose due tick
is still to come, also where `Remove` raises an error or takes out another timer. -/
theorem due_unchanged (h : Reach WheelMgr.act ActOps new M) {id : TimerId} {T : ℕ} {t : ℤ}
    (hadd : .added id T t ∈ M.log) (ht : 1 ≤ t) (ht' : t ≤ 12 * 30 * 86400) :
    ((calls id M.log = [] ∧ ((M.timers id).regTick : ℤ) + (M.timers id).timeOut = T + t)
        ∨ (calls id M.log = [T + t] ∧ T + t ≤ M.tick))
      ∧ (Pending none M id → calls id M.log = [] ∧ M.tick < T + t)
      ∧ (calls id M.log = [] → M.tick < T + t →
          ∃ M', (M.reschedule id = .ok M' ∨ ∃ e, M.reschedule id = .error e M')
            ∧ ((M'.timers id).regTick : ℤ) + (M'.timers id).timeOut = T + t) := by
  have hghost := h.invariant Ghosted Ghosted.new fun M a hM ha => hM.act ha
  have hfate := due_of_ghosted hghost hadd ht ht'
  have hcalled : calls id M.log = [] → M.due id = T + t := by
    intro hcalls
    rcases hfate with hd | hd
    · exact hd.2
    · rw [hcalls] at hd
      cases hd.1
  refine ⟨hfate, pending_of_ghosted hghost hadd ht ht', fun hcalls hlt => ?_⟩
  have hdue := hcalled hcalls
  exact hghost.due_reschedule hadd ht' hdue (hdue ▸ hlt)

/-- A callback adds a timer to the slot it is called from, and `Remove` of that timer takes
out another one. A third timer is removed and added again. -/
def mistaken : List Act :=
  [.op (.addTimer 1 (.addTimer 60 .done .done)), .op .onTime, .op (.addTimer 60 .done),
    .op (.remove 1), .op (.addTimer 70 .done), .reschedule 3]

theorem due_unchanged_mistaken :
    Reach WheelMgr.act ActOps new (mistaken.foldl WheelMgr.act new)
      ∧ (mistaken.foldl WheelMgr.act new).slot sec 1 = [1]
      ∧ ((mistaken.foldl WheelMgr.act new).due 2 = 61)
      ∧ ((mistaken.foldl WheelMgr.act new).due 3 = 71) := by
  have hrun : Reach WheelMgr.act ActOps new (mistaken.foldl WheelMgr.act new) := by
    refine Reach.start.of_list mistaken ⟨⟨trivial, trivial⟩, trivial, trivial, trivial, trivial,
      ⟨⟨min, [], [], ?_, ?_, ?_⟩, 1, 70, ?_, ?_, ?_⟩, trivial⟩ <;> decide +kernel
  have htaken : .added 2 1 60 ∈ (mistaken.foldl WheelMgr.act new).log := by decide +kernel
  have hmoved : .added 3 1 70 ∈ (mistaken.foldl WheelMgr.act new).log := by decide +kernel
  refine ⟨hrun, by decide +kernel, ?_, ?_⟩
  · rcases (due_unchanged hrun htaken (by decide) (by decide)).1 with hd | hd
    · exact hd.2
    · exact absurd hd.1 (by decide +kernel)
  · rcases (due_unchanged hrun hmoved (by decide) (by decide)).1 with hd | hd
    · exact hd.2
    · exact absurd hd.1 (by decide +kernel)

end WheelMgr
