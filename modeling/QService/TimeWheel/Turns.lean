import QService.TimeWheel.Callbacks

/-!
# A tick keeps the invariant

`onTime` works off the current slot of the second wheel, and then, from wheel
to wheel, the slots that the carries make current. The steps are few: the last
timer still to come is taken in hand (`Inv.take`), it is called or goes into
another slot, its place in the slot is closed up (`Inv.drop`), and when the
slot is done the clock moves on (`Inv.tick`, `Inv.carry`, `Inv.stay`,
`Inv.reset`). From them follow the loops and `onTime` (`Inv.onTime`), and with
them what else the steps keep of a wheel (`Watch`).
-/

namespace WheelMgr

open WheelId

variable {P : Policy} {M : WheelMgr}

/-! ## One timer of the slot -/

theorem front_take (w : WheelId) (todo : List TimerId) (x : TimerId) :
    (⟨w, todo ++ [x], none⟩ : Turn).front = (⟨w, todo, some x⟩ : Turn).front := by
  simp [Turn.front]

/-- What waits in the slot before and after its last timer is taken. -/
theorem pendingAt_take (M : WheelMgr) (w : WheelId) (todo : List TimerId) (x : TimerId) :
    ∃ fresh, pendingAt (some ⟨w, todo ++ [x], none⟩) M w (M.curWheel w) = todo ++ x :: fresh
      ∧ pendingAt (some ⟨w, todo, some x⟩) M w (M.curWheel w) = todo ++ fresh := by
  refine ⟨(M.slot w (M.curWheel w)).drop (⟨w, todo, some x⟩ : Turn).front.length, ?_, ?_⟩
  · rw [pendingAt_turn ⟨rfl, rfl⟩, front_take, List.append_assoc]
    rfl
  · rw [pendingAt_turn ⟨rfl, rfl⟩]

theorem pendingAt_take_ne (M : WheelMgr) {w : WheelId} (todo : List TimerId) (x : TimerId)
    {w' : WheelId} {i : ℕ} (h : ¬ (w' = w ∧ i = M.curWheel w')) :
    pendingAt (some ⟨w, todo, some x⟩) M w' i
      = pendingAt (some ⟨w, todo ++ [x], none⟩) M w' i := by
  rw [pendingAt_other fun t ht => ?_, pendingAt_other fun t ht => ?_]
  · cases ht
    exact h
  · cases ht
    exact h

/-- Taking the last timer still to come leaves the others waiting. -/
theorem Slots.pending_take {w : WheelId} {todo : List TimerId} {x : TimerId}
    (h : Slots P (some ⟨w, todo ++ [x], none⟩) M) (id : TimerId) :
    Pending (some ⟨w, todo, some x⟩) M id
      ↔ Pending (some ⟨w, todo ++ [x], none⟩) M id ∧ id ≠ x := by
  obtain ⟨fresh, hp, hp'⟩ := pendingAt_take M w todo x
  have hnodup := h.nodup w (M.curWheel w)
  rw [hp] at hnodup
  have hx : x ∈ pendingAt (some ⟨w, todo ++ [x], none⟩) M w (M.curWheel w) := by
    rw [hp]
    simp
  constructor
  · rintro ⟨w', i, hid⟩
    by_cases hwi : w' = w ∧ i = M.curWheel w'
    · obtain ⟨rfl, rfl⟩ := hwi
      rw [hp'] at hid
      refine ⟨⟨w', M.curWheel w', ?_⟩, ?_⟩
      · rw [hp]
        simp only [List.mem_append, List.mem_cons] at hid ⊢
        tauto
      · rintro rfl
        have hno := (List.nodup_middle.mp hnodup)
        exact (List.nodup_cons.mp hno).1 hid
    · rw [pendingAt_take_ne M todo x hwi] at hid
      refine ⟨⟨w', i, hid⟩, ?_⟩
      rintro rfl
      obtain ⟨rfl, rfl⟩ := h.mem_unique hid hx
      exact hwi ⟨rfl, rfl⟩
  · rintro ⟨⟨w', i, hid⟩, hne⟩
    refine ⟨w', i, ?_⟩
    by_cases hwi : w' = w ∧ i = M.curWheel w'
    · obtain ⟨rfl, rfl⟩ := hwi
      rw [hp] at hid
      rw [hp']
      simp only [List.mem_append, List.mem_cons] at hid ⊢
      tauto
    · rwa [pendingAt_take_ne M todo x hwi]

theorem Slots.take {w : WheelId} {todo : List TimerId} {x : TimerId}
    (h : Slots P (some ⟨w, todo ++ [x], none⟩) M) : Slots P (some ⟨w, todo, some x⟩) M := by
  obtain ⟨fresh, hp, hp'⟩ := pendingAt_take M w todo x
  have hnodup := h.nodup w (M.curWheel w)
  rw [hp] at hnodup
  constructor
  · exact h.cursor
  · intro t ht
    cases ht
    rw [← front_take]
    exact h.front _ rfl
  · exact h.bound
  · intro w' i
    by_cases hwi : w' = w ∧ i = M.curWheel w'
    · obtain ⟨rfl, rfl⟩ := hwi
      rw [hp']
      exact hnodup.sublist (by simp)
    · rw [pendingAt_take_ne M todo x hwi]
      exact h.nodup w' i
  · intro w' i id hid
    have hold := (h.pending_take id).mp ⟨w', i, hid⟩
    have hid' : id ∈ pendingAt (some ⟨w, todo ++ [x], none⟩) M w' i := by
      by_cases hwi : w' = w ∧ i = M.curWheel w'
      · obtain ⟨rfl, rfl⟩ := hwi
        rw [hp'] at hid
        rw [hp]
        simp only [List.mem_append, List.mem_cons] at hid ⊢
        tauto
      · rwa [← pendingAt_take_ne M todo x hwi]
    have hreg := h.reg w' i id hid'
    have harr : arrival (some ⟨w, todo, some x⟩) M w' i id
        = arrival (some ⟨w, todo ++ [x], none⟩) M w' i id := by
      unfold arrival
      simp only [List.mem_append, List.mem_singleton, hold.2, or_false]
    rw [harr]
    exact hreg
  · intro _ w' i l₁ id l₂ hl hdue
    by_cases hwi : w' = w ∧ i = M.curWheel w'
    · obtain ⟨rfl, rfl⟩ := hwi
      rw [hp'] at hl
      have hturn := h.turn rfl w' (M.curWheel w')
      rw [hp] at hturn
      exact P.turn_erase hturn l₁ id l₂ hl hdue
    · rw [pendingAt_take_ne M todo x hwi] at hl
      exact h.turn rfl w' i l₁ id l₂ hl hdue
  · intro hb
    obtain ⟨hfront, hpos⟩ := h.index hb
    refine ⟨fun t ht => ?_, fun w' i p id hid => ?_⟩
    · cases ht
      rw [← front_take]
      exact hfront _ rfl
    · by_cases hwi : w' = w ∧ i = M.curWheel w'
      · obtain ⟨rfl, rfl⟩ := hwi
        -- nothing was added to the slot, so all that waits stands in front
        have hfresh : fresh = [] := by
          have hp₂ := pendingAt_turn (t := ⟨w', todo, some x⟩) (M := M) ⟨rfl, rfl⟩
          rw [hp', hfront _ rfl, front_take, List.drop_length, List.append_nil] at hp₂
          simpa using hp₂
        rw [hp', hfresh, List.append_nil] at hid
        refine hpos w' (M.curWheel w') p id ?_
        rw [hp]
        exact (List.getElem?_append_left (List.getElem?_eq_some_iff.mp hid).1).trans hid
      · rw [pendingAt_take_ne M todo x hwi] at hid
        exact hpos w' i p id hid

/-- **The last timer still to come is taken in hand**, with its due tick. -/
theorem Inv.take {w : WheelId} {todo : List TimerId} {x : TimerId}
    (h : Inv P (some ⟨w, todo ++ [x], none⟩) none M) :
    Inv P (some ⟨w, todo, some x⟩) (some (x, M.due x)) M := by
  have hpiff := h.slots.pending_take
  have hx : Pending (some ⟨w, todo ++ [x], none⟩) M x := by
    obtain ⟨fresh, hp, -⟩ := pendingAt_take M w todo x
    refine ⟨w, M.curWheel w, ?_⟩
    rw [hp]
    simp
  refine ⟨h.slots.take, ?_⟩
  constructor
  · exact h.book.known
  · intro id hp hne
    refine h.book.idle id (fun hp' => hp ((hpiff id).mpr ⟨hp', ?_⟩)) nofun
    rintro rfl
    exact hne _ rfl
  · intro id d hd
    cases hd
    exact ⟨fun hp => ((hpiff x).mp hp).2 rfl, h.pending_lt hx⟩
  · exact h.book.script
  · intro id T t hmem hle
    have hfate := h.book.fate id T t hmem hle
    by_cases hid : id = x
    · subst hid
      rcases hfate with ⟨k₁, k₂, hw | hw⟩ | ⟨-, -, -, k, -⟩ | ⟨-, -, k, -⟩
      · exact .inl ⟨k₁, k₂, .inr (by rw [hw.2])⟩
      · cases hw
      · exact absurd hx k
      · exact absurd hx k
    · refine hfate.frame rfl Iff.rfl le_rfl ((hpiff id).trans (and_iff_left hid))
        (fun _ => rfl) (fun d' => ⟨fun hd => ?_, fun hd => ?_⟩)
      · cases hd
        exact absurd rfl hid
      · cases hd
  · intro l₁ id T t l₂ hl ht
    rcases h.book.prompt l₁ id T t l₂ hl ht with hc | ⟨-, hd⟩
    · exact .inl hc
    · cases hd
  · exact h.book.noError
  · exact h.book.kept

/-- What the slot is after its timer is taken out. -/
theorem Slots.slot_drop {w : WheelId} {todo : List TimerId} {x : TimerId}
    (h : Slots P (some ⟨w, todo, some x⟩) M) :
    ∃ fresh, M.slot w (M.curWheel w) = todo ++ x :: fresh
      ∧ tableRemove (M.slot w (M.curWheel w)) (todo.length + 1) = some (todo ++ fresh)
      ∧ pendingAt (some ⟨w, todo, some x⟩) M w (M.curWheel w) = todo ++ fresh := by
  obtain ⟨fresh, hfresh⟩ := h.front _ rfl
  have hslot : M.slot w (M.curWheel w) = todo ++ x :: fresh := by
    rw [← hfresh]
    simp [Turn.front]
  refine ⟨fresh, hslot, ?_, ?_⟩
  · rw [hslot, tableRemove, if_pos (by right; simp)]
    simp [List.eraseIdx_append_of_length_le]
  · rw [pendingAt_turn ⟨rfl, rfl⟩, ← hfresh, List.drop_left]

/-- **The book stays** when the same timers wait as before. -/
theorem Book.frame {hot hot' : Option Turn} {M' : WheelMgr} (h : Book P hot none M)
    (hP : ∀ id, Pending hot' M' id ↔ Pending hot M id) (htimers : M'.timers = M.timers)
    (hnext : M'.next = M.next) (hlog : M'.log = M.log) (htick : M.tick ≤ M'.tick) :
    Book P hot' none M' := by
  constructor
  · rw [hnext, htimers, hlog]
    exact h.known
  · intro id hid _
    rw [htimers]
    exact h.idle id ((hP id).not.mp hid) nofun
  · intro id d hd
    cases hd
  · rw [htimers]
    exact h.script
  · rw [hlog]
    intro id T t hmem hle
    refine Fate.frame (M := M) (by rw [hlog]) (by rw [hlog]) htick (hP id) (fun _ => ?_)
      (fun _ => Iff.rfl) (h.fate id T t hmem hle)
    rw [due, htimers]
    rfl
  · rw [hlog]
    intro l₁ id T t l₂ hl ht
    rcases h.prompt l₁ id T t l₂ hl ht with hc | ⟨-, hd⟩
    · exact .inl hc
    · cases hd
  · rw [hlog]
    exact h.noError
  · rw [hlog]
    exact h.kept

/-- Closing up the place of the timer whose turn it was leaves what waits as it is. -/
theorem pendingAt_drop {w : WheelId} {todo fresh : List TimerId} {x : TimerId}
    (hp : pendingAt (some ⟨w, todo, some x⟩) M w (M.curWheel w) = todo ++ fresh) :
    pendingAt (some ⟨w, todo, none⟩) (M.setSlot w (M.curWheel w) (todo ++ fresh))
      = pendingAt (some ⟨w, todo, some x⟩) M := by
  funext w' i
  by_cases hwi : w' = w ∧ i = M.curWheel w'
  · obtain ⟨rfl, rfl⟩ := hwi
    have hturn : pendingAt (some ⟨w', todo, none⟩)
        (M.setSlot w' (M.curWheel w') (todo ++ fresh)) w' (M.curWheel w') = _ :=
      pendingAt_turn ⟨rfl, rfl⟩
    rw [hp, hturn, slot_setSlot_same]
    simp [Turn.front]
  · have hwi' : ¬ (w' = w ∧ i = M.curWheel w) := fun hc => hwi ⟨hc.1, hc.1 ▸ hc.2⟩
    rw [pendingAt_other (M := M) fun t ht => ?_, pendingAt_other fun t ht => ?_,
      slot_setSlot_ne M _ hwi']
    · cases ht
      exact hwi
    · cases ht
      exact hwi

/-- The slots after the place of the timer whose turn it was is closed up. -/
theorem Slots.drop {w : WheelId} {todo fresh : List TimerId} {x : TimerId}
    (h : Slots P (some ⟨w, todo, some x⟩) M)
    (hslot : M.slot w (M.curWheel w) = todo ++ x :: fresh)
    (hp : pendingAt (some ⟨w, todo, some x⟩) M w (M.curWheel w) = todo ++ fresh) :
    Slots P (some ⟨w, todo, none⟩) (M.setSlot w (M.curWheel w) (todo ++ fresh)) := by
  have hpend := pendingAt_drop hp
  constructor
  · exact h.cursor
  · intro t ht
    cases ht
    show _ <+: (M.setSlot w _ _).slot w (M.curWheel w)
    rw [slot_setSlot_same]
    simp [Turn.front]
  · intro w' i id hid
    by_cases hwi : w' = w ∧ i = M.curWheel w
    · obtain ⟨rfl, rfl⟩ := hwi
      refine h.bound w' _ x ?_
      rw [hslot]
      simp
    · rw [slot_setSlot_ne M _ hwi] at hid
      exact h.bound w' i id hid
  · rw [hpend]
    exact h.nodup
  · intro w' i id hid
    rw [hpend] at hid
    exact h.reg w' i id hid
  · intro _ w' i l₁ id l₂ hl hdue
    rw [hpend] at hl
    exact h.turn rfl w' i l₁ id l₂ hl hdue
  · intro hb
    obtain ⟨hfront, hpos⟩ := h.index hb
    refine ⟨fun t ht => ?_, ?_⟩
    · cases ht
      show (M.setSlot w _ _).slot w (M.curWheel w) = _
      have hf : M.slot w (M.curWheel w) = todo ++ [x] := by
        rw [hfront _ rfl]
        rfl
      rw [hslot, List.append_cancel_left_eq] at hf
      rw [slot_setSlot_same, (List.cons.inj hf).2]
      rfl
    · rw [hpend]
      exact hpos

/-- **The place of the timer whose turn it was is closed up**, and the others
stand as they did. -/
theorem Inv.drop {w : WheelId} {todo : List TimerId} {x : TimerId}
    (h : Inv P (some ⟨w, todo, some x⟩) none M) :
    ∃ l, tableRemove (M.slot w (M.curWheel w)) (todo.length + 1) = some l
      ∧ Inv P (some ⟨w, todo, none⟩) none (M.setSlot w (M.curWheel w) l) := by
  obtain ⟨fresh, hslot, hrem, hp⟩ := h.slots.slot_drop
  have hP : ∀ id, Pending (some ⟨w, todo, none⟩) (M.setSlot w (M.curWheel w) (todo ++ fresh)) id
      ↔ Pending (some ⟨w, todo, some x⟩) M id := by
    intro id
    unfold Pending
    rw [pendingAt_drop hp]
  exact ⟨_, hrem, h.slots.drop hslot hp, h.book.frame hP rfl rfl rfl le_rfl⟩

/-! ## The clock moves on -/

/-- The turn of a slot counts nothing twice. -/
theorem pendingAt_eq_slot {t : Turn}
    (h : t.todo ++ (M.slot t.wheel (M.curWheel t.wheel)).drop t.front.length
      = M.slot t.wheel (M.curWheel t.wheel)) : pendingAt (some t) M = M.slot := by
  funext w i
  by_cases hwi : w = t.wheel ∧ i = M.curWheel w
  · obtain ⟨rfl, rfl⟩ := hwi
    exact (pendingAt_turn ⟨rfl, rfl⟩).trans h
  · refine pendingAt_other fun t' ht' => ?_
    cases ht'
    exact hwi

/-- A slot that has not been touched yet is all still to come. -/
theorem pendingAt_start (M : WheelMgr) (w : WheelId) :
    pendingAt (some ⟨w, M.slot w (M.curWheel w), none⟩) M = M.slot :=
  pendingAt_eq_slot (by simp [Turn.front])

/-- A slot that is done with holds what was added meanwhile. -/
theorem pendingAt_end (M : WheelMgr) (w : WheelId) :
    pendingAt (some ⟨w, [], none⟩) M = M.slot :=
  pendingAt_eq_slot (by simp [Turn.front])

theorem arrival_end (M : WheelMgr) (v w : WheelId) (i : ℕ) (id : TimerId) :
    arrival (some ⟨v, [], none⟩) M w i id = M.tick + compOf M.curWheel w i :=
  if_neg fun hc => List.not_mem_nil hc.2.2

/-- **The clock moves** while no slot is half done: what waits waits on, if every
slot comes up when it did. -/
theorem Inv.move {hot hot' : Option Turn} {M' : WheelMgr} (h : Inv P hot none M)
    (hslot : M'.slot = M.slot) (htimers : M'.timers = M.timers) (hnext : M'.next = M.next)
    (hlog : M'.log = M.log) (htick : M.tick ≤ M'.tick) (hp : pendingAt hot M = M.slot)
    (hp' : pendingAt hot' M' = M'.slot) (hcur : Cursor (hot'.map Turn.wheel) M'.curWheel)
    (harr : ∀ w i id, id ∈ M.slot w i → arrival hot' M' w i id = arrival hot M w i id)
    (hfront : ∀ t, hot' = some t → M.slot t.wheel (M'.curWheel t.wheel) = t.front)
    (hturn : hot'.isSome → ∀ w i l₁ id l₂, M.slot w i = l₁ ++ id :: l₂ →
      M.due id = M'.tick → P.turn w l₁ (M.timers id).func) :
    Inv P hot' none M' := by
  have hpend : pendingAt hot' M' = pendingAt hot M := by rw [hp', hslot, hp]
  have hP : ∀ id, Pending hot' M' id ↔ Pending hot M id := by
    intro id
    unfold Pending
    rw [hpend]
  refine ⟨?_, h.book.frame hP htimers hnext hlog htick⟩
  constructor
  · exact hcur
  · intro t ht
    rw [hslot, hfront t ht]
  · rw [hslot]
    exact h.slots.bound
  · rw [hpend]
    exact h.slots.nodup
  · intro w i id hid
    rw [hpend] at hid
    have hreg := h.slots.reg w i id hid
    rw [hp] at hid
    rw [htimers, harr w i id hid]
    exact hreg
  · intro hh w i l₁ id l₂ hl hdue
    rw [hp', hslot] at hl
    rw [due, htimers] at hdue
    rw [htimers]
    exact hturn hh w i l₁ id l₂ hl hdue
  · intro hb
    refine ⟨fun t ht => by rw [hslot, hfront t ht], ?_⟩
    rw [hpend, htimers]
    exact (h.slots.index hb).2

/-- The wheel at the start of a tick. -/
def ticked (M : WheelMgr) : WheelMgr :=
  { M with tick := M.tick + 1, curWheel := advance M.curWheel }

/-- **A tick begins**: the slot that was one tick away is current. The callbacks
that are due now must be allowed. -/
theorem Inv.tick (h : Inv P none none M)
    (hturn : ∀ w i l₁ id l₂, M.slot w i = l₁ ++ id :: l₂ → M.due id = M.tick + 1 →
      P.turn w l₁ (M.timers id).func) :
    Inv P (some ⟨sec, M.slot sec (advance M.curWheel sec), none⟩) none M.ticked := by
  have hadv : advance M.curWheel sec = M.curWheel sec + 1 := Function.update_self _ _ _
  refine h.move rfl rfl rfl rfl (Nat.le_succ _) rfl (pendingAt_start M.ticked sec)
    (cursor_advance h.slots.cursor) ?_ ?_ fun _ => hturn
  · intro w i id hid
    unfold arrival
    dsimp only
    by_cases hwi : w = sec ∧ i = M.curWheel sec + 1
    · obtain ⟨rfl, rfl⟩ := hwi
      rw [if_pos ⟨rfl, hadv.symm, by rw [hadv]; exact hid⟩, compOf_next_sec]
      exact Nat.cast_succ _
    · rw [if_neg fun hc => hwi ⟨hc.1, ?_⟩, ← compOf_advance h.slots.cursor w hwi]
      · show ((M.tick + 1 : ℕ) : ℤ) + compOf (advance M.curWheel) w i = _
        push_cast
        ring
      · obtain ⟨rfl, hi, -⟩ := hc
        exact hi.trans hadv
  · intro t ht
    cases ht
    exact (List.append_nil _).symm

/-- The wheel after a carry. -/
def carried (M : WheelMgr) (v w : WheelId) : WheelMgr :=
  { M with curWheel := WheelMgr.carry M.curWheel v w }

/-- **A wheel has gone round**: it is reset, and the next one advances to a slot
that has come up. -/
theorem Inv.carry {v w : WheelId} (h : Inv P (some ⟨v, [], none⟩) none M)
    (hvw : v.next = some w) (hfull : v.count = M.curWheel v) :
    Inv P (some ⟨w, M.slot w (WheelMgr.carry M.curWheel v w w), none⟩) none (M.carried v w) := by
  have hcarry : WheelMgr.carry M.curWheel v w w = M.curWheel w + 1 := Function.update_self _ _ _
  have hcur : Cursor (some v) M.curWheel := h.slots.cursor
  refine h.move rfl rfl rfl rfl le_rfl (pendingAt_end M v) (pendingAt_start (M.carried v w) w)
    (cursor_carry hvw hcur) ?_ ?_ fun _ => ?_
  · intro u i id hid
    obtain ⟨hi, hi'⟩ := h.slots.bound u i id hid
    rw [arrival_end]
    unfold arrival
    dsimp only
    by_cases hui : u = w ∧ i = M.curWheel w + 1
    · obtain ⟨rfl, rfl⟩ := hui
      rw [if_pos ⟨rfl, hcarry.symm, by rw [hcarry]; exact hid⟩, compOf_next hvw hcur hfull,
        add_zero]
      rfl
    · rw [if_neg fun hc => hui ⟨hc.1, ?_⟩, ← compOf_carry hvw hcur hfull u hi' hi hui]
      · rfl
      · obtain ⟨rfl, hi, -⟩ := hc
        exact hi.trans hcarry
  · intro t ht
    cases ht
    exact (List.append_nil _).symm
  · have hturn := h.slots.turn rfl
    rw [pendingAt_end] at hturn
    exact hturn

/-- A wheel that has not gone round ends the tick. -/
theorem Inv.stay {v : WheelId} (h : Inv P (some ⟨v, [], none⟩) none M)
    (hfull : ¬ v.count = M.curWheel v) : Inv P none none M :=
  h.move rfl rfl rfl rfl le_rfl (pendingAt_end M v) rfl (cursor_stay h.slots.cursor hfull)
    (fun w i id _ => (arrival_end M v w i id).symm) nofun nofun

/-- The largest wheel is reset, and the tick ends. -/
theorem Inv.reset (h : Inv P (some ⟨mon, [], none⟩) none M) (hfull : mon.count = M.curWheel mon) :
    Inv P none none (M.setCurWheel mon 0) := by
  refine h.move rfl rfl rfl rfl le_rfl (pendingAt_end M mon) rfl (cursor_reset h.slots.cursor)
    (fun w i id hid => ?_) nofun nofun
  obtain ⟨hi, hi'⟩ := h.slots.bound w i id hid
  rw [arrival_end]
  show (M.tick : ℤ) + compOf (Function.update M.curWheel mon 0) w i = _
  rw [compOf_reset hfull w hi' hi]

/-! ## The loops -/

/-- What is known of the last timer still to come. -/
theorem Inv.last {w : WheelId} {todo : List TimerId} {x : TimerId}
    (h : Inv P (some ⟨w, todo ++ [x], none⟩) none M) :
    (M.slot w (M.curWheel w))[todo.length]? = some x
      ∧ Registered (M.timers x) w (M.curWheel w) M.tick
      ∧ (M.due x = M.tick → P.turn w todo (M.timers x).func) := by
  obtain ⟨fresh, hp, -⟩ := pendingAt_take M w todo x
  refine ⟨?_, ?_, fun hdue => h.slots.turn rfl w _ todo x fresh hp hdue⟩
  · rw [h.slots.take.slot_drop.choose_spec.1]
    simp
  · have hreg := h.slots.reg w (M.curWheel w) x (by rw [hp]; simp)
    rwa [arrival, if_pos ⟨rfl, rfl, by simp⟩] at hreg

/-- **A property that the steps of a tick keep**: the call of a timer, and the `Add` of a
timer that is spread. It is not about slots and cursors. -/
structure Watch (P : Policy) (J : WheelMgr → Prop) : Prop where
  slot : ∀ {M w i l}, J M → J (M.setSlot w i l)
  cursor : ∀ {M cur}, J M → J { M with curWheel := cur }
  call : ∀ {M todo x}, Inv P (some ⟨sec, todo ++ [x], none⟩) none M → J M → J (M.call x)
  spread : ∀ {M w todo x M'}, w ≠ sec → Inv P (some ⟨w, todo ++ [x], none⟩) none M →
    (M.updTimer x fun y => { y with timeOut := y.timeOut - y.compTime }).add x
      ((M.timers x).timeOut - (M.timers x).compTime) = .ok M' → J M → J M'

theorem Watch.none (P : Policy) : Watch P fun _ => True :=
  ⟨fun h => h, fun h => h, fun _ h => h, fun _ _ _ h => h⟩

/-- **The loop of `onTime` calls every timer of the slot.** -/
theorem Inv.runSlot {J : WheelMgr → Prop} (hJ : Watch P J) (i : ℕ) (todo : List TimerId)
    (M : WheelMgr) (hi : todo.length = i) (h : Inv P (some ⟨sec, todo, none⟩) none M) (hM : J M) :
    ∃ M', WheelMgr.runSlot i M = .ok M' ∧ Inv P (some ⟨sec, [], none⟩) none M' ∧ J M' := by
  induction i generalizing todo M with
  | zero =>
    rw [List.eq_nil_of_length_eq_zero hi] at h
    exact ⟨M, rfl, h, hM⟩
  | succ i ih =>
    rcases List.eq_nil_or_concat' todo with rfl | ⟨todo, x, rfl⟩
    · cases hi
    · have hlen : todo.length = i := by simpa using hi
      obtain ⟨hget, hreg, hturn⟩ := h.last
      have hdue : M.due x = M.tick := by
        have hkey := hreg.key
        rwa [if_pos rfl] at hkey
      have htake := h.take
      rw [hdue] at htake
      have hcall : Inv P (some ⟨sec, todo, some x⟩) none (M.call x) := by
        refine htake.call fun t ht => ?_
        cases ht
        exact hturn hdue
      obtain ⟨l, hrem, hdrop⟩ := hcall.drop
      rw [hlen] at hget hrem
      obtain ⟨M', hrun, h'⟩ := ih todo _ hlen hdrop (hJ.slot (hJ.call h hM))
      refine ⟨M', ?_, h'⟩
      unfold WheelMgr.runSlot
      rw [hget]
      dsimp only
      rw [hrem]
      exact hrun

/-- The slots are few enough that a spread timer does not come back to its own. -/
theorem two_mul_param_lt_range (w : WheelId) : 2 * (w.param : ℤ) < w.range := by
  cases w <;> decide

/-- `Add` calls a timer whose tick has come. -/
theorem add_zero_eq (M : WheelMgr) (x : TimerId) :
    M.add x 0 = .ok ((M.updTimer x fun y => { y with run := false }).call x) := by
  unfold WheelMgr.add WheelMgr.addWith
  rw [if_neg (by decide)]
  exact if_pos le_rfl

/-- **`Add` of a timer that is spread**: it is called if its tick has come, and
goes into another slot otherwise. -/
theorem Inv.addAgain {w : WheelId} {todo : List TimerId} {x : TimerId} {r : ℤ}
    (h : Inv P (some ⟨w, todo, some x⟩) (some (x, M.tick + r)) M)
    (hr : (M.timers x).timeOut = r) (hr₀ : 0 ≤ r) (hr₁ : r < 2 * w.param)
    (hturn : r = 0 → P.turn w todo (M.timers x).func) :
    ∃ M', M.add x r = .ok M' ∧ Inv P (some ⟨w, todo, some x⟩) none M' := by
  have hmon : 2 * (w.param : ℤ) ≤ mon.range := by cases w <;> decide
  by_cases hz : r = 0
  · subst hz
    rw [add_zero] at h
    have h₁ := h.updHand (f := fun y => { y with run := false }) rfl
    refine ⟨_, add_zero_eq M x, Inv.call (M := M.updTimer x _) h₁ fun t ht => ?_⟩
    cases ht
    show P.turn w todo (Function.update M.timers x _ x).func
    rw [Function.update_self]
    exact hturn rfl
  · refine ⟨_, addWith_place _ M x h.slots.cursor.le_count (by omega) (by omega), ?_⟩
    refine h.place (by omega) (by omega) hr fun _ t ht hc => ?_
    cases ht
    have hwheel : holding r = w := hc.1
    have hrange := M.slotFor_eq_cur h.slots.cursor (by omega) (by omega) hc.2
    have hlt := two_mul_param_lt_range w
    rw [hwheel] at hrange
    omega

/-- **The loop of `cashData` spreads every timer of the slot**, and calls those
whose tick has come. -/
theorem Inv.cashLoop {J : WheelMgr → Prop} (hJ : Watch P J) {w : WheelId} (hw : w ≠ sec) (i : ℕ)
    (todo : List TimerId) (M : WheelMgr) (hi : todo.length = i)
    (h : Inv P (some ⟨w, todo, none⟩) none M) (hM : J M) :
    ∃ M', WheelMgr.cashLoop w i M = .ok M' ∧ Inv P (some ⟨w, [], none⟩) none M' ∧ J M' := by
  induction i generalizing todo M with
  | zero =>
    rw [List.eq_nil_of_length_eq_zero hi] at h
    exact ⟨M, rfl, h, hM⟩
  | succ i ih =>
    rcases List.eq_nil_or_concat' todo with rfl | ⟨todo, x, rfl⟩
    · cases hi
    · have hlen : todo.length = i := by simpa using hi
      obtain ⟨hget, hreg, hturn⟩ := h.last
      -- the slot has come up, so what is left of the timeout is the rest of it
      have hkey := hreg.key
      rw [if_neg hw] at hkey
      have hdue : M.due x = M.tick + ((M.timers x).timeOut - (M.timers x).compTime) := by
        rw [due]
        omega
      have htake := h.take
      rw [hdue] at htake
      have hsub := htake.updHand (f := fun y => { y with timeOut := y.timeOut - y.compTime }) rfl
      set M₁ := M.updTimer x fun y => { y with timeOut := y.timeOut - y.compTime } with hM₁
      have htimer : M₁.timers x
          = { M.timers x with timeOut := (M.timers x).timeOut - (M.timers x).compTime } :=
        M.timers_updTimer_self x _
      have hearly := hreg.early
      have hlate := hreg.late
      obtain ⟨M₂, hadd, h₂⟩ := Inv.addAgain (M := M₁) hsub (by rw [htimer]) (by omega) (by omega)
        fun hz => by
          rw [htimer]
          exact hturn (by omega)
      obtain ⟨l, hrem, hdrop⟩ := h₂.drop
      rw [hlen] at hget hrem
      obtain ⟨M', hrun, h'⟩ := ih todo _ hlen hdrop (hJ.slot (hJ.spread hw h hadd hM))
      refine ⟨M', ?_, h'⟩
      unfold WheelMgr.cashLoop
      rw [hget]
      dsimp only
      rw [← hM₁, htimer]
      dsimp only
      rw [hadd, Outcome.ok_bind, hrem]
      exact hrun

/-- `cashData` spreads the slot that a carry has made current. -/
theorem Inv.cashData {J : WheelMgr → Prop} (hJ : Watch P J) {w : WheelId} (hw : w ≠ sec)
    (h : Inv P (some ⟨w, M.slot w (M.curWheel w), none⟩) none M) (hM : J M) :
    ∃ M', M.cashData w = .ok M' ∧ Inv P (some ⟨w, [], none⟩) none M' ∧ J M' := by
  have hcur : Cursor (some w) M.curWheel := h.slots.cursor
  unfold WheelMgr.cashData
  rw [get_of_mem M ⟨hcur.2.1, hcur.2.2.1⟩]
  exact h.cashLoop hJ hw _ _ M rfl hM

/-- The wheels after a wheel, in the order in which they are carried to. -/
def Chain : WheelId → List WheelId → Prop
  | v, [] => v = mon
  | v, w :: ws => v.next = some w ∧ Chain w ws

/-- **`cashAll` ends the tick**: it carries from wheel to wheel until one has not
gone round. -/
theorem Inv.cashFrom {J : WheelMgr → Prop} (hJ : Watch P J) (v : WheelId) (ws : List WheelId)
    (M : WheelMgr) (hchain : Chain v ws) (h : Inv P (some ⟨v, [], none⟩) none M) (hM : J M) :
    ∃ M', WheelMgr.cashFrom v ws M = .ok M' ∧ Inv P none none M' ∧ J M' := by
  induction ws generalizing v M with
  | nil =>
    obtain rfl : v = mon := hchain
    unfold WheelMgr.cashFrom
    split
    · rename_i hfull
      exact ⟨_, rfl, h.reset hfull, hJ.cursor hM⟩
    · rename_i hfull
      exact ⟨_, rfl, h.stay hfull, hM⟩
  | cons w ws ih =>
    obtain ⟨hvw, hchain⟩ := hchain
    unfold WheelMgr.cashFrom
    split
    · rename_i hfull
      have hw : w ≠ sec := by
        rintro rfl
        cases v <;> cases hvw
      obtain ⟨M₁, hcash, h₁, hM₁⟩ :=
        Inv.cashData (M := M.carried v w) hJ hw (h.carry hvw hfull) (hJ.cursor hM)
      obtain ⟨M₂, hrest, h₂⟩ := ih w M₁ hchain h₁ hM₁
      refine ⟨M₂, ?_, h₂⟩
      have hne : w ≠ v := (below_next hvw).2.2
      have hcarried : (M.setCurWheel v 0).setCurWheel w ((M.setCurWheel v 0).curWheel w + 1)
          = M.carried v w := by
        unfold setCurWheel carried WheelMgr.carry
        dsimp only
        rw [Function.update_of_ne hne]
      dsimp only
      rw [hcarried, hcash, Outcome.ok_bind, hrest]
    · rename_i hfull
      exact ⟨_, rfl, h.stay hfull, hM⟩

/-- **`onTime` keeps the invariant**, if the callbacks that are due are allowed, and
what its steps keep. -/
theorem Inv.onTime_watch {J : WheelMgr → Prop} (hJ : Watch P J) (h : Inv P none none M)
    (hturn : ∀ w i l₁ id l₂, M.slot w i = l₁ ++ id :: l₂ → M.due id = M.tick + 1 →
      P.turn w l₁ (M.timers id).func) (hM : J M.ticked) :
    ∃ M', M.onTime = .ok M' ∧ Inv P none none M' ∧ J M' := by
  have htick := h.tick hturn
  have hcur : Cursor (some sec) (advance M.curWheel) := cursor_advance h.slots.cursor
  obtain ⟨M₁, hslot, h₁, hM₁⟩ := htick.runSlot hJ _ _ M.ticked rfl hM
  obtain ⟨M₂, hcash, h₂⟩ :=
    h₁.cashFrom hJ sec [min, hor, day, mon] M₁ ⟨rfl, rfl, rfl, rfl, rfl⟩ hM₁
  refine ⟨M₂, ?_, h₂⟩
  rw [WheelMgr.onTime, get_of_mem _ (by exact ⟨hcur.2.1, hcur.2.2.1⟩)]
  show (WheelMgr.runSlot (M.slot sec (advance M.curWheel sec)).length M.ticked).bind cashAll = _
  rw [hslot]
  exact hcash

/-- **`onTime` keeps the invariant.** -/
theorem Inv.onTime (h : Inv P none none M)
    (hturn : ∀ w i l₁ id l₂, M.slot w i = l₁ ++ id :: l₂ → M.due id = M.tick + 1 →
      P.turn w l₁ (M.timers id).func) :
    ∃ M', M.onTime = .ok M' ∧ Inv P none none M' := by
  obtain ⟨M', hrun, h', -⟩ := h.onTime_watch (Watch.none P) hturn trivial
  exact ⟨M', hrun, h'⟩

end WheelMgr
