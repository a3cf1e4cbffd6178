import QService.TimeWheel.Clock

/-!
# The invariant of the timer wheel

Every timer that waits in a slot is registered for it, and the slot comes up
at the timer's due tick or, on the larger wheels, early enough to spread the
timer again (`Registered`). The invariant says this for every slot of every
wheel, and what has become of every timer that was ever added: it waits with
its due tick as it was, or it has been called once at that tick, or it has
been removed and not called (`Fate`).

It has to hold inside `onTime` as well, where callbacks run. There one slot is
being worked off from its end (a `Turn`): in front the timers whose turn is
still to come, then the one whose turn it is, then those that callbacks have
added to the same slot meanwhile. The first are due to come up now, the last
only after a full round. And a timer may be in hand (`hand`), taken out of a
slot or just made, on its way into the next slot.

What the callbacks may do differs from result to result, and so does what can
be said about the recorded positions; a `Policy` says both.
-/

namespace WheelMgr

open WheelId

/-- What a result is about: whether every recorded position is right, which
callbacks the timers have, and which callbacks may be called from a wheel
while the given timers wait before it in the slot. A callback may remove a
timer only where positions are right and the timer does not wait before it,
and may then add no timer to the slot it is called from. -/
structure Policy where
  index : Bool
  script : Script → Prop
  turn : WheelId → List TimerId → Script → Prop
  script_done : script .done
  script_addTimer : ∀ {t func rest}, script (.addTimer t func rest) → script func ∧ script rest
  script_remove : ∀ {id rest}, ¬ script (.remove id rest)
  script_cancel : ∀ {id rest}, script (.cancel id rest) → index = true ∧ script rest
  turn_addTimer : ∀ {w l t func rest}, turn w l (.addTimer t func rest) → t ≤ mon.range →
    (index = true → t ≠ w.range) ∧ (t ≤ 0 → turn w l func) ∧ turn w l rest
  turn_cancel : ∀ {w l id rest}, turn w l (.cancel id rest) → id ∉ l ∧ turn w l rest
  turn_sublist : ∀ {w l l' s}, l'.Sublist l → turn w l s → turn w l' s

/-- What may be called from a list may be called when a timer is taken out of it. -/
theorem Policy.turn_erase (P : Policy) {w : WheelId} {l₁ l₂ : List TimerId} {v : TimerId}
    {isDue : TimerId → Prop} {func : TimerId → Script}
    (h : ∀ m₁ id m₂, l₁ ++ v :: l₂ = m₁ ++ id :: m₂ → isDue id → P.turn w m₁ (func id))
    (m₁ : List TimerId) (id : TimerId) (m₂ : List TimerId) (hm : l₁ ++ l₂ = m₁ ++ id :: m₂)
    (hdue : isDue id) : P.turn w m₁ (func id) := by
  rcases List.append_eq_append_iff.mp hm with ⟨m, rfl, hm'⟩ | ⟨m, rfl, hm'⟩
  · refine P.turn_sublist (l := l₁ ++ v :: m) (by simp) (h _ id m₂ ?_ hdue)
    rw [hm']
    simp
  · cases m with
    | nil =>
      refine P.turn_sublist (l := m₁ ++ [v]) (by simp) (h _ id m₂ ?_ hdue)
      rw [List.append_nil, ← (show id :: m₂ = l₂ from hm')]
      simp
    | cons a m =>
      obtain ⟨rfl, -⟩ := List.cons.inj hm'
      refine h m₁ id (m ++ v :: l₂) ?_ hdue
      simp

/-- A slot that is being worked off from its end: the wheel it is the current
slot of, the timers still to come, and the timer whose turn it is. -/
structure Turn where
  wheel : WheelId
  todo : List TimerId
  self : Option TimerId

/-- The part of the slot that was there before. -/
def Turn.front (h : Turn) : List TimerId := h.todo ++ h.self.toList

/-- The timers that wait in a slot. The one whose turn it is does not. -/
def pendingAt (hot : Option Turn) (M : WheelMgr) (w : WheelId) (i : ℕ) : List TimerId :=
  match hot with
  | none => M.slot w i
  | some h =>
    if w = h.wheel ∧ i = M.curWheel w then h.todo ++ (M.slot w i).drop h.front.length
    else M.slot w i

/-- The timer waits in some slot. -/
def Pending (hot : Option Turn) (M : WheelMgr) (id : TimerId) : Prop :=
  ∃ w i, id ∈ pendingAt hot M w i

/-- The tick at which the slot of a waiting timer comes up. -/
def arrival (hot : Option Turn) (M : WheelMgr) (w : WheelId) (i : ℕ) (id : TimerId) : ℤ :=
  match hot with
  | none => M.tick + compOf M.curWheel w i
  | some h =>
    if w = h.wheel ∧ i = M.curWheel w ∧ id ∈ h.todo then M.tick
    else M.tick + compOf M.curWheel w i

/-- The due tick of a waiting timer. -/
def due (M : WheelMgr) (id : TimerId) : ℤ := (M.timers id).regTick + (M.timers id).timeOut

/-- The timer is registered for a slot that comes up at `tick`: on the second
wheel its due tick, on another wheel less than two slots before it. -/
structure Registered (x : TvecBase) (w : WheelId) (i : ℕ) (tick : ℤ) : Prop where
  wheel : x.regWheel = some w
  slot : x.regSlot = i
  run : x.run = false
  key : x.regTick + (if w = sec then x.timeOut else x.compTime) = tick
  early : tick ≤ x.regTick + x.timeOut
  late : x.regTick + x.timeOut < tick + 2 * w.param

/-- The tick at which a timer is to be called. -/
def fire (tick : ℕ) (iTimeOut : ℤ) : ℤ := if iTimeOut ≤ 0 then tick else tick + iTimeOut

/-- **What has become of a timer that is to be called at `d`**: it waits, or it
has been called then and only then, or it has been removed. -/
def Fate (hot : Option Turn) (hand : Option (TimerId × ℤ)) (M : WheelMgr) (id : TimerId)
    (d : ℤ) : Prop :=
  (calls id M.log = [] ∧ .removed id ∉ M.log
      ∧ ((Pending hot M id ∧ M.due id = d) ∨ hand = some (id, d)))
    ∨ (calls id M.log = [d] ∧ d ≤ M.tick ∧ .removed id ∉ M.log
      ∧ ¬ Pending hot M id ∧ ∀ d', hand ≠ some (id, d'))
    ∨ (calls id M.log = [] ∧ .removed id ∈ M.log
      ∧ ¬ Pending hot M id ∧ ∀ d', hand ≠ some (id, d'))

/-- What the slots hold. -/
structure Slots (P : Policy) (hot : Option Turn) (M : WheelMgr) : Prop where
  cursor : Cursor (hot.map Turn.wheel) M.curWheel
  front : ∀ h, hot = some h → h.front <+: M.slot h.wheel (M.curWheel h.wheel)
  bound : ∀ w i id, id ∈ M.slot w i → 1 ≤ i ∧ i ≤ w.count
  nodup : ∀ w i, (pendingAt hot M w i).Nodup
  reg : ∀ w i id, id ∈ pendingAt hot M w i →
    Registered (M.timers id) w i (arrival hot M w i id)
  turn : hot.isSome → ∀ w i l₁ id l₂, pendingAt hot M w i = l₁ ++ id :: l₂ →
    M.due id = M.tick → P.turn w l₁ (M.timers id).func
  index : P.index = true →
    (∀ h, hot = some h → M.slot h.wheel (M.curWheel h.wheel) = h.front)
      ∧ ∀ w i p id, (pendingAt hot M w i)[p]? = some id → (M.timers id).regIndex = p + 1

/-- What is known of every timer. -/
structure Book (P : Policy) (hot : Option Turn) (hand : Option (TimerId × ℤ)) (M : WheelMgr) :
    Prop where
  known : ∀ id, M.next ≤ id → (M.timers id).regWheel = none ∧ calls id M.log = []
    ∧ .removed id ∉ M.log ∧ ∀ T t, .added id T t ∉ M.log
  idle : ∀ id, ¬ Pending hot M id → (∀ d, hand ≠ some (id, d)) →
    (M.timers id).run = true ∨ (M.timers id).regWheel = none
  held : ∀ id d, hand = some (id, d) → ¬ Pending hot M id ∧ id < M.next
  script : ∀ id, P.script (M.timers id).func
  fate : ∀ id T (t : ℤ), .added id T t ∈ M.log → t ≤ mon.range → Fate hot hand M id (fire T t)
  prompt : ∀ l₁ id T t l₂, M.log = l₁ ++ .added id T t :: l₂ → t ≤ 0 →
    (∃ l₃, l₂ = .called id T :: l₃) ∨ (l₂ = [] ∧ hand = some (id, (M.tick : ℤ)))
  noError : ∀ e, .error e ∈ M.log → e = .timeOut
  kept : P.index = false → ∀ id, .removed id ∉ M.log

/-- **The invariant**: the slots and the book. -/
structure Inv (P : Policy) (hot : Option Turn) (hand : Option (TimerId × ℤ)) (M : WheelMgr) :
    Prop where
  slots : Slots P hot M
  book : Book P hot hand M

/-! ## The log -/

theorem calls_append (id : TimerId) (l₁ l₂ : List TimerEvent) :
    calls id (l₁ ++ l₂) = calls id l₁ ++ calls id l₂ := List.filterMap_append

theorem calls_called_self (id : TimerId) (T : ℕ) : calls id [.called id T] = [(T : ℤ)] := by
  simp [calls]

theorem calls_called_ne {id j : TimerId} (h : j ≠ id) (T : ℕ) : calls id [.called j T] = [] := by
  simp [calls, h]

/-- Where an event can stand in a log that has grown by one. -/
theorem append_singleton_eq {α : Type*} {l l₁ l₂ : List α} {e a : α}
    (h : l ++ [e] = l₁ ++ a :: l₂) :
    (l₂ = [] ∧ e = a) ∨ ∃ l₃, l₂ = l₃ ++ [e] ∧ l = l₁ ++ a :: l₃ := by
  rcases List.eq_nil_or_concat' l₂ with rfl | ⟨l₃, b, rfl⟩
  · exact .inl ⟨rfl, (List.cons.inj (List.append_inj' h rfl).2).1⟩
  · rw [← List.cons_append, ← List.append_assoc] at h
    obtain ⟨h₁, h₂⟩ := List.append_inj' h rfl
    rw [(List.cons.inj h₂).1]
    exact .inr ⟨l₃, rfl, h₁⟩

/-- A timer fares on as it did when nothing happens to it. -/
theorem Fate.frame {hot hot' : Option Turn} {hand hand' : Option (TimerId × ℤ)}
    {M M' : WheelMgr} {id : TimerId} {d : ℤ} (hcalls : calls id M'.log = calls id M.log)
    (hrem : .removed id ∈ M'.log ↔ .removed id ∈ M.log) (htick : M.tick ≤ M'.tick)
    (hpend : Pending hot' M' id ↔ Pending hot M id)
    (hdue : Pending hot M id → M'.due id = M.due id)
    (hhand : ∀ d', hand' = some (id, d') ↔ hand = some (id, d'))
    (h : Fate hot hand M id d) : Fate hot' hand' M' id d := by
  unfold Fate
  rw [hcalls, hrem, hpend]
  simp only [ne_eq, hhand]
  rcases h with ⟨h₁, h₂, hw | hw⟩ | ⟨h₁, h₂, h₃, h₄⟩ | h₃
  · exact .inl ⟨h₁, h₂, .inl ⟨hw.1, (hdue hw.1).trans hw.2⟩⟩
  · exact .inl ⟨h₁, h₂, .inr hw⟩
  · exact .inr (.inl ⟨h₁, by omega, h₃, h₄⟩)
  · exact .inr (.inr h₃)

/-! ## The fresh wheel -/

/-- **The wheel that `new` makes is good.** -/
theorem Inv.new (P : Policy) : Inv P none none new where
  slots :=
    { cursor := fun w => by cases w <;> decide
      front := fun h hh => by cases hh
      bound := fun w i id hid => by cases hid
      nodup := fun w i => List.nodup_nil
      reg := fun w i id hid => by cases hid
      turn := fun hh => by cases hh
      index := fun _ => ⟨fun h hh => (by cases hh), fun w i p id hid => by cases hid⟩ }
  book :=
    { known := fun id _ => ⟨rfl, rfl, List.not_mem_nil, fun _ _ => List.not_mem_nil⟩
      idle := fun id _ _ => .inr rfl
      held := fun id d hd => by cases hd
      script := fun id => P.script_done
      fate := fun id T t ht _ => by cases ht
      prompt := fun l₁ id T t l₂ hl => by simp [WheelMgr.new] at hl
      noError := fun e he => by cases he
      kept := fun _ id hid => by cases hid }

section Ops

variable {P : Policy} {hot : Option Turn} {hand : Option (TimerId × ℤ)} {M : WheelMgr}

/-- A waiting timer waits in the slot it is registered for. -/
theorem Slots.mem_unique (h : Slots P hot M) {id : TimerId} {w w' : WheelId} {i i' : ℕ}
    (hid : id ∈ pendingAt hot M w i) (hid' : id ∈ pendingAt hot M w' i') : w = w' ∧ i = i' := by
  have h₁ := h.reg w i id hid
  have h₂ := h.reg w' i' id hid'
  exact ⟨Option.some.inj (h₁.wheel.symm.trans h₂.wheel), h₁.slot.symm.trans h₂.slot⟩

/-- The slots do not see the timers that do not wait. -/
theorem Slots.congr_timers (h : Slots P hot M) {M' : WheelMgr} (hslot : M'.slot = M.slot)
    (hcur : M'.curWheel = M.curWheel) (htick : M'.tick = M.tick)
    (htimers : ∀ id, Pending hot M id → M'.timers id = M.timers id) : Slots P hot M' := by
  obtain ⟨slot, cur, tick, timers, next, log⟩ := M'
  obtain rfl : slot = M.slot := hslot
  obtain rfl : cur = M.curWheel := hcur
  obtain rfl : tick = M.tick := htick
  exact
    { cursor := h.cursor
      front := h.front
      bound := h.bound
      nodup := h.nodup
      reg := fun w i id hid => by
        rw [htimers id ⟨w, i, hid⟩]
        exact h.reg w i id hid
      turn := fun hh w i l₁ id l₂ hl hdue => by
        have hid : Pending hot M id :=
          ⟨w, i, by rw [show pendingAt hot M w i = _ from hl]; simp⟩
        rw [due, htimers id hid] at hdue
        rw [htimers id hid]
        exact h.turn hh w i l₁ id l₂ hl hdue
      index := fun hb => by
        refine ⟨(h.index hb).1, fun w i p id hid => ?_⟩
        rw [htimers id ⟨w, i, List.mem_of_getElem? hid⟩]
        exact (h.index hb).2 w i p id hid }

theorem Inv.pending_lt (h : Inv P hot hand M) {id : TimerId} (hp : Pending hot M id) :
    id < M.next := by
  obtain ⟨w, i, hid⟩ := hp
  by_contra hlt
  have hw := (h.slots.reg w i id hid).wheel
  rw [(h.book.known id (not_lt.mp hlt)).1] at hw
  cases hw

/-- A timer that was added has a number. -/
theorem Inv.added_lt (h : Inv P hot hand M) {id : TimerId} {T : ℕ} {t : ℤ}
    (hadd : .added id T t ∈ M.log) : id < M.next := by
  by_contra hlt
  exact (h.book.known id (not_lt.mp hlt)).2.2.2 T t hadd

/-! ## A timer is made -/

/-- **A new timer is in hand**, to be called when its timeout has passed. -/
theorem Inv.newTimer (h : Inv P hot none M) {func : Script} (hfunc : P.script func) (t : ℤ) :
    Inv P hot (some (M.next, fire M.tick t)) (M.newTimer func t) := by
  have hfresh : ¬ Pending hot M M.next := fun hp => absurd (h.pending_lt hp) (lt_irrefl _)
  obtain ⟨-, hcalls, hrem, hadd⟩ := h.book.known M.next le_rfl
  have hold : ∀ id, id ≠ M.next → (M.newTimer func t).timers id = M.timers id :=
    fun id hid => M.timers_newTimer_of_ne hid func t
  have hcall : ∀ id, calls id (M.newTimer func t).log = calls id M.log :=
    fun id => (calls_append id _ _).trans (List.append_nil _)
  have hremoved : ∀ id, .removed id ∈ (M.newTimer func t).log ↔ .removed id ∈ M.log := by
    intro id
    simp [WheelMgr.newTimer]
  constructor
  · exact h.slots.congr_timers rfl rfl rfl fun id hp => hold id (h.pending_lt hp).ne
  · constructor
    · intro id hid
      have hid' : M.next + 1 ≤ id := hid
      obtain ⟨h₁, h₂, h₃, h₄⟩ := h.book.known id (Nat.le_of_succ_le hid')
      refine ⟨?_, (hcall id).trans h₂, (hremoved id).not.mpr h₃, fun T t' hmem => ?_⟩
      · rw [hold id (Nat.ne_of_gt hid')]
        exact h₁
      · rcases List.mem_append.mp hmem with hm | hm
        · exact h₄ T t' hm
        · cases List.mem_singleton.mp hm
          exact Nat.lt_irrefl _ hid'
    · intro id hp hne
      have hid : id ≠ M.next := by
        rintro rfl
        exact hne _ rfl
      rw [hold id hid]
      exact h.book.idle id hp nofun
    · intro id d hd
      cases hd
      exact ⟨hfresh, Nat.lt_succ_self _⟩
    · intro id
      by_cases hid : id = M.next
      · rw [hid, timers_newTimer_self]
        exact hfunc
      · rw [hold id hid]
        exact h.book.script id
    · intro id T t' hmem hle
      rcases List.mem_append.mp hmem with hm | hm
      · have hne : id ≠ M.next := fun he => hadd T t' (he ▸ hm)
        refine (h.book.fate id T t' hm hle).frame (hcall id) (hremoved id) le_rfl Iff.rfl
          (fun _ => ?_) (fun d' => ⟨fun hd => ?_, fun hd => ?_⟩)
        · rw [due, hold id hne]
          rfl
        · cases hd
          exact absurd rfl hne
        · cases hd
      · cases List.mem_singleton.mp hm
        exact .inl ⟨(hcall _).trans hcalls, (hremoved _).not.mpr hrem, .inr rfl⟩
    · intro l₁ id T t' l₂ hl ht'
      rcases append_singleton_eq hl with ⟨rfl, he⟩ | ⟨l₃, rfl, hl'⟩
      · cases he
        refine .inr ⟨rfl, ?_⟩
        rw [fire, if_pos ht']
        rfl
      · rcases h.book.prompt l₁ id T t' l₃ hl' ht' with ⟨l₄, rfl⟩ | ⟨-, hd⟩
        · exact .inl ⟨l₄ ++ _, rfl⟩
        · cases hd
    · intro e hmem
      rcases List.mem_append.mp hmem with hm | hm
      · exact h.book.noError e hm
      · cases List.mem_singleton.mp hm
    · intro hf id
      exact (hremoved id).not.mpr (h.book.kept hf id)

/-! ## A timer in hand -/

/-- The fields of a timer in hand are nobody else's. -/
theorem Inv.updHand {x : TimerId} {d : ℤ} (h : Inv P hot (some (x, d)) M)
    {f : TvecBase → TvecBase} (hfunc : (f (M.timers x)).func = (M.timers x).func) :
    Inv P hot (some (x, d)) (M.updTimer x f) := by
  obtain ⟨hx, hlt⟩ := h.book.held x d rfl
  have hold : ∀ id, id ≠ x → (M.updTimer x f).timers id = M.timers id :=
    fun id hid => M.timers_updTimer_of_ne hid f
  have hpend : ∀ id, Pending hot M id → (M.updTimer x f).timers id = M.timers id :=
    fun id hp => hold id fun he => hx (he ▸ hp)
  constructor
  · exact h.slots.congr_timers rfl rfl rfl hpend
  · constructor
    · intro id hid
      have hid' : M.next ≤ id := hid
      rw [hold id (Nat.ne_of_gt (lt_of_lt_of_le hlt hid'))]
      exact h.book.known id hid
    · intro id hp hne
      have hid : id ≠ x := by
        rintro rfl
        exact hne _ rfl
      rw [hold id hid]
      exact h.book.idle id hp hne
    · exact h.book.held
    · intro id
      by_cases hid : id = x
      · rw [hid, timers_updTimer_self, hfunc]
        exact h.book.script x
      · rw [hold id hid]
        exact h.book.script id
    · intro id T t hmem hle
      have hfate : Fate hot (some (x, d)) M id (fire T t) := h.book.fate id T t hmem hle
      refine Fate.frame (M := M) rfl Iff.rfl le_rfl Iff.rfl (fun hp => ?_) (fun _ => Iff.rfl) hfate
      rw [due, hpend id hp]
      rfl
    · exact h.book.prompt
    · exact h.book.noError
    · exact h.book.kept

/-- **A timer in hand whose tick has come is called**, and is done with. -/
theorem Inv.called {x : TimerId} (h : Inv P hot (some (x, M.tick)) M) :
    Inv P hot none ((M.updTimer x fun y => { y with run := true }).emit (.called x M.tick)) := by
  set M₁ := M.updTimer x fun y => { y with run := true } with hM₁
  have h₁ : Inv P hot (some (x, M.tick)) M₁ := h.updHand rfl
  have hrun : (M₁.timers x).run = true := by
    rw [hM₁, timers_updTimer_self]
  obtain ⟨hx, hlt⟩ := h₁.book.held x _ rfl
  have hcall : ∀ id, id ≠ x → calls id (M₁.log ++ [.called x M.tick]) = calls id M₁.log := by
    intro id hid
    rw [calls_append, calls_called_ne hid.symm, List.append_nil]
  have hremoved : ∀ id, .removed id ∈ M₁.log ++ [.called x M.tick] ↔ .removed id ∈ M₁.log := by
    intro id
    simp
  constructor
  · exact h₁.slots.congr_timers rfl rfl rfl fun _ _ => rfl
  · constructor
    · intro id hid
      have hid' : M₁.next ≤ id := hid
      obtain ⟨k₁, k₂, k₃, k₄⟩ := h₁.book.known id hid
      refine ⟨k₁, (hcall id (Nat.ne_of_gt (lt_of_lt_of_le hlt hid'))).trans k₂,
        (hremoved id).not.mpr k₃, fun T t hmem => ?_⟩
      rcases List.mem_append.mp hmem with hm | hm
      · exact k₄ T t hm
      · cases List.mem_singleton.mp hm
    · intro id hp _
      by_cases hid : id = x
      · rw [hid]
        exact .inl hrun
      · refine h₁.book.idle id hp fun d' hd' => hid ?_
        cases hd'
        rfl
    · intro id d hd
      cases hd
    · exact h₁.book.script
    · intro id T t hmem hle
      have hm : .added id T t ∈ M₁.log := by
        rcases List.mem_append.mp hmem with hm | hm
        · exact hm
        · cases List.mem_singleton.mp hm
      by_cases hid : id = x
      · subst hid
        rcases h₁.book.fate id T t hm hle with ⟨k₁, k₂, hw | hw⟩ | ⟨-, -, -, -, k⟩ | ⟨-, -, -, k⟩
        · exact absurd hw.1 hx
        · have hd : fire T t = M.tick := (congrArg Prod.snd (Option.some.inj hw)).symm
          refine .inr (.inl ⟨?_, by rw [hd]; exact le_rfl, (hremoved id).not.mpr k₂, hx, nofun⟩)
          show calls id (M₁.log ++ [.called id M.tick]) = _
          rw [calls_append, k₁, calls_called_self, hd, List.nil_append]
        · exact absurd rfl (k _)
        · exact absurd rfl (k _)
      · refine (h₁.book.fate id T t hm hle).frame (hcall id hid) (hremoved id) le_rfl Iff.rfl
          (fun _ => rfl) (fun d' => ⟨fun hd => ?_, fun hd => ?_⟩)
        · cases hd
        · cases hd
          exact absurd rfl hid
    · intro l₁ id T t l₂ hl ht
      rcases append_singleton_eq hl with ⟨-, he⟩ | ⟨l₃, rfl, hl'⟩
      · cases he
      · rcases h₁.book.prompt l₁ id T t l₃ hl' ht with ⟨l₄, rfl⟩ | ⟨rfl, hd⟩
        · exact .inl ⟨l₄ ++ _, rfl⟩
        · -- the timer in hand was made just now, at this tick
          cases hd
          refine .inl ⟨[], ?_⟩
          have hm : .added x T t ∈ M₁.log := by
            rw [hl']
            simp
          rcases h₁.book.fate x T t hm (ht.trans (by decide))
            with ⟨-, -, hw | hw⟩ | ⟨-, -, -, -, k⟩ | ⟨-, -, -, k⟩
          · exact absurd hw.1 hx
          · have hd : (M.tick : ℤ) = fire T t := congrArg Prod.snd (Option.some.inj hw)
            rw [fire, if_pos ht] at hd
            rw [List.nil_append, Int.ofNat.inj hd]
          · exact absurd rfl (k _)
          · exact absurd rfl (k _)
    · intro e hmem
      rcases List.mem_append.mp hmem with hm | hm
      · exact h₁.book.noError e hm
      · cases List.mem_singleton.mp hm
    · intro hf id
      exact (hremoved id).not.mpr (h₁.book.kept hf id)

/-! ## A timer goes into a slot -/

theorem slot_setSlot_same (M : WheelMgr) (w : WheelId) (i : ℕ) (l : List TimerId) :
    (M.setSlot w i l).slot w i = l := by
  rw [setSlot]
  dsimp only
  rw [Function.update_self, Function.update_self]

theorem slot_setSlot_ne (M : WheelMgr) {w w' : WheelId} {i i' : ℕ} (l : List TimerId)
    (h : ¬ (w' = w ∧ i' = i)) : (M.setSlot w i l).slot w' i' = M.slot w' i' := by
  rw [setSlot]
  dsimp only
  by_cases hw : w' = w
  · subst hw
    rw [Function.update_self, Function.update_of_ne fun hi => h ⟨rfl, hi⟩]
  · rw [Function.update_of_ne hw]

/-- A slot that is not the one worked off does not change it. -/
theorem slot_setSlot_cold {hot : Option Turn} {t : Turn} {M : WheelMgr} {w : WheelId} {i : ℕ}
    (l : List TimerId) (hcold : ∀ t, hot = some t → ¬ (w = t.wheel ∧ i = M.curWheel w))
    (ht : hot = some t) :
    (M.setSlot w i l).slot t.wheel (M.curWheel t.wheel)
      = M.slot t.wheel (M.curWheel t.wheel) := by
  refine slot_setSlot_ne M l fun hc => hcold t ht ⟨hc.1.symm, ?_⟩
  rw [← hc.1]
  exact hc.2.symm

theorem pendingAt_turn {t : Turn} {M : WheelMgr} {w : WheelId} {i : ℕ}
    (hw : w = t.wheel ∧ i = M.curWheel w) :
    pendingAt (some t) M w i = t.todo ++ (M.slot w i).drop t.front.length := if_pos hw

theorem pendingAt_other {hot : Option Turn} {M : WheelMgr} {w : WheelId} {i : ℕ}
    (hw : ∀ t, hot = some t → ¬ (w = t.wheel ∧ i = M.curWheel w)) :
    pendingAt hot M w i = M.slot w i := by
  cases hot with
  | none => rfl
  | some t => exact if_neg (hw t rfl)

theorem pendingAt_setSlot_ne (hot : Option Turn) (M : WheelMgr) {w w' : WheelId} {i i' : ℕ}
    (l : List TimerId) (h : ¬ (w' = w ∧ i' = i)) :
    pendingAt hot (M.setSlot w i l) w' i' = pendingAt hot M w' i' := by
  unfold pendingAt
  rw [slot_setSlot_ne M l h]
  rfl

/-- A timer put at the end of a slot waits there after the others. -/
theorem Slots.pendingAt_snoc (h : Slots P hot M) (w : WheelId) (i : ℕ) (x : TimerId) :
    pendingAt hot (M.setSlot w i (M.slot w i ++ [x])) w i = pendingAt hot M w i ++ [x] := by
  by_cases hw : ∃ t, hot = some t ∧ w = t.wheel ∧ i = M.curWheel w
  · obtain ⟨t, rfl, hw⟩ := hw
    have hlen : t.front.length ≤ (M.slot w i).length := by
      have hfront := (h.front t rfl).length_le
      rwa [← hw.1, ← hw.2] at hfront
    rw [pendingAt_turn hw, pendingAt_turn (M := M.setSlot w i _) hw, slot_setSlot_same,
      List.drop_append_of_le_length hlen, List.append_assoc]
  · have hcold : ∀ t, hot = some t → ¬ (w = t.wheel ∧ i = M.curWheel w) :=
      fun t ht hc => hw ⟨t, ht, hc⟩
    rw [pendingAt_other hcold, pendingAt_other (M := M.setSlot w i _) hcold, slot_setSlot_same]

/-- Where a timer put into a slot makes the others wait: nowhere else. -/
theorem Slots.pending_snoc (h : Slots P hot M) (w : WheelId) (i : ℕ) (x id : TimerId) :
    Pending hot (M.setSlot w i (M.slot w i ++ [x])) id ↔ Pending hot M id ∨ id = x := by
  constructor
  · rintro ⟨w', i', hid⟩
    by_cases hwi : w' = w ∧ i' = i
    · rw [hwi.1, hwi.2, h.pendingAt_snoc w i x] at hid
      rcases List.mem_append.mp hid with hid | hid
      · exact .inl ⟨w, i, hid⟩
      · exact .inr (List.mem_singleton.mp hid)
    · rw [pendingAt_setSlot_ne hot M _ hwi] at hid
      exact .inl ⟨w', i', hid⟩
  · rintro (⟨w', i', hid⟩ | rfl)
    · refine ⟨w', i', ?_⟩
      by_cases hwi : w' = w ∧ i' = i
      · rw [hwi.1, hwi.2] at hid ⊢
        rw [h.pendingAt_snoc w i x]
        exact List.mem_append_left _ hid
      · rwa [pendingAt_setSlot_ne hot M _ hwi]
    · refine ⟨w, i, ?_⟩
      rw [h.pendingAt_snoc w i id]
      exact List.mem_append_right _ List.mem_cons_self

/-- **A timer that does not wait is put into a slot.** It must be registered
there for a slot that comes up later, and where positions matter it is told
its own, which is possible only outside the slot that is worked off. -/
theorem Slots.snoc (h : Slots P hot M) {w : WheelId} {i : ℕ} {x : TimerId}
    (hi : 1 ≤ i ∧ i ≤ w.count) (hx : ¬ Pending hot M x)
    (hreg : Registered (M.timers x) w i (M.tick + compOf M.curWheel w i))
    (hlate : M.tick < M.due x)
    (hidx : P.index = true → (∀ t, hot = some t → ¬ (w = t.wheel ∧ i = M.curWheel w))
      ∧ (M.timers x).regIndex = (M.slot w i).length + 1) :
    Slots P hot (M.setSlot w i (M.slot w i ++ [x])) := by
  have harr : arrival hot M w i x = M.tick + compOf M.curWheel w i := by
    unfold arrival
    cases hot with
    | none => rfl
    | some t =>
      refine if_neg fun hc => hx ⟨w, i, ?_⟩
      rw [pendingAt_turn ⟨hc.1, hc.2.1⟩]
      exact List.mem_append_left _ hc.2.2
  constructor
  · exact h.cursor
  · intro t ht
    show t.front <+: (M.setSlot w i _).slot t.wheel (M.curWheel t.wheel)
    by_cases hwi : t.wheel = w ∧ M.curWheel t.wheel = i
    · rw [hwi.2, hwi.1, slot_setSlot_same, ← hwi.2, ← hwi.1]
      exact (h.front t ht).trans (List.prefix_append _ _)
    · rw [slot_setSlot_ne M _ hwi]
      exact h.front t ht
  · intro w' i' id hid
    by_cases hwi : w' = w ∧ i' = i
    · rw [hwi.1, hwi.2]
      exact hi
    · rw [slot_setSlot_ne M _ hwi] at hid
      exact h.bound w' i' id hid
  · intro w' i'
    by_cases hwi : w' = w ∧ i' = i
    · rw [hwi.1, hwi.2, h.pendingAt_snoc w i x]
      refine List.nodup_append.mpr ⟨h.nodup w i, List.nodup_singleton x, fun a ha b hb => ?_⟩
      rw [List.mem_singleton.mp hb]
      rintro rfl
      exact hx ⟨w, i, ha⟩
    · rw [pendingAt_setSlot_ne hot M _ hwi]
      exact h.nodup w' i'
  · intro w' i' id hid
    by_cases hwi : w' = w ∧ i' = i
    · rw [hwi.1, hwi.2] at hid ⊢
      rw [h.pendingAt_snoc w i x] at hid
      rcases List.mem_append.mp hid with hid | hid
      · exact h.reg w i id hid
      · rw [List.mem_singleton.mp hid]
        exact harr ▸ hreg
    · rw [pendingAt_setSlot_ne hot M _ hwi] at hid
      exact h.reg w' i' id hid
  · intro hh w' i' l₁ id l₂ hl hdue
    by_cases hwi : w' = w ∧ i' = i
    · rw [hwi.1, hwi.2] at hl
      rw [h.pendingAt_snoc w i x] at hl
      rcases append_singleton_eq hl with ⟨-, he⟩ | ⟨l₃, -, hl'⟩
      · rw [← he] at hdue
        exact absurd hdue hlate.ne'
      · rw [hwi.1]
        exact h.turn hh w i l₁ id l₃ hl' hdue
    · rw [pendingAt_setSlot_ne hot M _ hwi] at hl
      exact h.turn hh w' i' l₁ id l₂ hl hdue
  · intro hb
    obtain ⟨hcold, hreg'⟩ := hidx hb
    obtain ⟨hfront, hpos⟩ := h.index hb
    have hslot : pendingAt hot M w i = M.slot w i := pendingAt_other hcold
    refine ⟨fun t ht => ?_, fun w' i' p id hid => ?_⟩
    · exact (slot_setSlot_cold _ hcold ht).trans (hfront t ht)
    · by_cases hwi : w' = w ∧ i' = i
      · rw [hwi.1, hwi.2, h.pendingAt_snoc w i x] at hid
        rcases lt_trichotomy p (pendingAt hot M w i).length with hp | hp | hp
        · rw [List.getElem?_append_left hp] at hid
          exact hpos w i p id hid
        · rw [hp, List.getElem?_concat_length] at hid
          rw [← Option.some.inj hid, hp, hslot]
          exact hreg'
        · rw [List.getElem?_eq_none (by simp; omega)] at hid
          cases hid
      · rw [pendingAt_setSlot_ne hot M _ hwi] at hid
        exact hpos w' i' p id hid

/-- The timer in hand waits once it is put into a slot. -/
theorem Inv.book_snoc {x : TimerId} {d : ℤ} (h : Inv P hot (some (x, d)) M) (hdue : M.due x = d)
    (hlate : M.tick < d) (w : WheelId) (i : ℕ) :
    Book P hot none (M.setSlot w i (M.slot w i ++ [x])) := by
  obtain ⟨hpend, -⟩ := h.book.held x d rfl
  have hpiff : ∀ id, Pending hot (M.setSlot w i (M.slot w i ++ [x])) id
      ↔ Pending hot M id ∨ id = x := h.slots.pending_snoc w i x
  constructor
  · exact h.book.known
  · intro id hp _
    have hne : ¬ Pending hot M id ∧ id ≠ x := not_or.mp ((hpiff id).not.mp hp)
    refine h.book.idle id hne.1 fun d' hd => hne.2 ?_
    cases hd
    rfl
  · intro id d' hd
    cases hd
  · exact h.book.script
  · intro id T t hmem hle
    have hfate : Fate hot (some (x, d)) M id (fire T t) := h.book.fate id T t hmem hle
    by_cases hid : id = x
    · -- its call was due from the hand, and now is from the slot
      subst hid
      rcases hfate with ⟨k₁, k₂, hw | hw⟩ | ⟨-, -, -, -, k⟩ | ⟨-, -, -, k⟩
      · exact absurd hw.1 hpend
      · have hd : d = fire T t := congrArg Prod.snd (Option.some.inj hw)
        exact .inl ⟨k₁, k₂, .inl ⟨(hpiff id).mpr (.inr rfl), hdue.trans hd⟩⟩
      · exact absurd rfl (k _)
      · exact absurd rfl (k _)
    · refine Fate.frame (M := M) rfl Iff.rfl le_rfl ((hpiff id).trans (or_iff_left hid))
        (fun _ => rfl) (fun d' => ⟨fun hd => ?_, fun hd => ?_⟩) hfate
      · cases hd
      · cases hd
        exact absurd rfl hid
  · intro l₁ id T t l₂ hl ht₀
    rcases h.book.prompt l₁ id T t l₂ hl ht₀ with hc | ⟨-, hd⟩
    · exact .inl hc
    · have he : d = (M.tick : ℤ) := congrArg Prod.snd (Option.some.inj hd)
      omega
  · exact h.book.noError
  · exact h.book.kept

/-- **A timer in hand goes into the slot its timeout reaches**, and waits there. -/
theorem Inv.place {x : TimerId} {t : ℤ} (h : Inv P hot (some (x, M.tick + t)) M) (ht : 1 ≤ t)
    (ht' : t ≤ mon.range) (hx : (M.timers x).timeOut = t)
    (hidx : P.index = true → ∀ r, hot = some r →
      ¬ (holding t = r.wheel ∧ M.slotFor t = M.curWheel (holding t))) :
    Inv P hot none (M.place x (holding t) (M.slotFor t)) := by
  obtain ⟨hn, hn'⟩ := div_param_bounds ht ht'
  have hbound : 1 ≤ M.slotFor t ∧ M.slotFor t ≤ (holding t).count :=
    (M.slotAfter_spec (holding t) (h.slots.cursor.le_count _) hn hn').1
  obtain ⟨hearly, hsec, hlate⟩ := M.compOf_slotFor h.slots.cursor ht ht'
  unfold WheelMgr.place
  set w := holding t
  set i := M.slotFor t
  set f : TvecBase → TvecBase := fun y =>
    { y with
      run := false
      compTime := if w = .sec then y.compTime else compOf M.curWheel w i
      regWheel := some w
      regSlot := i
      regIndex := (M.slot w i).length + 1
      regTick := M.tick }
  have h₁ : Inv P hot (some (x, M.tick + t)) (M.updTimer x f) := h.updHand rfl
  obtain ⟨hpend, hlt⟩ := h₁.book.held x _ rfl
  have htimer : (M.updTimer x f).timers x = f (M.timers x) := M.timers_updTimer_self x f
  have hdue : (M.updTimer x f).due x = M.tick + t := by
    rw [due, htimer]
    show (M.tick : ℤ) + (M.timers x).timeOut = _
    rw [hx]
  have hreg : Registered ((M.updTimer x f).timers x) w i (M.tick + compOf M.curWheel w i) := by
    rw [htimer]
    refine ⟨rfl, rfl, rfl, ?_, ?_, ?_⟩
    · show (M.tick : ℤ) + (if w = sec then (M.timers x).timeOut
        else if w = sec then (M.timers x).compTime else compOf M.curWheel w i) = _
      by_cases hws : w = sec
      · rw [if_pos hws, hx, hws, hsec hws]
      · rw [if_neg hws, if_neg hws]
    · show _ ≤ (M.tick : ℤ) + (M.timers x).timeOut
      rw [hx]
      omega
    · show (M.tick : ℤ) + (M.timers x).timeOut < _
      rw [hx]
      omega
  have hslots : Slots P hot ((M.updTimer x f).setSlot w i (M.slot w i ++ [x])) := by
    refine h₁.slots.snoc hbound hpend hreg ?_ fun hb => ⟨hidx hb, ?_⟩
    · rw [hdue]
      show (M.tick : ℤ) < _
      omega
    · rw [htimer]
      rfl
  have hlater : (M.tick : ℤ) < M.tick + t := by omega
  exact ⟨hslots, h₁.book_snoc hdue hlater w i⟩

end Ops

end WheelMgr
