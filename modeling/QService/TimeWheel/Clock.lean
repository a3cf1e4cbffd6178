import QService.TimeWheel.Model

/-!
# The cursors as a clock

The cursors of the five wheels count the ticks in mixed radix, and
`compTime cur w _ i` is the number of ticks until slot `i` of the wheel `w`
comes up. This module has the arithmetic of that: where `Add` puts a timer
(`slotAfter_spec`, `addWith_place`), that a tick brings every slot one tick
nearer (`compOf_advance`), and that a carry from one wheel to the next changes
no distance but that of the slot it makes current (`compOf_carry`).

Inside `onTime` one wheel is current: its slot is being run or spread, the
wheels below it stand at zero, and it may stand at its maximum before it is
reset. `Cursor` says where the cursors can be then and between two ticks.
-/

namespace WheelId

/-- The smaller wheels, largest first. -/
def below : WheelId → List WheelId
  | sec => []
  | min => [sec]
  | hor => [min, sec]
  | day => [hor, min, sec]
  | mon => [day, hor, min, sec]

/-- The next larger wheel. -/
def next : WheelId → Option WheelId
  | sec => some min
  | min => some hor
  | hor => some day
  | day => some mon
  | mon => none

/-- The smallest wheel that can hold a timeout. -/
def holding (t : ℤ) : WheelId :=
  if t ≤ sec.range then sec
  else if t ≤ min.range then min
  else if t ≤ hor.range then hor
  else if t ≤ day.range then day
  else mon

end WheelId

namespace WheelMgr

open WheelId

/-- What the wheels below `w` have gone of the current slot of `w`. -/
def lower (cur : WheelId → ℕ) (w : WheelId) : ℤ :=
  (w.below.map fun v => (cur v * v.param : ℤ)).sum

/-- The ticks until a slot comes up. -/
def compOf (cur : WheelId → ℕ) (w : WheelId) (iIndex : ℕ) : ℤ :=
  compTime cur w w.below iIndex

theorem compOf_eq (cur : WheelId → ℕ) (w : WheelId) (iIndex : ℕ) :
    compOf cur w iIndex = getCurCompTime w (cur w) iIndex * w.param - lower cur w := rfl

/-- Where the cursors can be: between two ticks, and while the slot of a wheel
is run or spread. -/
def Cursor : Option WheelId → (WheelId → ℕ) → Prop
  | none, cur => ∀ w, cur w < w.count
  | some w, cur => (∀ v ∈ w.below, cur v = 0) ∧ 1 ≤ cur w ∧ cur w ≤ w.count
      ∧ ∀ v, v ≠ w → cur v < v.count

theorem Cursor.le_count {hot : Option WheelId} {cur : WheelId → ℕ} (h : Cursor hot cur)
    (w : WheelId) : cur w ≤ w.count := by
  cases hot with
  | none => exact (h w).le
  | some v =>
    by_cases hv : w = v
    · rw [hv]
      exact h.2.2.1
    · exact (h.2.2.2 w hv).le

/-- Between two ticks the wheels below a wheel are inside its current slot. -/
theorem lower_lt {cur : WheelId → ℕ} (h : Cursor none cur) (w : WheelId) :
    0 ≤ lower cur w ∧ lower cur w < w.param := by
  have h₁ : cur sec < 60 := h sec
  have h₂ : cur min < 60 := h min
  have h₃ : cur hor < 24 := h hor
  have h₄ : cur day < 30 := h day
  cases w <;> simp [lower, below, param] <;> omega

/-- They may have gone all of it while a slot is run. -/
theorem lower_le {hot : Option WheelId} {cur : WheelId → ℕ} (h : Cursor hot cur)
    (w : WheelId) : 0 ≤ lower cur w ∧ lower cur w ≤ w.param := by
  cases hot with
  | none => exact ⟨(lower_lt h w).1, (lower_lt h w).2.le⟩
  | some v =>
    have h₁ : cur sec ≤ 60 := h.le_count sec
    have h₂ : cur min ≤ 60 := h.le_count min
    have h₃ : cur hor ≤ 24 := h.le_count hor
    have h₄ : cur day ≤ 30 := h.le_count day
    obtain ⟨hz, -, -, hlt⟩ := h
    have h₅ := hlt sec
    have h₆ := hlt min
    have h₇ := hlt hor
    have h₈ := hlt day
    cases v <;> simp [below, count] at hz h₅ h₆ h₇ h₈ <;>
      cases w <;> simp [lower, below, param] <;> omega

/-- A slot of a wheel is at least one slot away. -/
theorem one_le_getCurCompTime {w : WheelId} {cur iIndex : ℕ} (hcur : cur ≤ w.count)
    (hi : 1 ≤ iIndex) : 1 ≤ getCurCompTime w cur iIndex := by
  unfold getCurCompTime
  split <;> omega

/-- Between two ticks every slot is still to come. -/
theorem compOf_pos {cur : WheelId → ℕ} (h : Cursor none cur) (w : WheelId) {iIndex : ℕ}
    (hi : 1 ≤ iIndex) : 0 < compOf cur w iIndex := by
  have hs := one_le_getCurCompTime (h w).le hi
  have hl := (lower_lt h w).2
  have hp : (0 : ℤ) ≤ w.param := Int.natCast_nonneg _
  rw [compOf_eq]
  nlinarith

/-! ## Where a timer goes -/

/-- The slot `n` after the cursor, without the remainder. -/
theorem slotAfter_eq (M : WheelMgr) (w : WheelId) {n : ℤ} (hcur : M.curWheel w ≤ w.count)
    (hn : 1 ≤ n) (hn' : n ≤ w.count) :
    (M.slotAfter w n : ℤ)
      = if n + M.curWheel w ≤ w.count then n + M.curWheel w
        else n + M.curWheel w - w.count := by
  have hmod : (n + M.curWheel w - 1) % w.count
      = if n + M.curWheel w ≤ w.count then n + M.curWheel w - 1
        else n + M.curWheel w - 1 - w.count := by
    split
    · exact Int.emod_eq_of_lt (by omega) (by omega)
    · rw [← Int.sub_emod_right]
      exact Int.emod_eq_of_lt (by omega) (by omega)
  unfold slotAfter
  rw [hmod]
  split <;> omega

/-- **The slot `n` after the cursor**: it is one of the wheel's, it is `n` slots
away, and it is the current one only after a full turn. -/
theorem slotAfter_spec (M : WheelMgr) (w : WheelId) {n : ℤ} (hcur : M.curWheel w ≤ w.count)
    (hn : 1 ≤ n) (hn' : n ≤ w.count) :
    (1 ≤ M.slotAfter w n ∧ M.slotAfter w n ≤ w.count)
      ∧ getCurCompTime w (M.curWheel w) (M.slotAfter w n) = n
      ∧ (M.slotAfter w n = M.curWheel w → n = w.count) := by
  have h := M.slotAfter_eq w hcur hn hn'
  unfold getCurCompTime
  split at h
  · refine ⟨by omega, ?_, by omega⟩
    rw [if_pos (by omega)]
    omega
  · refine ⟨by omega, ?_, by omega⟩
    rw [if_neg (by omega)]
    omega

/-- Register a timer in a slot: what `Add` does to the wheel. -/
def place (M : WheelMgr) (id : TimerId) (w : WheelId) (iIndex : ℕ) : WheelMgr :=
  (M.updTimer id fun x =>
    { x with
      run := false
      compTime := if w = .sec then x.compTime else compOf M.curWheel w iIndex
      regWheel := some w
      regSlot := iIndex
      regIndex := (M.slot w iIndex).length + 1
      regTick := M.tick }).setSlot w iIndex (M.slot w iIndex ++ [id])

theorem updTimer_updTimer (M : WheelMgr) (id : TimerId) (f g : TvecBase → TvecBase) :
    (M.updTimer id f).updTimer id g = M.updTimer id fun x => g (f x) := by
  unfold updTimer
  dsimp only
  rw [Function.update_self, Function.update_idem]

/-- The slot in which `Add` puts a timer. -/
def slotFor (M : WheelMgr) (t : ℤ) : ℕ := M.slotAfter (holding t) (t / (holding t).param)

theorem get_of_mem {w : WheelId} {iIndex : ℕ} (M : WheelMgr) (h : 1 ≤ iIndex ∧ iIndex ≤ w.count) :
    M.get w iIndex = some (M.slot w iIndex) := if_pos h

theorem register_place (M : WheelMgr) (id : TimerId) (w : WheelId) {iIndex : ℕ}
    (h : 1 ≤ iIndex ∧ iIndex ≤ w.count) (comp : TvecBase → ℤ)
    (hcomp : ∀ x, comp x = if w = .sec then x.compTime else compOf M.curWheel w iIndex) :
    (((M.updTimer id fun x => { x with run := false, compTime := comp x }).setRegInfo id w
        iIndex).bind fun M => M.wheelAdd w iIndex id)
      = .ok (M.place id w iIndex) := by
  unfold setRegInfo
  dsimp only
  rw [updTimer_updTimer, get_of_mem _ h]
  dsimp only
  rw [updTimer_updTimer, Outcome.ok_bind, wheelAdd, get_of_mem _ h]
  unfold place updTimer
  dsimp only
  rw [hcomp]

/-- A timeout reaches at least one slot, and at most a full turn, on the wheel
that holds it. -/
theorem div_param_bounds {t : ℤ} (ht : 1 ≤ t) (ht' : t ≤ mon.range) :
    1 ≤ t / (holding t).param ∧ t / (holding t).param ≤ (holding t).count := by
  simp only [range, count, param] at ht'
  unfold holding range
  split_ifs <;> simp only [count, param] at * <;> omega

/-- **`Add` of a timeout that is positive and not too long registers the timer**
in the slot it reaches on the smallest wheel that can hold it. -/
theorem addWith_place (call : WheelMgr → WheelMgr) (M : WheelMgr) (id : TimerId) {t : ℤ}
    (hcur : ∀ w, M.curWheel w ≤ w.count) (ht : 1 ≤ t) (ht' : t ≤ mon.range) :
    addWith call M id t = .ok (M.place id (holding t) (M.slotFor t)) := by
  obtain ⟨hn, hn'⟩ := div_param_bounds ht ht'
  have hslot := (M.slotAfter_spec (holding t) (hcur _) hn hn').1
  unfold slotFor
  unfold addWith
  rw [if_neg (not_not.mpr ht')]
  dsimp only
  rw [if_neg (by omega)]
  unfold holding at hslot hn hn' ⊢
  split_ifs at hslot hn hn' ⊢ with h₁ h₂ h₃ h₄
  · rw [show ((sec.param : ℕ) : ℤ) = 1 from rfl, Int.ediv_one] at hslot ⊢
    exact M.register_place id sec hslot TvecBase.compTime fun x => (if_pos rfl).symm
  · unfold addWheel
    dsimp only
    rw [updTimer_updTimer]
    exact M.register_place id min hslot _ fun x => (if_neg nofun).symm
  · unfold addWheel
    dsimp only
    rw [updTimer_updTimer]
    exact M.register_place id hor hslot _ fun x => (if_neg nofun).symm
  · unfold addWheel
    dsimp only
    rw [updTimer_updTimer]
    exact M.register_place id day hslot _ fun x => (if_neg nofun).symm
  · unfold addWheel
    dsimp only
    rw [updTimer_updTimer]
    exact M.register_place id mon hslot _ fun x => (if_neg nofun).symm

/-! ## How far a registered timer is from its slot -/

/-- The slot of a timeout comes up when the whole slots of it have gone, less what the
smaller wheels have gone of the current one. -/
theorem compOf_slotFor_eq (M : WheelMgr) {hot : Option WheelId} (h : Cursor hot M.curWheel)
    {t : ℤ} (ht : 1 ≤ t) (ht' : t ≤ mon.range) :
    compOf M.curWheel (holding t) (M.slotFor t)
      = t / (holding t).param * (holding t).param - lower M.curWheel (holding t) := by
  obtain ⟨hn, hn'⟩ := div_param_bounds ht ht'
  have hsteps := (M.slotAfter_spec (holding t) (h.le_count _) hn hn').2.1
  rw [compOf_eq, slotFor, hsteps]

/-- **The slot of a timeout comes up no later than the timeout**, by less than two
slots, and on the second wheel exactly then. -/
theorem compOf_slotFor (M : WheelMgr) {hot : Option WheelId} (h : Cursor hot M.curWheel)
    {t : ℤ} (ht : 1 ≤ t) (ht' : t ≤ mon.range) :
    compOf M.curWheel (holding t) (M.slotFor t) ≤ t
      ∧ (holding t = sec → compOf M.curWheel sec (M.slotFor t) = t)
      ∧ t < compOf M.curWheel (holding t) (M.slotFor t) + 2 * (holding t).param := by
  have hl := lower_le h (holding t)
  have hcomp := M.compOf_slotFor_eq h ht ht'
  have hpos : (0 : ℤ) < (holding t).param := by
    cases holding t <;> decide
  have hdiv := Int.mul_ediv_add_emod t (holding t).param
  have hmod := Int.emod_nonneg t hpos.ne'
  have hmod' := Int.emod_lt_of_pos t hpos
  rw [mul_comm] at hdiv
  refine ⟨by omega, fun hsec => ?_, by omega⟩
  rw [hsec] at hcomp
  rw [hcomp]
  simp [lower, below, param]

/-- A timeout goes into the current slot only if it is the range of the wheel. -/
theorem slotFor_eq_cur (M : WheelMgr) {hot : Option WheelId} (h : Cursor hot M.curWheel)
    {t : ℤ} (ht : 1 ≤ t) (ht' : t ≤ mon.range)
    (heq : M.slotFor t = M.curWheel (holding t)) : t = (holding t).range := by
  obtain ⟨hn, hn'⟩ := div_param_bounds ht ht'
  have hcount := (M.slotAfter_spec (holding t) (h.le_count _) hn hn').2.2 heq
  have hle : t ≤ (holding t).range := by
    unfold holding
    split_ifs <;> assumption
  have hpos : (0 : ℤ) < (holding t).param := by
    cases holding t <;> decide
  have hge := Int.ediv_mul_le t hpos.ne'
  rw [hcount] at hge
  refine le_antisymm hle ?_
  rw [range, Nat.cast_mul]
  exact hge

/-! ## Ticks and carries -/

/-- The cursors after a tick. -/
def advance (cur : WheelId → ℕ) : WheelId → ℕ := Function.update cur sec (cur sec + 1)

theorem cursor_advance {cur : WheelId → ℕ} (h : Cursor none cur) :
    Cursor (some sec) (advance cur) := by
  refine ⟨fun v hv => absurd hv List.not_mem_nil, ?_, ?_, fun v hv => ?_⟩
  · rw [advance, Function.update_self]
    exact Nat.succ_pos _
  · rw [advance, Function.update_self]
    exact h sec
  · rw [advance, Function.update_of_ne hv]
    exact h v

/-- The slot that a tick makes current was one tick away. -/
theorem compOf_next_sec (cur : WheelId → ℕ) : compOf cur sec (cur sec + 1) = 1 := by
  simp [compOf, compTime, getCurCompTime, below, param]

/-- **A tick brings every other slot one tick nearer.** -/
theorem compOf_advance {cur : WheelId → ℕ} (h : Cursor none cur) (w : WheelId) {iIndex : ℕ}
    (hne : ¬ (w = sec ∧ iIndex = cur sec + 1)) :
    1 + compOf (advance cur) w iIndex = compOf cur w iIndex := by
  have hsec : cur sec < 60 := h sec
  cases w <;>
    simp [compOf, compTime, getCurCompTime, advance, below, param, count] at hne ⊢ <;>
    omega

/-- The cursors after the wheel `v` is reset and `w` advances. -/
def carry (cur : WheelId → ℕ) (v w : WheelId) : WheelId → ℕ :=
  Function.update (Function.update cur v 0) w (cur w + 1)

theorem below_next {v w : WheelId} (hvw : v.next = some w) :
    w.below = v :: v.below ∧ w ∉ v.below ∧ w ≠ v := by
  cases v <;> cases hvw <;> decide

theorem cursor_carry {cur : WheelId → ℕ} {v w : WheelId} (hvw : v.next = some w)
    (h : Cursor (some v) cur) : Cursor (some w) (carry cur v w) := by
  obtain ⟨hz, -, -, hlt⟩ := h
  obtain ⟨hbelow, hw, hne⟩ := below_next hvw
  have hcur : carry cur v w w = cur w + 1 := Function.update_self _ _ _
  have hrest : ∀ u, u ≠ w → carry cur v w u = Function.update cur v 0 u :=
    fun u hu => Function.update_of_ne hu _ _
  refine ⟨fun u hu => ?_, by rw [hcur]; exact Nat.succ_pos _, by rw [hcur]; exact hlt w hne,
    fun u hu => ?_⟩
  · rw [hbelow] at hu
    rcases List.mem_cons.mp hu with rfl | hu
    · rw [hrest u hne.symm, Function.update_self]
    · have huw : u ≠ w := fun he => hw (he ▸ hu)
      rw [hrest u huw, Function.update_apply, hz u hu, ite_self]
  · rw [hrest u hu, Function.update_apply]
    split
    · cases u <;> decide
    · rename_i huv
      exact hlt u huv

/-- The slot that a carry makes current has come up. -/
theorem compOf_next {cur : WheelId → ℕ} {v w : WheelId} (hvw : v.next = some w)
    (h : Cursor (some v) cur) (hfull : v.count = cur v) : compOf cur w (cur w + 1) = 0 := by
  have hz := h.1
  cases v <;> cases hvw <;> simp [below, count] at hz hfull <;>
    simp [compOf, compTime, getCurCompTime, below, param] <;> omega

/-- **A carry changes the distance of no other slot.** -/
theorem compOf_carry {cur : WheelId → ℕ} {v w : WheelId} (hvw : v.next = some w)
    (h : Cursor (some v) cur) (hfull : v.count = cur v) (u : WheelId) {iIndex : ℕ}
    (hi : iIndex ≤ u.count) (hi' : 1 ≤ iIndex)
    (hne : ¬ (u = w ∧ iIndex = cur w + 1)) :
    compOf (carry cur v w) u iIndex = compOf cur u iIndex := by
  have hz := h.1
  have hlt := h.2.2.2 w
  cases v <;> cases hvw <;> simp [below, count] at hz hfull hlt <;>
    cases u <;> simp [count] at hi hne <;>
    simp [compOf, compTime, getCurCompTime, carry, below, param, count,
      Function.update_apply] <;>
    omega

/-- A wheel that has not gone round stays where it is. -/
theorem cursor_stay {cur : WheelId → ℕ} {v : WheelId} (h : Cursor (some v) cur)
    (hfull : ¬ v.count = cur v) : Cursor none cur := by
  intro u
  by_cases hu : u = v
  · have hle := h.2.2.1
    rw [hu]
    omega
  · exact h.2.2.2 u hu

/-- The largest wheel is reset when it has gone round. -/
theorem cursor_reset {cur : WheelId → ℕ} (h : Cursor (some mon) cur) :
    Cursor none (Function.update cur mon 0) := by
  intro u
  by_cases hu : u = mon
  · rw [hu, Function.update_self]
    decide
  · rw [Function.update_of_ne hu]
    exact h.2.2.2 u hu

theorem compOf_reset {cur : WheelId → ℕ} (hfull : mon.count = cur mon) (u : WheelId)
    {iIndex : ℕ} (hi : iIndex ≤ u.count) (hi' : 1 ≤ iIndex) :
    compOf (Function.update cur mon 0) u iIndex = compOf cur u iIndex := by
  simp only [count] at hfull
  cases u <;> simp [count] at hi <;>
    simp [compOf, compTime, getCurCompTime, below, param, count, Function.update_apply]
  split_ifs <;> omega

end WheelMgr
