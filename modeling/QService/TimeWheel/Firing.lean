import QService.Runs
import QService.TimeWheel.Turns

/-!
# Timers are called on time

A run of the wheel is a list of calls of `addTimer`, `Remove` and `onTime`. If
the policy allows each of them, the invariant holds between them
(`Inv.of_reach`), and what it says of a timer is what its user sees: a timer
that was added is called at its tick and at no other, unless it was removed
before, and then it is not called (`Inv.calls_eq`).

For callbacks that only add timers nothing more is asked, whatever they add and
to whichever slot (`fires_on_time`).
-/

namespace Script

/-- The callback only adds timers, and so do theirs. -/
def AddOnly : Script → Prop
  | done => True
  | addTimer _ func rest => func.AddOnly ∧ rest.AddOnly
  | remove _ _ => False
  | cancel _ _ => False

end Script

namespace WheelMgr

open WheelId

variable {P : Policy} {M : WheelMgr}

/-! ## Runs that a policy allows -/

/-- The callbacks that are due at the next tick are allowed. -/
def Policy.Allows (P : Policy) (M : WheelMgr) : Prop :=
  ∀ w i l₁ id l₂, M.slot w i = l₁ ++ id :: l₂ → M.due id = M.tick + 1 →
    P.turn w l₁ (M.timers id).func

/-- The calls of the wheel between two ticks that a policy allows. -/
def Policy.Op (P : Policy) (M : WheelMgr) : Op → Prop
  | .addTimer _ func => P.script func
  | .remove id => P.index = true ∧ Pending none M id
  | .onTime => P.Allows M

/-- **A call that the policy allows keeps the invariant.** -/
theorem Inv.step (h : Inv P none none M) {op : Op} (hop : P.Op M op) :
    Inv P none none (M.step op) := by
  cases op with
  | addTimer t func =>
    obtain ⟨M', hadd, h'⟩ : Ends (Inv P none none) (M.addTimer func t) :=
      h.addWith (c := fun M' => M'.call M.next) hop (fun _ _ h₁ => h₁.call nofun) fun _ _ => nofun
    unfold WheelMgr.step
    dsimp only
    rcases hadd with hadd | hadd
    · rw [hadd]
      exact h'
    · rw [hadd]
      exact h'.emit_timeOut
  | remove id =>
    obtain ⟨M', hrem, h', -⟩ := h.remove hop.1 hop.2 nofun
    unfold WheelMgr.step
    dsimp only
    rw [hrem]
    exact h'
  | onTime =>
    obtain ⟨M', hrun, h'⟩ := h.onTime hop
    unfold WheelMgr.step
    dsimp only
    rw [hrun]
    exact h'

/-- **The invariant holds in every run that the policy allows.** -/
theorem Inv.of_reach {ok : WheelMgr → WheelMgr.Op → Prop}
    (hok : ∀ M op, Inv P none none M → ok M op → P.Op M op)
    (h : Reach WheelMgr.step ok WheelMgr.new M) : Inv P none none M :=
  h.invariant (Inv P none none) (Inv.new P) fun M op hM hop => hM.step (hok M op hM hop)

/-! ## What becomes of a timer -/

/-- Between two ticks, what waits is due later. -/
theorem Inv.tick_lt_due (h : Inv P none none M) {id : TimerId} (hp : Pending none M id) :
    M.tick < M.due id := by
  obtain ⟨w, i, hid⟩ := hp
  have hearly : (M.tick : ℤ) + compOf M.curWheel w i ≤ M.due id := (h.slots.reg w i id hid).early
  have hpos := compOf_pos h.slots.cursor w (h.slots.bound w i id hid).1
  omega

/-- **A timer is called at its tick and at no other**, unless it was removed. -/
theorem Inv.calls_eq (h : Inv P none none M) {id : TimerId} {T : ℕ} {t : ℤ}
    (hadd : .added id T t ∈ M.log) (ht : t ≤ mon.range) :
    calls id M.log
      = if .removed id ∉ M.log ∧ fire T t ≤ M.tick then [fire T t] else [] := by
  rcases h.book.fate id T t hadd ht with ⟨k₁, k₂, hw | hw⟩ | ⟨k₁, k₂, k₃, -⟩ | ⟨k₁, k₂, -⟩
  · have hlt := h.tick_lt_due hw.1
    rw [hw.2] at hlt
    rw [if_neg fun hc => absurd hc.2 (not_le.mpr hlt)]
    exact k₁
  · cases hw
  · rw [if_pos ⟨k₃, k₂⟩]
    exact k₁
  · rw [if_neg fun hc => hc.1 k₂]
    exact k₁

/-- Callbacks only add timers. -/
def adding : Policy where
  index := false
  script := Script.AddOnly
  turn := fun _ _ s => s.AddOnly
  script_done := trivial
  script_addTimer := fun h => h
  script_remove := fun h => h
  script_cancel := fun h => h.elim
  turn_addTimer := fun h _ => ⟨nofun, fun _ => h.1, h.2⟩
  turn_cancel := fun h => h.elim
  turn_sublist := fun _ h => h

/-- Timers are added, with callbacks that only add timers, and the clock ticks. -/
def AddOps (_ : WheelMgr) : Op → Prop
  | .addTimer _ func => func.AddOnly
  | .remove _ => False
  | .onTime => True

theorem inv_of_addOps (h : Reach WheelMgr.step AddOps new M) : Inv adding none none M := by
  refine Inv.of_reach (fun M op hM hop => ?_) h
  cases op with
  | addTimer t func => exact hop
  | remove id => exact hop.elim
  | onTime => exact fun w i l₁ id l₂ _ _ => hM.book.script id

/-- **Every timer is called exactly once, at its due tick.** In every run of `addTimer`,
between ticks and from callbacks, and `onTime`: the only error there can be is that
of a timeout longer than the wheel; a timer added at tick `T` with timeout `t` is
called when the tick has become `T + t`, and never else; a timer whose timeout is
not positive is called right after it was made, and never again. -/
theorem fires_on_time (h : Reach WheelMgr.step AddOps new M) :
    (∀ e, .error e ∈ M.log → e = .timeOut)
      ∧ (∃ M', M.onTime = .ok M')
      ∧ (∀ id (T : ℕ) (t : ℤ), .added id T t ∈ M.log → 1 ≤ t → t ≤ 12 * 30 * 86400 →
          calls id M.log = if T + t ≤ M.tick then [T + t] else [])
      ∧ ∀ l₁ id (T : ℕ) (t : ℤ) l₂, M.log = l₁ ++ .added id T t :: l₂ → t ≤ 0 →
          (∃ l₃, l₂ = .called id T :: l₃) ∧ calls id M.log = [(T : ℤ)] := by
  have hinv := inv_of_addOps h
  have hkept := hinv.book.kept rfl
  refine ⟨hinv.book.noError, ?_, fun id T t hadd ht ht' => ?_, fun l₁ id T t l₂ hl ht => ?_⟩
  · obtain ⟨M', hrun, -⟩ := hinv.onTime fun w i l₁ id l₂ _ _ => hinv.book.script id
    exact ⟨M', hrun⟩
  · have hfire : fire T t = T + t := if_neg (by omega)
    rw [hinv.calls_eq hadd ht', hfire]
    simp only [hkept id, not_false_eq_true, true_and]
  · have hnext : ∃ l₃, l₂ = .called id T :: l₃ := by
      rcases hinv.book.prompt l₁ id T t l₂ hl ht with hc | ⟨-, hd⟩
      · exact hc
      · cases hd
    refine ⟨hnext, ?_⟩
    have hadd : .added id T t ∈ M.log := by
      rw [hl]
      simp
    obtain ⟨l₃, rfl⟩ := hnext
    have hfire : fire T t = T := if_pos ht
    have hcalled : calls id M.log ≠ [] := by
      rw [hl, calls_append]
      simp [calls]
    rw [hinv.calls_eq hadd (ht.trans (by decide)), hfire] at hcalled ⊢
    split at hcalled
    · rw [if_pos ‹_›]
    · exact absurd rfl hcalled

/-- A timer whose callback adds a timer of 60 seconds, as `onLogLuaMemory` does, and
one whose timeout has passed. -/
def reRegister : List Op := [.addTimer 1 (.addTimer 60 .done .done), .addTimer 0 .done, .onTime]

theorem fires_on_time_reRegister :
    Reach WheelMgr.step AddOps new (reRegister.foldl WheelMgr.step new)
      ∧ calls 0 (reRegister.foldl WheelMgr.step new).log = [1] := by
  have hrun : Reach WheelMgr.step AddOps new (reRegister.foldl WheelMgr.step new) :=
    Reach.start.of_list reRegister ⟨⟨trivial, trivial⟩, trivial, trivial, trivial⟩
  refine ⟨hrun, ?_⟩
  exact (fires_on_time hrun).2.2.1 0 0 1 (by decide) (by decide) (by decide)

end WheelMgr
