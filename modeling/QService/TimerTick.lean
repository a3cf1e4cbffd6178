import QService.Double
import Mathlib.Data.Nat.Count

/-!
# The tick of a second

The timer of the service sends an event every so many milliseconds. The events are
counted in an `unsigned int`, and at each of them `Lua_OnTimer` calls `onDelayEvent`
if the count times the period is a multiple of 1000: that is where a second is over.

A period that divides 1000 meets every multiple. Any other one meets only some of
them, and the seconds between are lost. And when the count wraps, the next tick
comes where 0 is, whatever the second has come to. So the ticks are right only as
long as no second is over at all, or for a period that divides 1000 and before
the wraps have added up to too much (`oneSecond_iff`).

An `unsigned int` has 32 bits. The interpreter is the Lua 5.2 of `QBase/lua5.2`: all its numbers
are IEEE doubles, `luai_nummul` is the product of two of them, and `luai_nummod` computes the
remainder as `a - floor(a / b) * b`. Each operation is rounded to a `double` on its own.
-/

namespace TimerTick

/-! ## The code -/

/-- What of the session manager the timer uses, and how often `onDelayEvent` was called. -/
structure Timer where
  uiTimer : UInt32
  uiCount : UInt32
  delayEvents : ℕ
  deriving DecidableEq, Repr

/-- `setTimer`, as the service is started. -/
def setTimer (uiMS : UInt32) : Timer := ⟨uiMS, 0, 0⟩

/-- `addCount`. -/
def addCount (T : Timer) : Timer := { T with uiCount := T.uiCount + 1 }

/-- The test of `Lua_OnTimer`. Lua's numbers are doubles. -/
def IsSecond (uiCount uiTimer : ℕ) : Prop :=
  0 = Double.fmod (Double.mul uiCount uiTimer) 1000

instance (uiCount uiTimer : ℕ) : Decidable (IsSecond uiCount uiTimer) :=
  inferInstanceAs (Decidable (0 = Double.fmod (Double.mul uiCount uiTimer) 1000))

/-- `Lua_OnTimer`. -/
def onTimer (T : Timer) : Timer :=
  if IsSecond T.uiCount.toNat T.uiTimer.toNat then { T with delayEvents := T.delayEvents + 1 }
  else T

/-- `onTimerRead`: an event is a byte that is 1. -/
def onTimerRead (T : Timer) (bytes : List UInt8) : Timer :=
  bytes.foldl (fun T cVal => if cVal = 1 then onTimer (addCount T) else T) T

/-! ## Counting -/

/-- **The state after `n` events.** -/
def After (uiMS : UInt32) (n : ℕ) (T : Timer) : Prop :=
  T.uiTimer = uiMS ∧ T.uiCount = UInt32.ofNat n
    ∧ T.delayEvents = Nat.count (fun i => IsSecond ((i + 1) % 2 ^ 32) uiMS.toNat) n

theorem after_setTimer (uiMS : UInt32) : After uiMS 0 (setTimer uiMS) :=
  ⟨rfl, rfl, (Nat.count_zero fun i => IsSecond ((i + 1) % 2 ^ 32) uiMS.toNat).symm⟩

/-- One event. -/
theorem After.event {uiMS : UInt32} {n : ℕ} {T : Timer} (h : After uiMS n T) :
    After uiMS (n + 1) (onTimer (addCount T)) := by
  obtain ⟨htimer, hcount, hdelay⟩ := h
  have hnext : T.uiCount + 1 = UInt32.ofNat (n + 1) := by
    rw [hcount, UInt32.ofNat_add]
    rfl
  have hnat : (T.uiCount + 1).toNat = (n + 1) % 2 ^ 32 := by
    rw [hnext, UInt32.toNat_ofNat']
  unfold onTimer addCount
  dsimp only
  rw [hnat, htimer]
  split
  · rename_i hsecond
    refine ⟨rfl, hnext, ?_⟩
    rw [Nat.count_succ, if_pos hsecond, ← hdelay]
  · rename_i hsecond
    refine ⟨rfl, hnext, ?_⟩
    rw [Nat.count_succ, if_neg hsecond, add_zero, ← hdelay]

theorem After.read {uiMS : UInt32} {n : ℕ} {T : Timer} (h : After uiMS n T)
    (bytes : List UInt8) : After uiMS (n + bytes.count 1) (onTimerRead T bytes) := by
  induction bytes generalizing n T with
  | nil => exact h
  | cons cVal bytes ih =>
    rw [List.count_cons]
    by_cases hval : cVal = 1
    · have hrest := ih h.event
      rw [hval, onTimerRead, List.foldl_cons, if_pos rfl]
      rwa [beq_self_eq_true, if_pos rfl, add_comm (bytes.count 1), ← add_assoc]
    · rw [onTimerRead, List.foldl_cons, if_neg hval, if_neg (by simpa using hval), add_zero]
      exact ih h

/-- **All the events of a run.** -/
theorem After.reads {uiMS : UInt32} {n : ℕ} {T : Timer} (h : After uiMS n T)
    (reads : List (List UInt8)) :
    After uiMS (n + reads.flatten.count 1) (reads.foldl onTimerRead T) := by
  induction reads generalizing n T with
  | nil => exact h
  | cons bytes reads ih =>
    rw [List.flatten_cons, List.count_append, ← add_assoc]
    exact ih (h.read bytes)

/-! ## Which events are seconds -/

/-- The test is exact while the product is an integer of a double. -/
theorem isSecond_iff {uiCount uiTimer : ℕ} (h : uiCount * uiTimer < 2 ^ 53) :
    IsSecond uiCount uiTimer ↔ 1000 ∣ uiCount * uiTimer := by
  have hmul : Double.mul uiCount uiTimer = (uiCount * uiTimer : ℕ) := by
    rw [Double.mul, ← Nat.cast_mul, Double.round_natCast h.le]
  have hmod : Double.fmod (uiCount * uiTimer : ℕ) 1000 = (uiCount * uiTimer % 1000 : ℕ) := by
    exact_mod_cast Double.fmod_natCast h (b := 1000) (by norm_num)
  rw [IsSecond, hmul, hmod, eq_comm, Nat.cast_eq_zero, Nat.dvd_iff_mod_eq_zero]

/-- A multiple of 1000 is a multiple of what the period leaves of it. -/
theorem thousand_dvd_mul_iff {g p u : ℕ} (hg : 0 < g) (hp : Nat.Coprime p u) (c : ℕ) :
    g * p ∣ c * (g * u) ↔ p ∣ c := by
  rw [mul_left_comm, Nat.mul_dvd_mul_iff_left hg, hp.dvd_mul_right]

/-- **How many multiples of `p` a count meets** that starts again at 0 after `W` steps. -/
theorem count_dvd_mod {p W : ℕ} (hW : 0 < W) (n : ℕ) :
    Nat.count (fun i => p ∣ (i + 1) % W) n = n / W * ((W - 1) / p + 1) + n % W / p := by
  induction n with
  | zero => simp
  | succ n ih =>
    rw [Nat.count_succ, ih]
    by_cases hwrap : n % W + 1 = W
    · -- the count is at 0 again, and 0 is a multiple
      have hmod : (n + 1) % W = 0 := by
        rw [← Nat.mod_add_mod, hwrap, Nat.mod_self]
      have hdiv : (n + 1) / W = n / W + 1 := by
        rw [Nat.succ_div, if_pos (Nat.dvd_of_mod_eq_zero hmod)]
      have hlast : n % W = W - 1 := by omega
      rw [hmod, if_pos (dvd_zero p), hdiv, hlast, Nat.zero_div]
      ring
    · have hlt := Nat.mod_lt n hW
      have hmod : (n + 1) % W = n % W + 1 := by
        rw [← Nat.mod_add_mod, Nat.mod_eq_of_lt (by omega)]
      have hdiv : (n + 1) / W = n / W := by
        rw [Nat.succ_div, if_neg, add_zero]
        intro hdvd
        rw [Nat.mod_eq_zero_of_dvd hdvd] at hmod
        omega
      rw [hmod, hdiv, Nat.succ_div, add_assoc]

/-- Two ways to say which events are seconds. -/
theorem count_congr {p q : ℕ → Prop} [DecidablePred p] [DecidablePred q] (h : ∀ i, p i ↔ q i)
    (n : ℕ) : Nat.count p n = Nat.count q n := by
  rw [Nat.count_eq_card_filter_range, Nat.count_eq_card_filter_range,
    Finset.filter_congr fun i _ => h i]

/-- The ticks of a period of at most a second. -/
theorem count_isSecond {g p u : ℕ} (hg : 0 < g) (hp : Nat.Coprime p u) (hgp : g * p = 1000)
    (hle : g * u ≤ 1000) (n : ℕ) :
    Nat.count (fun i => IsSecond ((i + 1) % 2 ^ 32) (g * u)) n
      = n / 2 ^ 32 * ((2 ^ 32 - 1) / p + 1) + n % 2 ^ 32 / p := by
  rw [← count_dvd_mod (by norm_num)]
  refine count_congr (fun i => ?_) n
  have hlt : (i + 1) % 2 ^ 32 < 2 ^ 32 := Nat.mod_lt _ (by norm_num)
  have hprod : (i + 1) % 2 ^ 32 * (g * u) < 2 ^ 53 := by
    calc (i + 1) % 2 ^ 32 * (g * u) ≤ 2 ^ 32 * 1000 := Nat.mul_le_mul hlt.le hle
      _ < 2 ^ 53 := by norm_num
  rw [isSecond_iff hprod, ← hgp, thousand_dvd_mul_iff hg hp]

/-! ## Which periods keep time -/

/-- **Where 1000 is a multiple of the period**, the ticks are right until the wraps have
added up to a tick too many. -/
theorem ticks_eq_iff_of_dvd {p W : ℕ} (hp : 0 < p) (hW : 0 < W) (n : ℕ) :
    n / W * ((W - 1) / p + 1) + n % W / p = n / p
      ↔ n / W * ((p - W % p) % p) ≤ n % W % p := by
  -- with the events that a round lacks it is a number of whole seconds
  have hround : W + (p - W % p) % p = p * ((W - 1) / p + 1) := by
    have hdiv := Nat.div_add_mod (W - 1) p
    have hlt := Nat.mod_lt (W - 1) hp
    have hmod : W % p = ((W - 1) % p + 1) % p := by
      conv_lhs => rw [show W = W - 1 + 1 by omega]
      rw [Nat.mod_add_mod]
    rw [hmod, mul_add_one]
    by_cases hlast : (W - 1) % p + 1 = p
    · rw [hlast, Nat.mod_self, Nat.sub_zero, Nat.mod_self]
      omega
    · rw [Nat.mod_eq_of_lt (show (W - 1) % p + 1 < p by omega), Nat.mod_eq_of_lt (by omega)]
      omega
  have hn : n + n / W * ((p - W % p) % p)
      = p * (n / W * ((W - 1) / p + 1) + n % W / p) + n % W % p := by
    have hr := Nat.div_add_mod (n % W) p
    calc n + n / W * ((p - W % p) % p)
        = n / W * (W + (p - W % p) % p) + n % W := by
          rw [mul_add]
          have := Nat.div_add_mod' n W
          omega
      _ = p * (n / W * ((W - 1) / p + 1)) + n % W := by rw [hround, mul_left_comm]
      _ = p * (n / W * ((W - 1) / p + 1) + n % W / p) + n % W % p := by
          rw [mul_add p, add_assoc, hr]
  have hs := Nat.mod_lt (n % W) hp
  constructor
  · intro heq
    rw [heq] at hn
    have hle := Nat.mul_div_le n p
    omega
  · intro hle
    refine (Nat.div_eq_of_lt_le ?_ ?_).symm
    · rw [mul_comm]
      omega
    · rw [Nat.succ_mul, mul_comm]
      omega

/-- **Where it is not**, they are right only before the first second is over. -/
theorem ticks_eq_iff_of_not_dvd {p u W : ℕ} (hu : 2 ≤ u) (hp : 0 < p) (hpW : 2 * p ≤ W) (n : ℕ) :
    n / W * ((W - 1) / p + 1) + n % W / p = n * u / p ↔ n * u < p := by
  constructor
  · contrapose!
    intro hge
    refine ne_of_lt (Nat.lt_of_succ_le ((Nat.le_div_iff_mul_le hp).mpr ?_))
    have hdiv := Nat.div_add_mod' n W
    have hq := Nat.mul_div_le (W - 1) p
    have hr := Nat.div_mul_le_self (n % W) p
    have htwo : n * 2 ≤ n * u := Nat.mul_le_mul_left n hu
    by_cases ha : n / W = 0
    · rw [ha, zero_mul, zero_add] at hdiv
      rw [ha, zero_mul, zero_add, hdiv, Nat.succ_mul]
      rw [hdiv] at hr
      by_cases hnp : n < p
      · rw [Nat.div_eq_of_lt hnp]
        omega
      · omega
    · -- a round has a tick more than it should, but twice as many are due
      have hpos : p ≤ n / W * p := Nat.le_mul_of_pos_left p (Nat.pos_of_ne_zero ha)
      calc (n / W * ((W - 1) / p + 1) + n % W / p).succ * p
          = n / W * (p * ((W - 1) / p)) + n / W * p + n % W / p * p + p := by
            rw [Nat.succ_mul]
            ring
        _ ≤ n / W * (W - 1) + n / W * p + n % W + p := by gcongr
        _ ≤ n / W * W + n / W * (2 * p) + n % W := by
          have := Nat.mul_le_mul_left (n / W) (Nat.sub_le W 1)
          rw [two_mul, mul_add]
          omega
        _ ≤ n / W * W + n / W * W + n % W := by gcongr
        _ ≤ n * u := by omega
  · intro hlt
    have hnp : n < p := (Nat.le_mul_of_pos_right n (by omega)).trans_lt hlt
    have hnW : n < W := by omega
    rw [Nat.div_eq_of_lt hnW, Nat.mod_eq_of_lt hnW, zero_mul, zero_add, Nat.div_eq_of_lt hnp,
      Nat.div_eq_of_lt hlt]

/-- The first event is a second only for a period of whole seconds. -/
theorem isSecond_one_iff {uiMS : ℕ} (hlt : uiMS < 2 ^ 32) :
    IsSecond ((0 + 1) % 2 ^ 32) uiMS ↔ 1000 ∣ uiMS := by
  have hone : (0 + 1) % 2 ^ 32 = 1 := rfl
  rw [hone, isSecond_iff (by omega), one_mul]

/-- **With a period of more than a second** there are always fewer events than seconds. -/
theorem ticks_lt_of_thousand_lt {uiMS n : ℕ} (hms : 1000 < uiMS) (hlt : uiMS < 2 ^ 32)
    (hn : n ≠ 0) :
    Nat.count (fun i => IsSecond ((i + 1) % 2 ^ 32) uiMS) n < n * uiMS / 1000 := by
  obtain ⟨m, rfl⟩ := Nat.exists_eq_succ_of_ne_zero hn
  by_cases hdvd : 1000 ∣ uiMS
  · obtain ⟨k, rfl⟩ := hdvd
    have hk : 2 ≤ k := by omega
    have hle : Nat.count (fun i => IsSecond ((i + 1) % 2 ^ 32) (1000 * k)) m.succ ≤ m.succ :=
      Nat.count_le _
    rw [mul_left_comm, Nat.mul_div_cancel_left _ (by norm_num)]
    have htwo : m.succ * 2 ≤ m.succ * k := Nat.mul_le_mul_left _ hk
    omega
  · -- the first event is no second, and every event should be
    have hfirst : Nat.count (fun i => IsSecond ((i + 1) % 2 ^ 32) uiMS) m.succ ≤ m := by
      rw [Nat.succ_eq_add_one, Nat.count_succ', if_neg fun h => hdvd ((isSecond_one_iff hlt).mp h),
        add_zero]
      exact Nat.count_le _
    have hle : m.succ ≤ m.succ * uiMS / 1000 := by
      rw [Nat.le_div_iff_mul_le (by norm_num)]
      exact Nat.mul_le_mul_left _ hms.le
    omega

/-- **The one-second tick keeps real time** as long as no second is over, and for a period
that divides 1000 as long as what is lost at the wraps of the counter is not more than the
last second has come to. Nothing is lost at a wrap if the events of a second are a power
of two. -/
theorem oneSecond_iff {uiMS : UInt32} (hpos : 1 ≤ uiMS.toNat) (reads : List (List UInt8)) :
    (reads.foldl onTimerRead (setTimer uiMS)).delayEvents
        = reads.flatten.count 1 * uiMS.toNat / 1000
      ↔ reads.flatten.count 1 * uiMS.toNat < 1000
        ∨ uiMS.toNat ∣ 1000
          ∧ reads.flatten.count 1 / 2 ^ 32
              * ((1000 / uiMS.toNat - 2 ^ 32 % (1000 / uiMS.toNat)) % (1000 / uiMS.toNat))
            ≤ reads.flatten.count 1 % 2 ^ 32 % (1000 / uiMS.toNat) := by
  have hafter := (After.reads (after_setTimer uiMS) reads).2.2
  have hms := uiMS.toNat_lt
  rw [zero_add] at hafter
  rw [hafter]
  generalize reads.flatten.count 1 = n
  generalize uiMS.toNat = ms at hpos hms ⊢
  by_cases hsecond : ms ≤ 1000
  · obtain ⟨g, p, u, hg, hcop, hp, rfl⟩ : ∃ g p u, 0 < g ∧ Nat.Coprime p u ∧ g * p = 1000
        ∧ ms = g * u := by
      obtain ⟨p, u, hcop, hp, hu⟩ := Nat.exists_coprime 1000 ms
      exact ⟨Nat.gcd 1000 ms, p, u, Nat.gcd_pos_of_pos_left _ (by norm_num), hcop,
        by rw [mul_comm, ← hp], by rw [mul_comm, ← hu]⟩
    have hppos : 0 < p := Nat.pos_of_ne_zero fun h => by simp [h] at hp
    have hquot : n * (g * u) / 1000 = n * u / p := by
      rw [← hp, mul_left_comm, Nat.mul_div_mul_left _ _ hg]
    have hshort : n * (g * u) < 1000 ↔ n * u < p := by
      rw [← hp, mul_left_comm, Nat.mul_lt_mul_left hg]
    rw [count_isSecond hg hcop hp hsecond, hquot, hshort]
    have hu : 1 ≤ u := Nat.pos_of_mul_pos_left hpos
    obtain hone | htwo := hu.eq_or_lt
    · -- the period divides 1000
      subst hone
      have hdiv : 1000 / (g * 1) = p := by
        rw [← hp, mul_one, Nat.mul_div_cancel_left _ hg]
      have hdvd : g * 1 ∣ 1000 := ⟨p, by rw [mul_one, hp]⟩
      rw [mul_one, ticks_eq_iff_of_dvd hppos (by norm_num), hdiv]
      refine ⟨fun h => .inr ⟨hdvd, h⟩, fun h => h.elim (fun hlt => ?_) fun h => h.2⟩
      have hple : p ≤ 1000 := Nat.le_of_dvd (by norm_num) ⟨g, by rw [mul_comm, hp]⟩
      rw [Nat.div_eq_of_lt (by omega), zero_mul]
      exact Nat.zero_le _
    · -- it does not
      have hple : p ≤ 1000 := Nat.le_of_dvd (by norm_num) ⟨g, by rw [mul_comm, hp]⟩
      have hnot : ¬ g * u ∣ 1000 := by
        rw [← hp, Nat.mul_dvd_mul_iff_left hg]
        intro hdvd
        have := Nat.eq_one_of_dvd_coprimes hcop hdvd dvd_rfl
        omega
      rw [ticks_eq_iff_of_not_dvd htwo hppos (by omega)]
      exact ⟨.inl, fun h => h.resolve_right fun hr => hnot hr.1⟩
  · have hnot : ¬ ms ∣ 1000 := fun h => hsecond (Nat.le_of_dvd (by norm_num) h)
    by_cases hn : n = 0
    · subst hn
      refine iff_of_true ?_ (.inl ?_)
      · rw [Nat.count_zero, zero_mul, Nat.zero_div]
      · rw [zero_mul]
        norm_num
    · have hlt := ticks_lt_of_thousand_lt (not_le.mp hsecond) hms hn
      refine iff_of_false hlt.ne fun h => h.elim (fun hshort => ?_) fun hr => hnot hr.1
      have := Nat.le_mul_of_pos_left ms (Nat.pos_of_ne_zero hn)
      omega

/-- A tick every second: two events are two seconds. -/
theorem oneSecond_iff_second :
    (([[1], [1]] : List (List UInt8)).foldl onTimerRead (setTimer 1000)).delayEvents
        = ([[1], [1]] : List (List UInt8)).flatten.count 1 * (1000 : UInt32).toNat / 1000
      ↔ ([[1], [1]] : List (List UInt8)).flatten.count 1 * (1000 : UInt32).toNat < 1000
        ∨ (1000 : UInt32).toNat ∣ 1000
          ∧ ([[1], [1]] : List (List UInt8)).flatten.count 1 / 2 ^ 32
              * ((1000 / (1000 : UInt32).toNat - 2 ^ 32 % (1000 / (1000 : UInt32).toNat))
                % (1000 / (1000 : UInt32).toNat))
            ≤ ([[1], [1]] : List (List UInt8)).flatten.count 1 % 2 ^ 32
              % (1000 / (1000 : UInt32).toNat) :=
  oneSecond_iff (by decide) [[1], [1]]

/-- With a period of 300 ms, a second and two tenths are over after four events, and there was
no tick. -/
theorem oneSecond_lost :
    (([[1, 1, 1, 1]] : List (List UInt8)).foldl onTimerRead (setTimer 300)).delayEvents = 0
      ∧ ([[1, 1, 1, 1]] : List (List UInt8)).flatten.count 1 * (300 : UInt32).toNat / 1000 = 1 := by
  have hafter := (After.reads (after_setTimer 300) [[1, 1, 1, 1]]).2.2
  have hticks := count_isSecond (g := 100) (p := 10) (u := 3) (by norm_num) (by norm_num)
    (by norm_num) (by norm_num) 4
  exact ⟨hafter.trans hticks, rfl⟩

end TimerTick
