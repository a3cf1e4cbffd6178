import QService.CInt
import QService.Replace

/-!
# Times as text

`Q_Now`, `Q_Date` and `Q_TimeToStr` print a time as text, and `Q_StrToTime` reads it
back: it looks for the signs between the numbers and gives what stands behind each to
`atoi`, which stops at the next. What is read is what was printed, field for field
(`strToTime_timeToStr`), except for one that the text does not have: whether it is
summer time. `Q_StrToTime` says that it is not.

The log files are named by the digits of such a text. They say which time it is
(`stamp_injective`), as the numbers behind the year are of two digits each.

`localtime` and `mktime` are those of the C library, with the zone of the machine.
-/

namespace QTime

open QString

/-- `struct tm`, as far as it is printed or set. -/
structure Tm where
  tm_sec : ℤ
  tm_min : ℤ
  tm_hour : ℤ
  tm_mday : ℤ
  tm_mon : ℤ
  tm_year : ℤ
  tm_isdst : ℤ
  deriving DecidableEq, Repr

/-! ## The code -/

/-- A number of two digits, as `%m`, `%d`, `%H`, `%M` and `%S` print it. -/
def twoDigits (n : ℤ) : List UInt8 :=
  [UInt8.ofNat (48 + n.toNat / 10), UInt8.ofNat (48 + n.toNat % 10)]

/-- `strftime` with `"%Y-%m-%d"`. -/
def Tm.date (tm : Tm) : List UInt8 :=
  CInt.print (tm.tm_year + 1900) ++ 45 :: (twoDigits (tm.tm_mon + 1)
    ++ 45 :: twoDigits tm.tm_mday)

/-- `strftime` with `"%H:%M:%S"`. -/
def Tm.clock (tm : Tm) : List UInt8 :=
  twoDigits tm.tm_hour ++ 58 :: (twoDigits tm.tm_min ++ 58 :: twoDigits tm.tm_sec)

/-- `Q_TimeToStr`, and `Q_Now` with the time it takes. -/
def timeToStr (localtime : ℤ → Tm) (time : ℤ) : List UInt8 :=
  (localtime time).date ++ 32 :: (localtime time).clock

/-- `Q_Date`, with the time it takes. -/
def date (localtime : ℤ → Tm) (t : ℤ) : List UInt8 := (localtime t).date

/-- `strstr`: from the first occurrence on. -/
def strstr (s flag : List UInt8) : Option (List UInt8) := (find flag s).map s.drop

/-- `atoi`. -/
def atoi (s : List UInt8) : ℤ := CInt.int.read s

/-- The part of `Q_StrToTime` behind the date: `iHour`, `iMin` and `iSec`. -/
def readClock (pPos : Option (List UInt8)) : ℤ × ℤ × ℤ :=
  match pPos with
  | none => (0, 0, 0)
  | some pPos =>
    let iHour := atoi pPos.tail
    match strstr pPos.tail [58] with
    | none => (iHour, 0, 0)
    | some pPos =>
      let iMin := atoi pPos.tail
      match strstr pPos.tail [58] with
      | none => (iHour, iMin, 0)
      | some pPos => (iHour, iMin, atoi pPos.tail)

/-- `Q_StrToTime`. Without the two signs of the date it is 0. -/
def strToTime (mktime : Tm → ℤ) (strTime : List UInt8) : ℤ :=
  let pBeginPos := cString strTime
  match strstr pBeginPos [45] with
  | none => 0
  | some pPos =>
    let iYear := atoi pBeginPos
    let iMonth := atoi pPos.tail
    match strstr pPos.tail [45] with
    | none => 0
    | some pPos =>
      let iDay := atoi pPos.tail
      let (iHour, iMin, iSec) := readClock (strstr pPos.tail [32])
      -- the other fields are zeros, and so summer time is off
      mktime ⟨iSec, iMin, iHour, iDay, iMonth - 1, iYear - 1900, 0⟩

/-- What `CTxtLoger::Write` makes of `Q_Now` for the name of a file: three times `Q_Replace`. -/
def stamp (strTmpPath : List UInt8) : Option (List UInt8) := do
  let strTmpPath ← replaceLoop [45] [] (strTmpPath.length + 1) strTmpPath 0
  let strTmpPath ← replaceLoop [58] [] (strTmpPath.length + 1) strTmpPath 0
  replaceLoop [32] [] (strTmpPath.length + 1) strTmpPath 0

/-! ## The times that `localtime` gives -/

/-- The ranges that the C library promises, and a year that is not before Christ and not so late
that it is no `int`. A minute may have a leap second. -/
structure Tm.Valid (tm : Tm) : Prop where
  sec : 0 ≤ tm.tm_sec ∧ tm.tm_sec ≤ 60
  min : 0 ≤ tm.tm_min ∧ tm.tm_min ≤ 59
  hour : 0 ≤ tm.tm_hour ∧ tm.tm_hour ≤ 23
  mday : 1 ≤ tm.tm_mday ∧ tm.tm_mday ≤ 31
  mon : 0 ≤ tm.tm_mon ∧ tm.tm_mon ≤ 11
  year : 0 ≤ tm.tm_year + 1900 ∧ tm.tm_year + 1900 ≤ CInt.int.max

/-! ## Numbers -/

theorem isDigit_twoDigits {n : ℤ} (h : n < 100) {b : UInt8} (hb : b ∈ twoDigits n) :
    CInt.isDigit b := by
  have hall : ∀ m < 10, CInt.isDigit (UInt8.ofNat (48 + m)) := by decide
  simp only [twoDigits, List.mem_cons, List.not_mem_nil, or_false] at hb
  rcases hb with rfl | rfl
  · exact hall _ (by omega)
  · exact hall _ (by omega)

theorem value_twoDigits {n : ℤ} (h₀ : 0 ≤ n) (h : n < 100) : CInt.value (twoDigits n) = n := by
  have hall : ∀ m < 100, CInt.value [UInt8.ofNat (48 + m / 10), UInt8.ofNat (48 + m % 10)] = m := by
    decide
  have hn := hall n.toNat (by omega)
  rw [twoDigits, hn]
  omega

/-- A year that is not negative is printed in digits. -/
theorem print_of_nonneg {z : ℤ} (h : 0 ≤ z) : CInt.print z = CInt.digits z.natAbs :=
  if_neg (by omega)

/-- **`atoi` reads a number up to what is behind it**, if that is no digit. -/
theorem atoi_append {l rest : List UInt8} (hne : l ≠ []) (hdig : ∀ b ∈ l, CInt.isDigit b)
    (hrest : ∀ b ∈ rest.head?, CInt.isDigit b = false) (hfits : CInt.int.Fits (CInt.value l)) :
    atoi (l ++ rest) = CInt.value l := by
  have htake : (l ++ rest).takeWhile CInt.isDigit = l := by
    rw [List.takeWhile_append_of_pos hdig]
    cases rest with
    | nil => exact List.append_nil l
    | cons b rest =>
      rw [List.takeWhile_cons_of_neg (by rw [hrest b rfl]; decide), List.append_nil]
  obtain ⟨b, l, rfl⟩ := List.exists_cons_of_ne_nil hne
  obtain ⟨h₁, h₂, -, h₃⟩ := CInt.isDigit_ne (hdig b List.mem_cons_self)
  unfold atoi CInt.read
  rw [List.cons_append, List.dropWhile_cons_of_neg (by rw [h₃]; decide)]
  simp only [List.head?_cons, Option.some_beq_some, beq_eq_false_iff_ne.mpr h₁,
    beq_eq_false_iff_ne.mpr h₂, Bool.or_false, Bool.false_eq_true, if_false]
  rw [← List.cons_append, htake, CInt.saturate_of_fits hfits]

theorem atoi_twoDigits {n : ℤ} (h₀ : 0 ≤ n) (h : n < 100) {rest : List UInt8}
    (hrest : ∀ b ∈ rest.head?, CInt.isDigit b = false) : atoi (twoDigits n ++ rest) = n := by
  have hmin : CInt.int.min = -2147483648 := by decide
  have hmax : CInt.int.max = 2147483647 := by decide
  have hval := value_twoDigits h₀ h
  have hfits : CInt.int.Fits (CInt.value (twoDigits n)) := by
    rw [hval]
    exact ⟨by omega, by omega⟩
  have hne : twoDigits n ≠ [] := List.cons_ne_nil _ _
  rw [atoi_append hne (fun b hb => isDigit_twoDigits h hb) hrest hfits, hval]

/-! ## Reading -/

/-- A sign is found behind what does not have it. -/
theorem strstr_append {c : UInt8} {l : List UInt8} (h : c ∉ l) (rest : List UInt8) :
    strstr (l ++ c :: rest) [c] = some (c :: rest) := by
  have hnone : find [c] l = none := by
    by_contra hsome
    exact h ((find_ne_none_iff.mp hsome).subset (List.mem_singleton.mpr rfl))
  have hfind := find_append (selfDelimiting_singleton c l hnone) rest
  rw [List.append_assoc, List.singleton_append] at hfind
  rw [strstr, hfind, Option.map_some, List.drop_left]

/-- Digits are no signs. -/
theorem notMem_of_digits {c : UInt8} (hc : CInt.isDigit c = false) {l : List UInt8}
    (h : ∀ b ∈ l, CInt.isDigit b) : c ∉ l := fun hmem => by
  rw [h c hmem] at hc
  cases hc

variable {tm : Tm}

theorem readClock_clock (h : tm.Valid) :
    readClock (some (32 :: tm.clock)) = (tm.tm_hour, tm.tm_min, tm.tm_sec) := by
  obtain ⟨⟨hs₀, hs⟩, ⟨hm₀, hm⟩, ⟨hh₀, hh⟩, -, -, -⟩ := h
  have hh' : (58 : UInt8) ∉ twoDigits tm.tm_hour :=
    notMem_of_digits rfl fun b hb => isDigit_twoDigits (by omega) hb
  have hm' : (58 : UInt8) ∉ twoDigits tm.tm_min :=
    notMem_of_digits rfl fun b hb => isDigit_twoDigits (by omega) hb
  have hsec : atoi (twoDigits tm.tm_sec) = tm.tm_sec := by
    rw [← List.append_nil (twoDigits tm.tm_sec)]
    exact atoi_twoDigits hs₀ (by omega) (by rintro b ⟨⟩)
  unfold readClock
  simp only [List.tail_cons]
  rw [Tm.clock, strstr_append hh']
  simp only [List.tail_cons]
  rw [strstr_append hm', atoi_twoDigits hh₀ (by omega) (by rintro b ⟨⟩; rfl),
    atoi_twoDigits hm₀ (by omega) (by rintro b ⟨⟩; rfl)]
  simp only [List.tail_cons, hsec]

/-- What is read from a date and what may be behind it. -/
theorem strToTime_date (mktime : Tm → ℤ) (h : tm.Valid) {rest : List UInt8}
    (hzero : 0 ∉ rest) (hrest : ∀ b ∈ rest.head?, CInt.isDigit b = false) :
    strToTime mktime (tm.date ++ rest)
      = let (iHour, iMin, iSec) := readClock (strstr (twoDigits tm.tm_mday ++ rest) [32])
        mktime ⟨iSec, iMin, iHour, tm.tm_mday, tm.tm_mon, tm.tm_year, 0⟩ := by
  obtain ⟨-, -, -, ⟨hd₀, hd⟩, ⟨hm₀, hm⟩, ⟨hy₀, hy⟩⟩ := h
  have hyear : ∀ b ∈ CInt.print (tm.tm_year + 1900), CInt.isDigit b := by
    rw [print_of_nonneg hy₀]
    exact fun b hb => CInt.isDigit_of_mem_digits hb
  have hmonth : ∀ b ∈ twoDigits (tm.tm_mon + 1), CInt.isDigit b :=
    fun b hb => isDigit_twoDigits (by omega) hb
  have hday : ∀ b ∈ twoDigits tm.tm_mday, CInt.isDigit b :=
    fun b hb => isDigit_twoDigits (by omega) hb
  have htext : tm.date ++ rest = CInt.print (tm.tm_year + 1900) ++ 45 :: (twoDigits (tm.tm_mon + 1)
      ++ 45 :: (twoDigits tm.tm_mday ++ rest)) := by
    simp [Tm.date]
  have hstring : cString (tm.date ++ rest) = tm.date ++ rest := by
    refine cString_of_notMem ?_
    rw [htext]
    simp only [List.mem_append, List.mem_cons]
    have h₁ := notMem_of_digits (c := 0) rfl hyear
    have h₂ := notMem_of_digits (c := 0) rfl hmonth
    have h₃ := notMem_of_digits (c := 0) rfl hday
    simp [h₁, h₂, h₃, hzero]
  have hiYear : atoi (CInt.print (tm.tm_year + 1900) ++ 45 :: (twoDigits (tm.tm_mon + 1)
      ++ 45 :: (twoDigits tm.tm_mday ++ rest))) = tm.tm_year + 1900 := by
    have hval : (CInt.value (CInt.print (tm.tm_year + 1900)) : ℤ) = tm.tm_year + 1900 := by
      rw [print_of_nonneg hy₀, CInt.value_digits]
      omega
    have hfits : CInt.int.Fits (CInt.value (CInt.print (tm.tm_year + 1900))) := by
      have hmin : CInt.int.min = -2147483648 := by decide
      rw [hval]
      exact ⟨by omega, hy⟩
    have hne : CInt.print (tm.tm_year + 1900) ≠ [] := by
      rw [print_of_nonneg hy₀]
      exact CInt.digits_ne_nil _
    rw [atoi_append hne hyear (by rintro b ⟨⟩; rfl) hfits, hval]
  unfold strToTime
  simp only [hstring]
  simp only [htext]
  rw [strstr_append (notMem_of_digits rfl hyear)]
  simp only [List.tail_cons]
  rw [strstr_append (notMem_of_digits rfl hmonth), hiYear,
    atoi_twoDigits (by omega) (by omega) (by rintro b ⟨⟩; rfl)]
  simp only [List.tail_cons]
  rw [atoi_twoDigits (by omega) (by omega) hrest]
  simp

theorem digits_clock (h : tm.Valid) : ∀ b ∈ tm.clock, b ≠ 58 → CInt.isDigit b := by
  obtain ⟨⟨hs₀, hs⟩, ⟨hm₀, hm⟩, ⟨hh₀, hh⟩, -, -, -⟩ := h
  intro b hb hne
  simp only [Tm.clock, List.mem_append, List.mem_cons] at hb
  rcases hb with hb | rfl | hb | rfl | hb
  · exact isDigit_twoDigits (by omega) hb
  · exact absurd rfl hne
  · exact isDigit_twoDigits (by omega) hb
  · exact absurd rfl hne
  · exact isDigit_twoDigits (by omega) hb

/-- **What is printed is read**: every field of the time, and midnight from a date alone. Summer
time is off. -/
theorem strToTime_timeToStr (localtime : ℤ → Tm) (mktime : Tm → ℤ) (t : ℤ)
    (h : (localtime t).Valid) :
    strToTime mktime (timeToStr localtime t) = mktime { localtime t with tm_isdst := 0 } ∧
      strToTime mktime (date localtime t)
        = mktime { localtime t with tm_hour := 0, tm_min := 0, tm_sec := 0, tm_isdst := 0 } := by
  have hday : (32 : UInt8) ∉ twoDigits (localtime t).tm_mday := by
    obtain ⟨-, hd⟩ := h.mday
    exact notMem_of_digits rfl fun b hb => isDigit_twoDigits (by omega) hb
  constructor
  · have hzero : (0 : UInt8) ∉ 32 :: (localtime t).clock := by
      intro hmem
      rcases List.mem_cons.mp hmem with h₀ | h₀
      · cases h₀
      · cases digits_clock h 0 h₀ (by decide)
    rw [timeToStr, strToTime_date mktime h hzero (by rintro b ⟨⟩; rfl), strstr_append hday,
      readClock_clock h]
  · have hnone : strstr (twoDigits (localtime t).tm_mday ++ []) [32] = none := by
      rw [List.append_nil, strstr, Option.map_eq_none_iff]
      by_contra hsome
      exact hday ((find_ne_none_iff.mp hsome).subset (List.mem_singleton.mpr rfl))
    have hdate := @strToTime_date _ mktime h [] List.not_mem_nil (by rintro b ⟨⟩)
    rw [hnone, List.append_nil] at hdate
    exact hdate

/-- The first second of 1970, in Greenwich. -/
def epoch : Tm := ⟨0, 0, 0, 1, 0, 70, 0⟩

/-- Seconds, for a `mktime` that is right on the first day of 1970. -/
def firstDay (tm : Tm) : ℤ := tm.tm_sec + 60 * (tm.tm_min + 60 * tm.tm_hour)

/-- A quarter past one on the first day of 1970. -/
theorem strToTime_timeToStr_quarter :
    strToTime firstDay (timeToStr (fun _ => { epoch with tm_hour := 1, tm_min := 15 }) 4500) = 4500 ∧
      strToTime firstDay (date (fun _ => { epoch with tm_hour := 1, tm_min := 15 }) 4500) = 0 :=
  strToTime_timeToStr (fun _ => { epoch with tm_hour := 1, tm_min := 15 }) firstDay 4500
    ⟨by decide, by decide, by decide, by decide, by decide, by decide⟩

/-! ## Names of files -/

/-- Pieces without a sign, put together, are the text without the sign. -/
theorem flatten_pieces (c : UInt8) (s : List UInt8) :
    (pieces [c] s).flatten = s.filter (· ≠ c) := by
  by_cases hc : c ∈ s
  · obtain ⟨l₁, l₂, hl⟩ := List.append_of_mem hc
    have hlen : s.length = l₁.length + (l₂.length + 1) := by
      rw [hl, List.length_append, List.length_cons]
    rw [hl, show l₁ ++ c :: l₂ = l₁ ++ [c] ++ l₂ by simp,
      pieces_append (by simp) (selfDelimiting_singleton c), List.flatten_append,
      flatten_pieces c l₁, flatten_pieces c l₂]
    simp
  · rw [pieces_of_notMem hc, List.flatten_singleton]
    refine (List.filter_eq_self.mpr fun b hb => ?_).symm
    exact decide_eq_true fun heq => hc (heq ▸ hb)
termination_by s.length

theorem intercalate_nothing (ls : List (List UInt8)) : [].intercalate ls = ls.flatten := by
  induction ls with
  | nil => rfl
  | cons l ls ih =>
    cases ls with
    | nil => rw [List.intercalate_singleton, List.flatten_singleton]
    | cons l' ls =>
      rw [List.intercalate_cons_cons, ih, List.append_nil, List.flatten_cons (l := l)]

/-- `Q_Replace` of a sign by nothing. -/
theorem replaceLoop_nothing (c : UInt8) (s : List UInt8) :
    replaceLoop [c] [] (s.length + 1) s 0 = some (s.filter (· ≠ c)) := by
  have h := @replaceLoop_append [c] [] (List.cons_ne_nil c []) _ _ (Nat.lt_succ_self s.length) []
  rw [List.nil_append, List.nil_append, intercalate_nothing, flatten_pieces] at h
  exact h

/-- The digits of a time. -/
def Tm.numbers (tm : Tm) : List UInt8 :=
  twoDigits (tm.tm_mon + 1) ++ (twoDigits tm.tm_mday ++ (twoDigits tm.tm_hour
    ++ (twoDigits tm.tm_min ++ twoDigits tm.tm_sec)))

/-- What is left without the three signs. -/
def unsigned (s : List UInt8) : List UInt8 :=
  s.filter fun b => decide (b ≠ 32) && decide (b ≠ 58) && decide (b ≠ 45)

theorem unsigned_append (s t : List UInt8) : unsigned (s ++ t) = unsigned s ++ unsigned t :=
  List.filter_append ..

theorem unsigned_digits {l : List UInt8} (h : ∀ b ∈ l, CInt.isDigit b) : unsigned l = l := by
  have hne : ∀ c, CInt.isDigit c = false → ∀ b ∈ l, b ≠ c := fun c hc b hb heq =>
    notMem_of_digits hc h (heq ▸ hb)
  refine List.filter_eq_self.mpr fun b hb => ?_
  rw [decide_eq_true (hne 32 rfl b hb), decide_eq_true (hne 58 rfl b hb),
    decide_eq_true (hne 45 rfl b hb)]
  rfl

theorem unsigned_twoDigits {n : ℤ} (h : n < 100) : unsigned (twoDigits n) = twoDigits n :=
  unsigned_digits fun _ hb => isDigit_twoDigits h hb

theorem stamp_eq (s : List UInt8) : stamp s = some (unsigned s) := by
  simp only [stamp, replaceLoop_nothing, Option.bind_eq_bind, Option.bind_some, List.filter_filter,
    unsigned]

/-- **The name of a file has the digits of the time.** -/
theorem stamp_timeToStr {localtime : ℤ → Tm} {t : ℤ} (h : (localtime t).Valid) :
    stamp (timeToStr localtime t)
      = some (CInt.print ((localtime t).tm_year + 1900) ++ (localtime t).numbers) := by
  obtain ⟨⟨-, hs⟩, ⟨-, hm⟩, ⟨-, hh⟩, ⟨-, hd⟩, ⟨-, hmon⟩, ⟨hy, -⟩⟩ := h
  have hyear : unsigned (CInt.print ((localtime t).tm_year + 1900))
      = CInt.print ((localtime t).tm_year + 1900) := by
    rw [print_of_nonneg hy]
    exact unsigned_digits fun b hb => CInt.isDigit_of_mem_digits hb
  have hdash : ∀ l, unsigned (45 :: l) = unsigned l := fun l =>
    List.filter_cons_of_neg (by decide)
  have hcolon : ∀ l, unsigned (58 :: l) = unsigned l := fun l =>
    List.filter_cons_of_neg (by decide)
  have hblank : ∀ l, unsigned (32 :: l) = unsigned l := fun l =>
    List.filter_cons_of_neg (by decide)
  rw [stamp_eq]
  simp only [timeToStr, Tm.date, Tm.clock, Tm.numbers, unsigned_append, hdash, hcolon, hblank]
  rw [hyear, unsigned_twoDigits (by omega), unsigned_twoDigits (by omega),
    unsigned_twoDigits (by omega), unsigned_twoDigits (by omega), unsigned_twoDigits (by omega)]
  simp only [List.append_assoc]

/-- **The name of a file says which time it is**, but for summer time. -/
theorem stamp_injective {localtime : ℤ → Tm} {t t' : ℤ} (h : (localtime t).Valid)
    (h' : (localtime t').Valid)
    (heq : stamp (timeToStr localtime t) = stamp (timeToStr localtime t')) :
    { localtime t with tm_isdst := 0 } = { localtime t' with tm_isdst := 0 } := by
  rw [stamp_timeToStr h, stamp_timeToStr h', Option.some_inj] at heq
  -- the numbers behind the year are as long for both
  obtain ⟨hyear, hnum⟩ := List.append_inj' heq rfl
  obtain ⟨hmon, hnum⟩ := List.append_inj hnum rfl
  obtain ⟨hday, hnum⟩ := List.append_inj hnum rfl
  obtain ⟨hhour, hnum⟩ := List.append_inj hnum rfl
  obtain ⟨hmin, hsec⟩ := List.append_inj hnum rfl
  obtain ⟨⟨hs₀, hs⟩, ⟨hm₀, hm⟩, ⟨hh₀, hh⟩, ⟨hd₀, hd⟩, ⟨hn₀, hn⟩, ⟨hy, -⟩⟩ := h
  obtain ⟨⟨hs₀', hs'⟩, ⟨hm₀', hm'⟩, ⟨hh₀', hh'⟩, ⟨hd₀', hd'⟩, ⟨hn₀', hn'⟩, ⟨hy', -⟩⟩ := h'
  have hvalue : ∀ {a b : ℤ}, 0 ≤ a → a < 100 → 0 ≤ b → b < 100 → twoDigits a = twoDigits b →
      a = b := fun ha₀ ha hb₀ hb hab => by
    rw [← value_twoDigits ha₀ ha, ← value_twoDigits hb₀ hb, hab]
  have hyears := congrArg CInt.value hyear
  rw [print_of_nonneg hy, print_of_nonneg hy', CInt.value_digits, CInt.value_digits] at hyears
  have hmons := hvalue (by omega) (by omega) (by omega) (by omega) hmon
  rw [Tm.mk.injEq]
  exact ⟨hvalue hs₀ (by omega) hs₀' (by omega) hsec, hvalue hm₀ (by omega) hm₀' (by omega) hmin,
    hvalue hh₀ (by omega) hh₀' (by omega) hhour,
    hvalue (by omega) (by omega) (by omega) (by omega) hday, by omega, by omega, rfl⟩

end QTime
