import Mathlib.Data.List.DropRight
import Mathlib.Data.List.TakeWhile
import Mathlib.Tactic

/-!
# C strings and `std::string`

A `std::string` is the list of its bytes, and a C string ends at the first NUL
of the memory it is in. The functions of `QString.cpp` that the parsers use
are here under their names: `Q_Split`, `Q_Trim` and the comparison that
ignores case.

`find` gives the first place where a text occurs. What it says of a text it
also says of every text that continues it (`find_append`).
-/

/-- The bytes of an ASCII text. -/
def ascii (s : String) : List UInt8 := s.toList.map fun c => UInt8.ofNat c.toNat

/-! ## C strings -/

/-- The C string at the start of a memory block. -/
def cString (s : List UInt8) : List UInt8 := s.takeWhile (· ≠ 0)

theorem cString_of_notMem {s : List UInt8} (h : 0 ∉ s) : cString s = s := by
  refine List.takeWhile_eq_self_iff.mpr fun b hb => decide_eq_true ?_
  rintro rfl
  exact h hb

theorem length_cString_le (s : List UInt8) : (cString s).length ≤ s.length :=
  (List.takeWhile_prefix _).length_le

/-- The C string ends at the first NUL. -/
theorem cString_append_zero {s : List UInt8} (h : 0 ∉ s) (t : List UInt8) :
    cString (s ++ 0 :: t) = s := by
  have hall : ∀ b ∈ s, decide (b ≠ 0) = true := by
    intro b hb
    refine decide_eq_true ?_
    rintro rfl
    exact h hb
  unfold cString
  rw [List.takeWhile_append_of_pos hall, List.takeWhile_cons_of_neg (by decide), List.append_nil]

/-- A string with a NUL in it is cut. -/
theorem length_cString_lt {s : List UInt8} (h : 0 ∈ s) : (cString s).length < s.length := by
  obtain ⟨l₁, l₂, rfl⟩ := List.append_of_mem h
  have hle : (cString (l₁ ++ 0 :: l₂)).length ≤ l₁.length := by
    unfold cString
    rw [List.takeWhile_append]
    split
    · simp
    · exact (List.takeWhile_prefix _).length_le
  rw [List.length_append, List.length_cons]
  omega

/-- What lies behind a NUL does not count. -/
theorem cString_append_of_mem {s : List UInt8} (h : 0 ∈ s) (t : List UInt8) :
    cString (s ++ t) = cString s := by
  have hlt := length_cString_lt h
  unfold cString at hlt ⊢
  rw [List.takeWhile_append, if_neg hlt.ne]

/-- A string without a NUL goes on. -/
theorem cString_append_of_notMem {s : List UInt8} (h : 0 ∉ s) (t : List UInt8) :
    cString (s ++ t) = s ++ cString t := by
  refine List.takeWhile_append_of_pos fun b hb => decide_eq_true ?_
  rintro rfl
  exact h hb

namespace QString

/-! ## Searching -/

/-- `std::string::find`, and `evbuffer_search`: where the text occurs first. -/
def find (flag : List UInt8) : List UInt8 → Option ℕ
  | [] => if flag = [] then some 0 else none
  | c :: s => if flag.isPrefixOf (c :: s) then some 0 else (find flag s).map (· + 1)

/-- The text is where it was found. -/
theorem find_le {flag s : List UInt8} {pos : ℕ} (h : find flag s = some pos) :
    pos + flag.length ≤ s.length := by
  induction s generalizing pos with
  | nil =>
    unfold find at h
    split_ifs at h with hflag
    cases h
    rw [hflag]
    exact le_rfl
  | cons c s ih =>
    unfold find at h
    split_ifs at h with hflag
    · cases h
      rw [Nat.zero_add]
      exact (List.isPrefixOf_iff_prefix.mp hflag).length_le
    · obtain ⟨p, hp, rfl⟩ := Option.map_eq_some_iff.mp h
      have := ih hp
      rw [List.length_cons]
      omega

/-- **What follows does not matter** for a text that was found. -/
theorem find_append {flag s : List UInt8} {pos : ℕ} (h : find flag s = some pos)
    (t : List UInt8) : find flag (s ++ t) = some pos := by
  induction s generalizing pos with
  | nil =>
    unfold find at h
    split_ifs at h with hflag
    subst hflag
    cases t with
    | nil => exact h
    | cons c t => exact h
  | cons c s ih =>
    unfold find at h
    rw [List.cons_append]
    unfold find
    split_ifs at h with hflag
    · rw [if_pos]
      · exact h
      · exact List.isPrefixOf_iff_prefix.mpr
          ((List.isPrefixOf_iff_prefix.mp hflag).trans (List.prefix_append _ _))
    · obtain ⟨p, hp, rfl⟩ := Option.map_eq_some_iff.mp h
      rw [if_neg, ih hp]
      · rfl
      · -- an occurrence at the front would have been seen, as the text is there in full
        intro hfront
        refine hflag (List.isPrefixOf_iff_prefix.mpr ?_)
        have hlen := find_le hp
        refine List.prefix_of_prefix_length_le (List.isPrefixOf_iff_prefix.mp hfront)
          (List.prefix_append (c :: s) t) ?_
        rw [List.length_cons]
        omega

/-! ## The functions of `QString.cpp` -/

/-- The loop of `Q_Split`, which drops at least one byte in each round. -/
def splitLoop (flag : List UInt8) : ℕ → List UInt8 → List (List UInt8)
  | 0, strTmp => [strTmp]
  | n + 1, strTmp =>
    match find flag strTmp with
    | none => [strTmp]
    | some loc => strTmp.take loc :: splitLoop flag n (strTmp.drop (loc + flag.length))

/-- `Q_Split`. -/
def split (strSource flag : List UInt8) : List (List UInt8) :=
  if flag = [] ∨ strSource = [] then [] else splitLoop flag strSource.length strSource

/-! ### What `Q_Split` gives -/

/-- The text is there, between what stands before it and after it. -/
theorem find_spec {flag s : List UInt8} {pos : ℕ} (h : find flag s = some pos) :
    s = s.take pos ++ flag ++ s.drop (pos + flag.length) := by
  induction s generalizing pos with
  | nil =>
    unfold find at h
    split_ifs at h with hflag
    cases h
    rw [hflag]
    rfl
  | cons c s ih =>
    unfold find at h
    split_ifs at h with hflag
    · cases h
      obtain ⟨t, ht⟩ := List.isPrefixOf_iff_prefix.mp hflag
      rw [Nat.zero_add, List.take_zero, List.nil_append, ← ht, List.drop_left]
    · obtain ⟨p, hp, rfl⟩ := Option.map_eq_some_iff.mp h
      rw [List.take_succ_cons, Nat.add_right_comm, List.drop_succ_cons, List.cons_append,
        List.cons_append, ← ih hp]

/-- After a text without it, the flag is found at its own place. -/
def SelfDelimiting (flag : List UInt8) : Prop :=
  ∀ s, find flag s = none → find flag (s ++ flag) = some s.length

theorem find_none_cons {flag s : List UInt8} {b : UInt8} (h : find flag (b :: s) = none) :
    ¬ flag <+: b :: s ∧ find flag s = none := by
  unfold find at h
  split_ifs at h with hflag
  exact ⟨fun hp => hflag (List.isPrefixOf_iff_prefix.mpr hp), Option.map_eq_none_iff.mp h⟩

theorem find_cons_of_not_prefix {flag s : List UInt8} {b : UInt8} (h : ¬ flag <+: b :: s) :
    find flag (b :: s) = (find flag s).map (· + 1) := by
  rw [find, if_neg fun hp => h (List.isPrefixOf_iff_prefix.mp hp)]

theorem find_self {flag : List UInt8} (h : flag ≠ []) : find flag flag = some 0 := by
  cases flag with
  | nil => exact absurd rfl h
  | cons c flag => rw [find, if_pos (List.isPrefixOf_iff_prefix.mpr List.prefix_rfl)]

/-- A text that is there is found. -/
theorem find_ne_none (flag s t : List UInt8) : find flag (s ++ flag ++ t) ≠ none := by
  induction s with
  | nil =>
    cases flag with
    | nil => cases t <;> simp [find]
    | cons c flag =>
      have hfront : (c :: flag).isPrefixOf (c :: (flag ++ t)) = true :=
        List.isPrefixOf_iff_prefix.mpr ⟨t, rfl⟩
      rw [List.nil_append, List.cons_append, find, if_pos hfront]
      exact Option.some_ne_none 0
  | cons b s ih => exact fun h => ih (find_none_cons h).2

theorem selfDelimiting_singleton (c : UInt8) : SelfDelimiting [c] := by
  intro s
  induction s with
  | nil => exact fun _ => find_self (by simp)
  | cons b s ih =>
    intro h
    obtain ⟨hfront, hs⟩ := find_none_cons h
    have hne : c ≠ b := fun heq => hfront (by rw [heq]; exact ⟨s, rfl⟩)
    have hnot : ¬ [c] <+: b :: (s ++ [c]) := fun hp => hne (List.cons_prefix_cons.mp hp).1
    rw [List.cons_append, find_cons_of_not_prefix hnot, ih hs]
    rfl

/-- Two different bytes: no occurrence begins in the text and ends in the flag. -/
theorem selfDelimiting_pair {c d : UInt8} (hcd : c ≠ d) : SelfDelimiting [c, d] := by
  intro s
  induction s with
  | nil => exact fun _ => find_self (by simp)
  | cons b s ih =>
    intro h
    obtain ⟨hfront, hs⟩ := find_none_cons h
    have hnot : ¬ [c, d] <+: b :: (s ++ [c, d]) := by
      intro hp
      obtain ⟨rfl, hp'⟩ := List.cons_prefix_cons.mp hp
      cases s with
      | nil => exact hcd (List.cons_prefix_cons.mp hp').1.symm
      | cons e s =>
        obtain ⟨rfl, -⟩ := List.cons_prefix_cons.mp hp'
        exact hfront ⟨s, rfl⟩
    rw [List.cons_append, find_cons_of_not_prefix hnot, ih hs]
    rfl

/-- The pieces of a text: what `Q_Split` gives, and one empty piece of an empty text. -/
def pieces (flag s : List UInt8) : List (List UInt8) := splitLoop flag s.length s

section Pieces

variable {flag s : List UInt8}

theorem split_eq_pieces (hflag : flag ≠ []) (hs : s ≠ []) : split s flag = pieces flag s :=
  if_neg (by simp [hflag, hs])

theorem splitLoop_of_find_none (h : find flag s = none) (n : ℕ) : splitLoop flag n s = [s] := by
  cases n with
  | zero => rfl
  | succ n => rw [splitLoop, h]

theorem find_nil_of_ne (hflag : flag ≠ []) : find flag [] = none := if_neg hflag

/-- The number of rounds does not matter, if there are enough. -/
theorem splitLoop_eq_pieces (hflag : flag ≠ []) {n : ℕ} (hn : s.length ≤ n) :
    splitLoop flag n s = pieces flag s := by
  unfold pieces
  suffices hall : ∀ (m n : ℕ) (s : List UInt8), s.length ≤ n → s.length ≤ m →
      splitLoop flag n s = splitLoop flag m s from hall s.length n s hn le_rfl
  intro m
  induction m with
  | zero =>
    intro n s _ hm
    rw [List.eq_nil_of_length_eq_zero (Nat.le_zero.mp hm)]
    exact splitLoop_of_find_none (find_nil_of_ne hflag) n
  | succ m ih =>
    intro n s hn hm
    cases hfind : find flag s with
    | none => rw [splitLoop_of_find_none hfind, splitLoop_of_find_none hfind]
    | some loc =>
      have hle := find_le hfind
      have hpos : 0 < flag.length := List.length_pos_of_ne_nil hflag
      cases n with
      | zero => omega
      | succ n =>
        rw [splitLoop, hfind, splitLoop, hfind]
        dsimp only
        rw [ih n _ (by rw [List.length_drop]; omega) (by rw [List.length_drop]; omega)]

theorem pieces_of_find_none (h : find flag s = none) : pieces flag s = [s] :=
  splitLoop_of_find_none h _

theorem pieces_of_find_some (hflag : flag ≠ []) {loc : ℕ} (h : find flag s = some loc) :
    pieces flag s = s.take loc :: pieces flag (s.drop (loc + flag.length)) := by
  have hle := find_le h
  have hpos : 0 < flag.length := List.length_pos_of_ne_nil hflag
  obtain ⟨n, hn⟩ : ∃ n, s.length = n + 1 := ⟨s.length - 1, by omega⟩
  rw [pieces, hn, splitLoop, h]
  dsimp only
  rw [splitLoop_eq_pieces hflag (by rw [List.length_drop]; omega)]

theorem exists_pieces (hflag : flag ≠ []) (s : List UInt8) :
    ∃ piece rest, pieces flag s = piece :: rest := by
  cases h : find flag s with
  | none => exact ⟨s, [], pieces_of_find_none h⟩
  | some loc => exact ⟨_, _, pieces_of_find_some hflag h⟩

/-- **A flag between two texts splits there.** -/
theorem pieces_append (hflag : flag ≠ []) (hself : SelfDelimiting flag) (s t : List UInt8) :
    pieces flag (s ++ flag ++ t) = pieces flag s ++ pieces flag t := by
  cases hfind : find flag s with
  | none =>
    have hhere := find_append (hself s hfind) t
    rw [pieces_of_find_some hflag hhere, pieces_of_find_none hfind, List.append_assoc,
      List.take_left, ← List.append_assoc, ← List.length_append, List.drop_left]
    rfl
  | some loc =>
    have hhere : find flag (s ++ flag ++ t) = some loc := find_append (find_append hfind flag) t
    have hle := find_le hfind
    have hpos : 0 < flag.length := List.length_pos_of_ne_nil hflag
    rw [pieces_of_find_some hflag hhere, pieces_of_find_some hflag hfind, List.append_assoc,
      List.take_append_of_le_length (by omega), List.drop_append_of_le_length hle,
      ← List.append_assoc, pieces_append hflag hself _ t]
    rfl
termination_by s.length
decreasing_by
  rw [List.length_drop]
  omega

theorem pieces_of_notMem {c : UInt8} (h : c ∉ s) : pieces [c] s = [s] := by
  refine pieces_of_find_none ?_
  cases hfind : find [c] s with
  | none => rfl
  | some loc =>
    refine absurd ?_ h
    rw [find_spec hfind]
    simp

/-- A byte splits a text into one piece more than there are such bytes. -/
theorem length_pieces (c : UInt8) (s : List UInt8) : (pieces [c] s).length = s.count c + 1 := by
  by_cases hc : c ∈ s
  · obtain ⟨l₁, l₂, hl⟩ := List.append_of_mem hc
    have hlen : s.length = l₁.length + (l₂.length + 1) := by
      rw [hl, List.length_append, List.length_cons]
    rw [hl, show l₁ ++ c :: l₂ = l₁ ++ [c] ++ l₂ by simp,
      pieces_append (by simp) (selfDelimiting_singleton c), List.length_append,
      length_pieces c l₁, length_pieces c l₂, List.count_append, List.count_append,
      List.count_singleton_self]
    omega
  · rw [pieces_of_notMem hc, List.count_eq_zero_of_not_mem hc]
    rfl
termination_by s.length

end Pieces

/-- The bytes that `Q_TrimLeft` and `Q_TrimRight` take off: blank, `\n` and `\r`. -/
def isBlank (c : UInt8) : Bool := c = 32 || c = 10 || c = 13

/-- `Q_TrimLeft`. -/
def trimLeft (s : List UInt8) : List UInt8 := s.dropWhile isBlank

/-- `Q_TrimRight`. -/
def trimRight (s : List UInt8) : List UInt8 := s.rdropWhile isBlank

/-- `Q_Trim`. -/
def trim (s : List UInt8) : List UInt8 := trimLeft (trimRight s)

/-- `std::string::find_first_of`: where the first byte is that is one of these. -/
def findFirstOf (flag s : List UInt8) : Option ℕ := s.findIdx? (· ∈ flag)

/-- `Q_GetFrontOfFlag`. The bytes of the flag are looked for one by one, not as a text. -/
def getFrontOfFlag (strSource flag : List UInt8) : List UInt8 :=
  match findFirstOf flag strSource with
  | none => strSource
  | some iPos => strSource.take iPos

theorem getFrontOfFlag_eq (strSource flag : List UInt8) :
    getFrontOfFlag strSource flag = strSource.takeWhile (· ∉ flag) := by
  induction strSource with
  | nil => rfl
  | cons c s ih =>
    unfold getFrontOfFlag findFirstOf at ih ⊢
    rw [List.findIdx?_cons]
    by_cases hc : c ∈ flag
    · simp [hc]
    · rw [if_neg (by simpa using hc), List.takeWhile_cons_of_pos (by simpa using hc), ← ih]
      cases s.findIdx? (· ∈ flag) <;> rfl

/-- `std::string::find_last_of`. -/
def findLastOf (flag s : List UInt8) : Option ℕ :=
  (s.reverse.findIdx? (· ∈ flag)).map (s.length - 1 - ·)

/-- `Q_GetLastOfFlag`. -/
def getLastOfFlag (strSource flag : List UInt8) : List UInt8 :=
  match findLastOf flag strSource with
  | none => strSource
  | some iPos => strSource.drop (iPos + flag.length)

/-- `isalnum` in the C locale. -/
def isAlnum (c : UInt8) : Bool :=
  (48 ≤ c && c ≤ 57) || (65 ≤ c && c ≤ 90) || (97 ≤ c && c ≤ 122)

/-- `tolower` in the C locale. -/
def toLower (c : UInt8) : UInt8 := if 65 ≤ c ∧ c ≤ 90 then c + 32 else c

/-- `0 == Q_Strcasecmp(psz1, psz2)`. -/
def sameText (psz₁ psz₂ : List UInt8) : Bool :=
  (cString psz₁).map toLower = (cString psz₂).map toLower

/-! ### What `Q_Trim` leaves -/

theorem trimRight_isPrefix (s : List UInt8) : trimRight s <+: s := List.rdropWhile_prefix _ s

/-- A byte that is not blank keeps what stands before it. -/
theorem trimRight_append_cons {c : UInt8} (hc : isBlank c = false) (s t : List UInt8) :
    trimRight (s ++ c :: t) = s ++ c :: trimRight t := by
  induction t using List.reverseRecOn with
  | nil =>
    show List.rdropWhile isBlank (s ++ [c]) = s ++ [c]
    rw [List.rdropWhile_concat_neg _ _ _ (by simp [hc])]
  | append_singleton t b ih =>
    unfold trimRight at ih ⊢
    rw [← List.cons_append, ← List.append_assoc]
    by_cases hb : isBlank b = true
    · rw [List.rdropWhile_concat_pos _ _ _ hb, List.rdropWhile_concat_pos _ _ _ hb, ih]
    · rw [List.rdropWhile_concat_neg _ _ _ hb, List.rdropWhile_concat_neg _ _ _ hb]
      simp

/-- A text that starts with a byte that is not blank is trimmed at its end only. -/
theorem trim_cons {c : UInt8} (hc : isBlank c = false) (t : List UInt8) :
    trim (c :: t) = c :: trimRight t := by
  have hright : trimRight (c :: t) = c :: trimRight t := trimRight_append_cons hc [] t
  rw [trim, hright, trimLeft, List.dropWhile_cons_of_neg (by simp [hc])]

/-- A text that `Q_Trim` does not change has nothing blank at its ends. -/
theorem trim_eq_self {s : List UInt8} (h : trim s = s) : trimRight s = s ∧ trimLeft s = s := by
  have hright : trimRight s = s := by
    refine (trimRight_isPrefix s).eq_of_length (le_antisymm (trimRight_isPrefix s).length_le ?_)
    calc s.length = (trim s).length := by rw [h]
      _ ≤ (trimRight s).length := (List.dropWhile_sublist _).length_le
  refine ⟨hright, ?_⟩
  rwa [trim, hright] at h

theorem exists_cons_of_trim {s : List UInt8} (h : trim s = s) (hne : s ≠ []) :
    ∃ c t, s = c :: t ∧ isBlank c = false := by
  cases s with
  | nil => exact absurd rfl hne
  | cons c t =>
    refine ⟨c, t, rfl, ?_⟩
    have hleft := (trim_eq_self h).2
    cases hc : isBlank c with
    | false => rfl
    | true =>
      rw [trimLeft, List.dropWhile_cons_of_pos hc] at hleft
      have hlen := (List.dropWhile_sublist (l := t) isBlank).length_le
      rw [hleft, List.length_cons] at hlen
      exact absurd hlen (Nat.not_succ_le_self _)

theorem exists_concat_of_trim {s : List UInt8} (h : trim s = s) (hne : s ≠ []) :
    ∃ t c, s = t ++ [c] ∧ isBlank c = false := by
  have hright := (trim_eq_self h).1
  have hlast := List.rdropWhile_eq_self_iff.mp hright hne
  exact ⟨s.dropLast, s.getLast hne, (List.dropLast_append_getLast hne).symm, by simpa using hlast⟩

end QString
