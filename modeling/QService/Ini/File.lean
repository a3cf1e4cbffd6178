import QService.Ini.Store
import QService.QString

/-!
# INI files

`saveTo` writes a line `[node]` for each node and a line `key = value` for each of
its keys. `readInfo` reads the file line by line into a buffer of fixed size,
takes off blanks and comments, and does with each line what it looks like.

A file that was written is not always read back. A comment starts at `//`, but
`removeNote` cuts a line at any single `/`, since `find_first_of` looks for the
bytes of its argument one by one; and a line that does not fit the buffer ends the
reading. `reload_iff` says exactly which stores survive being saved and loaded
(`Survives`), among those whose texts can be written in the format at all
(`Legal`). A slash in a value is enough to lose it (`reload_slash`).
-/

namespace IniStore

open QString

/-! ## Writing -/

/-- The line of a node. -/
def nodeLine (strNode : List UInt8) : List UInt8 := ascii "[" ++ strNode ++ ascii "]"

/-- The line of a key. -/
def keyLine (st : IniKey) : List UInt8 := st.strKey ++ ascii " = " ++ st.strValue

/-- The lines of a node and its keys. -/
def nodeLines (nd : IniNode) : List (List UInt8) := nodeLine nd.strNode :: nd.lstKey.map keyLine

/-- A file of these lines. -/
def unlines (ls : List (List UInt8)) : List UInt8 := ls.flatMap (· ++ ascii "\n")

/-- `CIniFile::saveTo`: the bytes of the file. -/
def saveTo (s : IniStore) : List UInt8 := unlines (s.flatMap nodeLines)

/-! ## Reading -/

/-- `std::istream::getline`, which stores at most `room` bytes: what it stores, what is
left to read, and whether the stream is still good. It is not at the end of the
file, and when a line is longer than the room. -/
def getline : ℕ → List UInt8 → List UInt8 × List UInt8 × Bool
  | _, [] => ([], [], false)
  | room, c :: s =>
    if c = 10 then ([], s, true)
    else
      match room with
      | 0 => ([], c :: s, false)
      | room + 1 =>
        let (buf, rest, good) := getline room s
        (c :: buf, rest, good)

/-- `getline(pBuffer, sizeof(pBuffer) - 1)` for a buffer of `Q_ONEK` bytes: the last one
is for the NUL. -/
def lineRoom : ℕ := 1024 - 1 - 1

/-- What is in `pBuffer` in each round of the loop of `readInfo`. -/
def buffers : ℕ → List UInt8 → List (List UInt8)
  | 0, _ => []
  | fuel + 1, s =>
    match getline lineRoom s with
    | (buf, rest, true) => buf :: buffers fuel rest
    | (buf, _, false) => [buf]

/-- `CIniFile::isNote`. -/
def isNote (str : List UInt8) : Bool := str.take 2 = ascii "//" || str.take 1 = ascii "#"

/-- `CIniFile::removeNote`. -/
def removeNote (str : List UInt8) : List UInt8 :=
  getFrontOfFlag (getFrontOfFlag str (ascii "//")) (ascii "#")

/-- `CIniFile::isNode`. -/
def isNode (str : List UInt8) : Bool :=
  str.take 1 = ascii "[" && (str.drop (str.length - 1)).take 1 = ascii "]" && 2 < str.length

/-- `CIniFile::getNode`. -/
def getNode (str : List UInt8) : List UInt8 := trim ((str.drop 1).take (str.length - 2))

/-- `CIniFile::isKey`. -/
def isKey (str : List UInt8) : Bool := (find (ascii "=") str).isSome

/-- `CIniFile::getKey`. -/
def getKey (str : List UInt8) : List UInt8 := trim (getFrontOfFlag str (ascii "="))

/-- `CIniFile::getVal`. -/
def getVal (str : List UInt8) : List UInt8 :=
  match findFirstOf (ascii "=") str with
  | none => []
  | some iPos => trim ((str.drop (iPos + 1)).take (str.length - 1))

/-- What a line is taken for. -/
inductive Line
  | skip
  | node (strNode : List UInt8)
  | key (pszKey pszValue : List UInt8)
  deriving DecidableEq, Repr

/-- What a line without blanks and comments is taken for. -/
def classify (strTmp : List UInt8) : Line :=
  if strTmp = [] then .skip
  else if isNode strTmp then .node (getNode strTmp)
  else if isKey strTmp then .key (getKey strTmp) (getVal strTmp)
  else .skip

/-- What the loop of `readInfo` takes the buffer for. -/
def parseLine (pBuffer : List UInt8) : Line :=
  let strTmp := trim (cString pBuffer)
  if strTmp = [] ∨ isNote strTmp then .skip else classify (trim (removeNote strTmp))

/-- A round of the loop of `readInfo`, with `strNode` and the store. -/
def readLine (st : List UInt8 × IniStore) (pBuffer : List UInt8) : List UInt8 × IniStore :=
  match parseLine pBuffer with
  | .skip => st
  | .node strNode => (strNode, st.2)
  | .key pszKey pszValue => (st.1, st.2.setStringValue st.1 pszKey pszValue)

/-- `CIniFile::readInfo` and so `setFile`, for the bytes of the file. -/
def readInfo (file : List UInt8) : IniStore :=
  ((buffers (file.length + 1) file).foldl readLine ([], empty)).2

/-! ## The lines that are read -/

/-- Of a list of lines, what the buffer holds: each line up to the first that does not
fit, of which it holds the start. After the last line the end is met. -/
def readable : List (List UInt8) → List (List UInt8)
  | [] => [[]]
  | l :: ls => if l.length ≤ lineRoom then l :: readable ls else [l.take lineRoom]

theorem getline_of_le {l : List UInt8} (hl : 10 ∉ l) {room : ℕ} (h : l.length ≤ room)
    (s : List UInt8) : getline room (l ++ 10 :: s) = (l, s, true) := by
  induction l generalizing room with
  | nil => cases room <;> rfl
  | cons c l ih =>
    rw [List.mem_cons, not_or] at hl
    cases room with
    | zero => simp at h
    | succ room =>
      rw [List.cons_append, getline, if_neg (Ne.symm hl.1)]
      simp only [ih hl.2 (by simpa using h)]

theorem getline_of_lt {l : List UInt8} (hl : 10 ∉ l) {room : ℕ} (h : room < l.length)
    (s : List UInt8) : (getline room (l ++ s)).1 = l.take room
      ∧ (getline room (l ++ s)).2.2 = false := by
  induction l generalizing room with
  | nil => simp at h
  | cons c l ih =>
    rw [List.mem_cons, not_or] at hl
    cases room with
    | zero =>
      rw [List.cons_append, getline, if_neg (Ne.symm hl.1)]
      exact ⟨rfl, rfl⟩
    | succ room =>
      obtain ⟨h₁, h₂⟩ := ih hl.2 (Nat.lt_of_succ_lt_succ h)
      rw [List.cons_append, getline, if_neg (Ne.symm hl.1)]
      exact ⟨congrArg (c :: ·) h₁, h₂⟩

/-- **What is read of a file that was written line by line.** -/
theorem buffers_unlines {ls : List (List UInt8)} (h : ∀ l ∈ ls, 10 ∉ l) {fuel : ℕ}
    (hf : (unlines ls).length < fuel) : buffers fuel (unlines ls) = readable ls := by
  induction ls generalizing fuel with
  | nil =>
    cases fuel with
    | zero => simp at hf
    | succ fuel => rfl
  | cons l ls ih =>
    have hl := h l List.mem_cons_self
    have hcons : unlines (l :: ls) = l ++ 10 :: unlines ls := by
      rw [unlines, List.flatMap_cons, List.append_assoc]
      rfl
    cases fuel with
    | zero => simp at hf
    | succ fuel =>
      rw [hcons] at hf ⊢
      unfold readable buffers
      split_ifs with hlen
      · rw [getline_of_le hl hlen]
        simp only [List.length_append, List.length_cons] at hf
        exact congrArg (l :: ·) (ih (fun l' hl' => h l' (List.mem_cons_of_mem _ hl')) (by omega))
      · obtain ⟨hbuf, hgood⟩ := getline_of_lt hl (not_le.mp hlen) (10 :: unlines ls)
        generalize getline lineRoom (l ++ 10 :: unlines ls) = r at hbuf hgood
        obtain ⟨buf, rest, good⟩ := r
        cases hgood
        cases hbuf
        rfl

theorem mem_readable {ls : List (List UInt8)} {b : List UInt8} (h : b ∈ readable ls) :
    b = [] ∨ ∃ l ∈ ls, b = l.take lineRoom := by
  induction ls with
  | nil => exact .inl (List.mem_singleton.mp h)
  | cons l ls ih =>
    unfold readable at h
    split_ifs at h with hlen
    · rcases List.mem_cons.mp h with rfl | h
      · exact .inr ⟨b, List.mem_cons_self, (List.take_of_length_le hlen).symm⟩
      · rcases ih h with h | ⟨l', hl', h⟩
        · exact .inl h
        · exact .inr ⟨l', List.mem_cons_of_mem _ hl', h⟩
    · exact .inr ⟨l, List.mem_cons_self, List.mem_singleton.mp h⟩

/-- Lines that fit are read, and then the rest. -/
theorem readable_append {ls ls' : List (List UInt8)} (h : ∀ l ∈ ls, l.length ≤ lineRoom) :
    readable (ls ++ ls') = ls ++ readable ls' := by
  induction ls with
  | nil => rfl
  | cons l ls ih =>
    rw [List.cons_append, readable, if_pos (h l List.mem_cons_self),
      ih fun l' hl' => h l' (List.mem_cons_of_mem _ hl')]
    rfl

/-- Nothing is read behind a line that does not fit. -/
theorem mem_readable_append_cons {ls ls' : List (List UInt8)} {l b : List UInt8}
    (hl : lineRoom < l.length) (h : b ∈ readable (ls ++ l :: ls')) :
    ∃ l' ∈ ls ++ [l], b = l'.take lineRoom := by
  induction ls with
  | nil =>
    rw [List.nil_append, readable, if_neg (not_le.mpr hl)] at h
    exact ⟨l, List.mem_singleton_self l, List.mem_singleton.mp h⟩
  | cons a ls ih =>
    rw [List.cons_append, readable] at h
    split_ifs at h with hlen
    · rcases List.mem_cons.mp h with rfl | h
      · exact ⟨b, List.mem_cons_self, (List.take_of_length_le hlen).symm⟩
      · obtain ⟨l', hl', hb⟩ := ih h
        exact ⟨l', List.mem_cons_of_mem _ hl', hb⟩
    · exact ⟨a, List.mem_cons_self, List.mem_singleton.mp h⟩

/-! ## What a line is taken for -/

theorem removeNote_eq (str : List UInt8) :
    removeNote str = (str.takeWhile (· ≠ 47)).takeWhile (· ≠ 35) := by
  have hslash : (fun c : UInt8 => decide (c ∉ ascii "//")) = fun c => decide (c ≠ 47) := by
    funext c
    simp [show ascii "//" = [47, 47] from rfl]
  have hhash : (fun c : UInt8 => decide (c ∉ ascii "#")) = fun c => decide (c ≠ 35) := by
    funext c
    simp [show ascii "#" = [35] from rfl]
  rw [removeNote, getFrontOfFlag_eq, getFrontOfFlag_eq, hslash, hhash]

theorem isKey_eq (str : List UInt8) : isKey str = decide (61 ∈ str) := by
  unfold isKey
  induction str with
  | nil => rfl
  | cons c s ih =>
    rw [find]
    by_cases hc : c = 61
    · simp [hc, show ascii "=" = [61] from rfl]
    · rw [if_neg (by simpa [show ascii "=" = [61] from rfl] using Ne.symm hc), Option.isSome_map,
        ih]
      simp [Ne.symm hc]

/-- The text of a line: what is left of it without the slash and what follows, and
without the blanks at its end. -/
def text (line : List UInt8) : List UInt8 := trimRight (line.takeWhile (· ≠ 47))

theorem text_isPrefix (line : List UInt8) : text line <+: line :=
  (trimRight_isPrefix _).trans (List.takeWhile_prefix _)

theorem slash_notMem_text (line : List UInt8) : 47 ∉ text line := fun h => by
  have := List.mem_takeWhile_imp ((trimRight_isPrefix _).subset h)
  simp at this

theorem takeWhile_append_cons {s : List UInt8} {x : UInt8} (h : x ∉ s) (t : List UInt8) :
    (s ++ x :: t).takeWhile (· ≠ x) = s := by
  have hall : ∀ c ∈ s, decide (c ≠ x) = true := fun c hc =>
    decide_eq_true fun he => h (he ▸ hc)
  rw [List.takeWhile_append_of_pos hall]
  simp

theorem takeWhile_of_notMem {s : List UInt8} {x : UInt8} (h : x ∉ s) :
    s.takeWhile (· ≠ x) = s :=
  List.takeWhile_eq_self_iff.mpr fun _ hc => decide_eq_true fun he => h (he ▸ hc)

/-- Cutting a line at the slash and trimming it can be done in either order. -/
theorem trimRight_takeWhile (s : List UInt8) :
    trimRight ((trimRight s).takeWhile (· ≠ 47)) = text s := by
  by_cases h : 47 ∈ s
  · obtain ⟨l₁, l₂, rfl, hl₁⟩ := List.eq_append_cons_of_mem h
    rw [text, trimRight_append_cons rfl, takeWhile_append_cons hl₁, takeWhile_append_cons hl₁]
  · have hright : 47 ∉ trimRight s := fun hm => h ((trimRight_isPrefix s).subset hm)
    rw [text, takeWhile_of_notMem h, takeWhile_of_notMem hright]
    exact List.rdropWhile_idempotent _ _

/-- **A line is taken for what its text looks like**, if it does not start with a blank
or as a comment. -/
theorem parseLine_eq {c : UInt8} {t : List UInt8} (hc : isBlank c = false) (h₀ : 0 ∉ c :: t)
    (hhash : 35 ∉ c :: t) (hnote : (c :: t).take 2 ≠ ascii "//") :
    parseLine (c :: t) = classify (text (c :: t)) := by
  have htrim : trim (c :: t) = trimRight (c :: t) := by
    rw [trim_cons hc]
    exact (trimRight_append_cons hc [] t).symm
  have hcons : trimRight (c :: t) = c :: trimRight t := trimRight_append_cons hc [] t
  have hnot : isNote (trimRight (c :: t)) = false := by
    have hpre : (c :: trimRight t).take 2 ≠ ascii "//" := fun he => by
      -- the two slashes would already be there in the line
      cases hu : trimRight t with
      | nil => simp [hu, show ascii "//" = [47, 47] from rfl] at he
      | cons b u =>
        obtain ⟨rest, ht⟩ := trimRight_isPrefix t
        rw [hu] at ht he
        rw [← ht] at hnote
        exact hnote he
    have hfirst : (c :: trimRight t).take 1 ≠ ascii "#" := fun he =>
      hhash ((List.cons.inj he).1 ▸ List.mem_cons_self)
    rw [hcons, isNote, decide_eq_false hpre, decide_eq_false hfirst]
    rfl
  have hcut : removeNote (trimRight (c :: t)) = (trimRight (c :: t)).takeWhile (· ≠ 47) := by
    rw [removeNote_eq]
    refine takeWhile_of_notMem fun hm => hhash ?_
    exact (trimRight_isPrefix _).subset ((List.takeWhile_prefix _).subset hm)
  have hlast : trim ((trimRight (c :: t)).takeWhile (· ≠ 47)) = text (c :: t) := by
    rw [← trimRight_takeWhile, hcons]
    by_cases hs : c = 47
    · simp [hs]
      rfl
    · rw [List.takeWhile_cons_of_pos (by simpa using hs), trim_cons hc]
      exact (trimRight_append_cons hc [] _).symm
  unfold parseLine
  rw [cString_of_notMem h₀, htrim]
  dsimp only
  rw [if_neg (by rw [hnot, hcons]; simp), hcut, hlast]

/-! ## Texts that can be written -/

/-- A text that the format can hold: not empty, unchanged by `Q_Trim`, and free of
newlines, NUL, `#` and `//`. -/
structure LegalText (s : List UInt8) : Prop where
  nonempty : s ≠ []
  trimmed : trim s = s
  newline : 10 ∉ s
  nul : 0 ∉ s
  hash : 35 ∉ s
  comment : ¬ ascii "//" <:+: s

instance (s : List UInt8) : Decidable (LegalText s) :=
  decidable_of_iff (s ≠ [] ∧ trim s = s ∧ 10 ∉ s ∧ 0 ∉ s ∧ 35 ∉ s ∧ ¬ ascii "//" <:+: s)
    ⟨fun ⟨h₁, h₂, h₃, h₄, h₅, h₆⟩ => ⟨h₁, h₂, h₃, h₄, h₅, h₆⟩,
      fun ⟨h₁, h₂, h₃, h₄, h₅, h₆⟩ => ⟨h₁, h₂, h₃, h₄, h₅, h₆⟩⟩

/-- A node name without brackets. -/
structure LegalName (s : List UInt8) : Prop extends LegalText s where
  opening : 91 ∉ s
  closing : 93 ∉ s

instance (s : List UInt8) : Decidable (LegalName s) :=
  decidable_of_iff (LegalText s ∧ 91 ∉ s ∧ 93 ∉ s)
    ⟨fun ⟨h₁, h₂, h₃⟩ => ⟨h₁, h₂, h₃⟩, fun ⟨h₁, h₂, h₃⟩ => ⟨h₁, h₂, h₃⟩⟩

/-- A key, with its value. -/
structure LegalKey (st : IniKey) : Prop where
  key : LegalName st.strKey
  equals : 61 ∉ st.strKey
  value : LegalText st.strValue

/-- A store that can be written. -/
structure Legal (s : IniStore) : Prop where
  nodes : ∀ nd ∈ s, LegalName nd.strNode
  keys : ∀ nd ∈ s, ∀ st ∈ nd.lstKey, LegalKey st

/-! ### The line of a node -/

/-- The name is read back: the line of the node fits the buffer and has no slash. -/
def NameFits (n : List UInt8) : Prop := 47 ∉ n ∧ n.length ≤ 1020

/-- The part of a name that is looked at when its line is cut off. -/
def namePart (n : List UInt8) : List UInt8 := (n.take 1021).takeWhile (· ≠ 47)

theorem take_nodeLine (n : List UInt8) :
    (nodeLine n).take lineRoom = 91 :: (n ++ [93]).take 1021 := rfl

theorem parseLine_nodeLine {n : List UInt8} (h : LegalName n) :
    parseLine ((nodeLine n).take lineRoom)
      = classify (91 :: trimRight (((n ++ [93]).take 1021).takeWhile (· ≠ 47))) := by
  have hsub : ∀ c, c ∉ n → c ≠ 91 → c ≠ 93 → c ∉ 91 :: (n ++ [93]).take 1021 := by
    intro c hn h91 h93 hc
    rcases List.mem_cons.mp hc with rfl | hc
    · exact h91 rfl
    · rcases List.mem_append.mp (List.mem_of_mem_take hc) with hc | hc
      · exact hn hc
      · exact h93 (List.mem_singleton.mp hc)
  have htext : text (91 :: (n ++ [93]).take 1021)
      = 91 :: trimRight (((n ++ [93]).take 1021).takeWhile (· ≠ 47)) := by
    rw [text, List.takeWhile_cons_of_pos (by decide)]
    exact trimRight_append_cons rfl [] _
  rw [take_nodeLine, parseLine_eq rfl (hsub 0 h.nul (by decide) (by decide))
    (hsub 35 h.hash (by decide) (by decide)) (fun he => absurd (List.cons.inj he).1 (by decide)),
    htext]

/-- The line of a node that fits is taken for the node. -/
theorem parseLine_of_nameFits {n : List UInt8} (h : LegalName n) (hfit : NameFits n) :
    parseLine ((nodeLine n).take lineRoom) = .node n := by
  have htake : (n ++ [93]).take 1021 = n ++ [93] :=
    List.take_of_length_le (by simpa using Nat.lt_succ_of_le hfit.2)
  have hcut : (n ++ [93]).takeWhile (· ≠ 47) = n ++ [93] :=
    takeWhile_of_notMem (by simpa using hfit.1)
  have hright : trimRight (n ++ [93]) = n ++ [93] := trimRight_append_cons rfl n []
  have hnode : isNode (91 :: (n ++ [93])) = true := by
    have hpos := List.length_pos_iff.mpr h.nonempty
    simp [isNode, show ascii "[" = [91] from rfl, show ascii "]" = [93] from rfl]
    omega
  have hget : getNode (91 :: (n ++ [93])) = n := by
    simp [getNode, h.trimmed]
  rw [parseLine_nodeLine h, htake, hcut, hright, classify, if_neg (by simp), if_pos hnode, hget]

theorem getKey_eq (str : List UInt8) : getKey str = trim (str.takeWhile (· ≠ 61)) := by
  have hflag : (fun c : UInt8 => decide (c ∉ ascii "=")) = fun c => decide (c ≠ 61) := by
    funext c
    simp [show ascii "=" = [61] from rfl]
  rw [getKey, getFrontOfFlag_eq, hflag]

/-- The closing bracket does not matter for the `=`. -/
theorem mem_namePart (n : List UInt8) :
    61 ∈ ((n ++ [93]).take 1021).takeWhile (· ≠ 47) ↔ 61 ∈ namePart n := by
  have hnot : 61 ∉ ([93] : List UInt8).take (1021 - n.length) := fun h =>
    absurd (List.mem_of_mem_take h) (by decide)
  rw [namePart, List.take_append, List.takeWhile_append]
  split_ifs with hall
  · have hsame : (n.take 1021).takeWhile (· ≠ 47) = n.take 1021 :=
      (List.takeWhile_prefix _).eq_of_length hall
    rw [hsame, List.mem_append, or_iff_left]
    exact fun h => hnot ((List.takeWhile_prefix _).subset h)
  · exact Iff.rfl

/-- A line of a node that does not fit is no node. It is taken for a key if there is a
`=` in what is looked at, and is skipped otherwise. -/
theorem parseLine_of_not_nameFits {n : List UInt8} (h : LegalName n) (hfit : ¬ NameFits n) :
    if 61 ∈ namePart n then
      ∃ k v, parseLine ((nodeLine n).take lineRoom) = .key k v ∧ 91 ∈ k
    else parseLine ((nodeLine n).take lineRoom) = .skip := by
  set x := trimRight (((n ++ [93]).take 1021).takeWhile (· ≠ 47)) with hx
  have hpre₁ : x <+: ((n ++ [93]).take 1021).takeWhile (· ≠ 47) := trimRight_isPrefix _
  have hpre₂ : x <+: (n ++ [93]).take 1021 := hpre₁.trans (List.takeWhile_prefix _)
  -- the closing bracket is there only if all of the line is
  have hclose : 93 ∉ x := by
    intro hm
    rcases List.prefix_concat_iff.mp (hpre₂.trans (List.take_prefix _ _)) with hall | hin
    · refine hfit ⟨fun hs => ?_, ?_⟩
      · have h47 : 47 ∈ x := hall ▸ List.mem_append_left _ hs
        simpa using List.mem_takeWhile_imp (hpre₁.subset h47)
      · have hle := hpre₂.length_le
        rw [hall, List.length_append, List.length_singleton, List.length_take] at hle
        omega
    · exact h.closing (hin.subset hm)
  have hnode : isNode (91 :: x) = false := by
    have hlast : ((91 :: x).drop ((91 :: x).length - 1)).take 1 ≠ ascii "]" := by
      intro he
      have hm : (93 : UInt8) ∈ ((91 :: x).drop ((91 :: x).length - 1)).take 1 := by
        rw [he]
        exact List.mem_cons_self
      rcases List.mem_cons.mp (List.mem_of_mem_drop (List.mem_of_mem_take hm)) with h93 | h93
      · exact absurd h93 (by decide)
      · exact hclose h93
    rw [isNode, decide_eq_false hlast, Bool.and_false, Bool.false_and]
  have hkey : 61 ∈ 91 :: x ↔ 61 ∈ namePart n := by
    rw [List.mem_cons, or_iff_right (by decide), ← mem_namePart]
    refine ⟨fun hm => hpre₁.subset hm, fun hm => ?_⟩
    obtain ⟨l₁, l₂, hl⟩ := List.append_of_mem hm
    rw [hx, hl, trimRight_append_cons rfl]
    exact List.mem_append_right _ List.mem_cons_self
  have hclass : classify (91 :: x)
      = if 61 ∈ 91 :: x then .key (getKey (91 :: x)) (getVal (91 :: x)) else .skip := by
    simp only [classify, hnode, isKey_eq, decide_eq_true_eq, reduceCtorEq, if_false,
      Bool.false_eq_true]
  have hparse := (parseLine_nodeLine h).trans hclass
  by_cases hm : 61 ∈ namePart n
  · rw [if_pos hm]
    rw [if_pos (hkey.mpr hm)] at hparse
    refine ⟨_, _, hparse, ?_⟩
    rw [getKey_eq, List.takeWhile_cons_of_pos (by decide), trim_cons rfl]
    exact List.mem_cons_self
  · rw [if_neg hm]
    rw [if_neg (hkey.not.mpr hm)] at hparse
    exact hparse

/-! ### The line of a key -/

/-- The key and its value are read back: their line fits the buffer and has no slash. -/
def KeyFits (st : IniKey) : Prop :=
  47 ∉ st.strKey ∧ 47 ∉ st.strValue ∧ st.strKey.length + st.strValue.length ≤ 1019

theorem keyLine_eq (st : IniKey) :
    keyLine st = (st.strKey ++ [32]) ++ 61 :: 32 :: st.strValue := by
  simp [keyLine, show ascii " = " = [32, 61, 32] from rfl]

/-- A part of a line `key = value` with the `=` in it has all of the key. -/
theorem exists_of_isPrefix_keyLine {st : IniKey} (h : 61 ∉ st.strKey) {s : List UInt8}
    (hs : s <+: keyLine st) (hm : 61 ∈ s) :
    ∃ r, s = (st.strKey ++ [32]) ++ 61 :: r ∧ r <+: 32 :: st.strValue := by
  have hkey : 61 ∉ st.strKey ++ [32] := by simpa using h
  obtain ⟨p, r, rfl, hp⟩ := List.eq_append_cons_of_mem hm
  obtain ⟨q, hq⟩ := hs
  rw [keyLine_eq, List.append_assoc, List.cons_append] at hq
  have hfront : p = st.strKey ++ [32] := by
    have := congrArg (List.takeWhile (· ≠ 61)) hq
    rwa [takeWhile_append_cons hp, takeWhile_append_cons hkey] at this
  rw [hfront] at hq ⊢
  exact ⟨r, rfl, q, (List.cons.inj (List.append_cancel_left hq)).2⟩

theorem getKey_append (k r : List UInt8) (hk : 61 ∉ k) (htrim : trim k = k) :
    getKey ((k ++ [32]) ++ 61 :: r) = k := by
  rw [getKey_eq, takeWhile_append_cons (by simpa using hk)]
  have hright : trimRight (k ++ [32]) = trimRight k := List.rdropWhile_concat_pos _ _ _ rfl
  rw [trim, hright, ← trim, htrim]

theorem getVal_append (k r : List UInt8) (hk : 61 ∉ k) : getVal (k ++ 61 :: r) = trim r := by
  have hpos : findFirstOf (ascii "=") (k ++ 61 :: r) = some k.length := by
    rw [findFirstOf, List.findIdx?_append, List.findIdx?_eq_none_iff.mpr]
    · simp [show ascii "=" = [61] from rfl, List.findIdx?_cons]
    · intro c hc
      simp only [show ascii "=" = [61] from rfl, List.mem_singleton, decide_eq_false_iff_not]
      rintro rfl
      exact hk hc
  rw [getVal, hpos]
  dsimp only
  rw [List.drop_append, List.drop_of_length_le (by simp), List.nil_append]
  simp only [Nat.add_sub_cancel_left, List.drop_succ_cons, List.drop_zero]
  rw [List.take_of_length_le (by simp)]

/-- The line of a key is no comment, and is taken for what its text looks like. -/
theorem parseLine_keyLine {st : IniKey} (h : LegalKey st) :
    parseLine ((keyLine st).take lineRoom) = classify (text ((keyLine st).take lineRoom)) := by
  obtain ⟨c, t, hk, hc⟩ := exists_cons_of_trim h.key.trimmed h.key.nonempty
  have hmem : ∀ x, x ∉ st.strKey → x ∉ st.strValue → x ≠ 32 → x ≠ 61 →
      x ∉ (keyLine st).take lineRoom := by
    intro x hkey hval h32 h61 hx
    have hx := List.mem_of_mem_take hx
    rw [keyLine_eq] at hx
    simp [hkey, hval, h32, h61] at hx
  have hcons : ∃ u, (keyLine st).take lineRoom = c :: u := by
    rw [keyLine_eq, hk]
    exact ⟨_, rfl⟩
  have hnote : ((keyLine st).take lineRoom).take 2 ≠ ascii "//" := by
    rw [List.take_take, show min 2 lineRoom = 2 from rfl, keyLine_eq, hk]
    cases t with
    | nil => simp [show ascii "//" = [47, 47] from rfl]
    | cons d t =>
      intro he
      refine h.key.comment ⟨[], t, ?_⟩
      rw [← he, hk]
      rfl
  obtain ⟨u, hu⟩ := hcons
  have hnul := hmem 0 h.key.nul h.value.nul (by decide) (by decide)
  have hhash := hmem 35 h.key.hash h.value.hash (by decide) (by decide)
  rw [hu] at hnul hhash hnote ⊢
  exact parseLine_eq hc hnul hhash hnote

/-- A line of a key is not taken for a node. It is taken for the key, with some
value, if the `=` is in its text, and is skipped otherwise. -/
theorem classify_keyLine {st : IniKey} (h : LegalKey st) {s : List UInt8}
    (hs : s <+: keyLine st) :
    classify s = if 61 ∈ s then .key (getKey s) (getVal s) else .skip := by
  have hnode : isNode s = false := by
    have hfirst : s.take 1 ≠ ascii "[" := by
      intro he
      obtain ⟨c, t, hk, -⟩ := exists_cons_of_trim h.key.trimmed h.key.nonempty
      have hpre : ascii "[" <+: keyLine st := he ▸ (List.take_prefix 1 s).trans hs
      rw [keyLine_eq, hk] at hpre
      have hc : 91 = c := (List.cons_prefix_cons.mp hpre).1
      exact h.key.opening (hk ▸ hc ▸ List.mem_cons_self)
    rw [isNode, decide_eq_false hfirst, Bool.false_and, Bool.false_and]
  unfold classify
  by_cases hne : s = []
  · rw [if_pos hne, if_neg (by simp [hne])]
  · simp only [if_neg hne, hnode, isKey_eq, Bool.false_eq_true, if_false, decide_eq_true_eq]

theorem length_trim_blank (r : List UInt8) : (trim (32 :: r)).length ≤ r.length := by
  have hpre := trimRight_isPrefix (32 :: r)
  cases hs : trimRight (32 :: r) with
  | nil => simp [trim, hs, trimLeft]
  | cons c u =>
    rw [hs] at hpre
    obtain ⟨rfl, hu⟩ := List.cons_prefix_cons.mp hpre
    rw [trim, hs, trimLeft, List.dropWhile_cons_of_pos rfl]
    exact (List.dropWhile_sublist _).length_le.trans hu.length_le

/-- **What a line of a key is taken for has no slash and fits the buffer.** -/
theorem fits_of_parseLine_keyLine {st : IniKey} (h : LegalKey st) {k v : List UInt8}
    (hp : parseLine ((keyLine st).take lineRoom) = .key k v) (hv : v ≠ []) :
    KeyFits ⟨k, v⟩ := by
  set s := text ((keyLine st).take lineRoom) with hs
  have hpre : s <+: (keyLine st).take lineRoom := text_isPrefix _
  have hline : s <+: keyLine st := hpre.trans (List.take_prefix _ _)
  have hslash : 47 ∉ s := slash_notMem_text _
  rw [parseLine_keyLine h, classify_keyLine h hline] at hp
  split_ifs at hp with hm
  obtain ⟨r, hr, hrv⟩ := exists_of_isPrefix_keyLine h.equals hline hm
  have hkey : 61 ∉ st.strKey ++ [32] := by simpa using h.equals
  obtain ⟨hk, hval⟩ := Line.key.inj hp
  rw [hr, getKey_append _ _ h.equals h.key.trimmed] at hk
  rw [hr, getVal_append _ _ hkey] at hval
  rw [hr] at hslash hpre
  have hlen := hpre.length_le
  cases r with
  | nil => exact absurd hval.symm hv
  | cons b r =>
    obtain ⟨rfl, -⟩ := List.cons_prefix_cons.mp hrv
    have hle := length_trim_blank r
    rw [hval] at hle
    simp only [List.length_append, List.length_cons, List.length_nil, List.length_take] at hlen
    have hroom := min_le_left lineRoom (keyLine st).length
    have hsub : ∀ x ∈ v, x ∈ 32 :: r := fun x hx => by
      rw [← hval] at hx
      exact (trimRight_isPrefix _).subset ((List.dropWhile_sublist _).subset hx)
    refine ⟨fun hx => hslash ?_, fun hx => hslash ?_, ?_⟩
    · rw [← hk] at hx
      exact List.mem_append_left _ (List.mem_append_left _ hx)
    · exact List.mem_append_right _ (List.mem_cons_of_mem _ (hsub 47 hx))
    · rw [← hk]
      show st.strKey.length + v.length ≤ 1019
      unfold lineRoom at hroom hlen
      omega

/-- **A line of a key that fits is taken for the key and its value.** -/
theorem parseLine_of_keyFits {st : IniKey} (h : LegalKey st) (hfit : KeyFits st) :
    parseLine ((keyLine st).take lineRoom) = .key st.strKey st.strValue := by
  obtain ⟨hk, hv, hlen⟩ := hfit
  obtain ⟨t, c, hval, hc⟩ := exists_concat_of_trim h.value.trimmed h.value.nonempty
  have htake : (keyLine st).take lineRoom = keyLine st := by
    refine List.take_of_length_le ?_
    simp only [keyLine_eq, List.length_append, List.length_cons, List.length_nil, lineRoom]
    omega
  have hslash : 47 ∉ keyLine st := by
    rw [keyLine_eq]
    simp [hk, hv]
  have htext : text (keyLine st) = keyLine st := by
    have hend : keyLine st = (st.strKey ++ [32] ++ 61 :: 32 :: t) ++ c :: [] := by
      rw [keyLine_eq, hval]
      simp
    rw [text, takeWhile_of_notMem hslash, hend, trimRight_append_cons hc]
    rfl
  have hkey : 61 ∉ st.strKey ++ [32] := by simpa using h.equals
  have htrim : trim (32 :: st.strValue) = st.strValue := by
    have hright : trimRight (32 :: st.strValue) = 32 :: st.strValue := by
      rw [hval, ← List.cons_append, trimRight_append_cons hc]
      rfl
    rw [trim, hright, trimLeft, List.dropWhile_cons_of_pos rfl]
    exact (trim_eq_self h.value.trimmed).2
  rw [parseLine_keyLine h, htake, htext, classify_keyLine h (List.prefix_refl _),
    if_pos (by simp [keyLine_eq]), keyLine_eq, getKey_append _ _ h.equals h.key.trimmed,
    getVal_append _ _ hkey, htrim]

end IniStore
