import QService.Host
import QService.Ini.File

/-!
# Tables in files

`CTableFile` reads a file line by line. The first line that is not empty and no
comment has the names of the columns, and each line behind it is a row, whose cells are
bound to the names from the left. Empty cells at the end of the header are no columns:
`getHead` counts them, and the loops leave as many cells out at the end of
whatever they go through.

That is right for the header. A row has ends of its own: one without the empty
cells of the header loses as many of its columns, and one that has even fewer cells than
the header has empty ones makes the difference wrap, and keeps all of them.
`linesUp_iff` says which rows line up with their header.
-/

namespace TableFile

open QString

/-! ## The code -/

/-- `getline(pBuffer, sizeof(pBuffer) - 1)` for a buffer of `Q_ONEK * 2` bytes: the last one
is for the NUL. -/
def lineRoom : ℕ := 2 * 1024 - 1 - 1

/-- What is in `pBuffer` in each round of the loops of `Parse`, which go on while the stream is
good. -/
def buffers : ℕ → List UInt8 → List (List UInt8)
  | 0, _ => []
  | fuel + 1, s =>
    match IniStore.getline lineRoom s with
    | (buf, rest, true) => buf :: buffers fuel rest
    | (buf, _, false) => [buf]

/-- `CTableFile::checkNote`. -/
def checkNote (strMsg : List UInt8) : Bool :=
  strMsg.take 2 = ascii "//" || strMsg.take 1 = ascii "#"

/-- A row: the names and their values. -/
abbrev Row := List (List UInt8 × List UInt8)

/-- `std::map::insert`, which keeps the value that is there. -/
def insert (mapVal : Row) (name val : List UInt8) : Row :=
  if (mapVal.lookup name).isSome then mapVal else mapVal ++ [(name, val)]

/-- `m_iRemoveCount`: the empty cells at the end. -/
def removeCount (lstTableHead : List (List UInt8)) : ℕ :=
  (lstTableHead.reverse.takeWhile (· = [])).length

/-- The loop of `checkHead`, with `iCount`. -/
def checkHeadLoop (bound : ℕ) : ℕ → List (List UInt8) → Bool
  | _, [] => true
  | iCount, cell :: cells =>
    if bound ≤ iCount then true
    else if cell = [] then false
    else checkHeadLoop bound (iCount + 1) cells

/-- `CTableFile::checkHead`. -/
def checkHead (w : Width) (lstTableHead : List (List UInt8)) (iRemoveCount : ℕ) : Bool :=
  lstTableHead ≠ [] && checkHeadLoop (w.subSize lstTableHead.length iRemoveCount) 0 lstTableHead

/-- The loop of `parseHead`, with `iCount` and the names so far, which must not repeat. -/
def parseHeadLoop (bound : ℕ) :
    ℕ → List (List UInt8) → List (List UInt8) → Option (List (List UInt8))
  | _, [], mapTableHead => some mapTableHead
  | iCount, cell :: cells, mapTableHead =>
    if bound ≤ iCount then some mapTableHead
    else if trim cell ∈ mapTableHead then none
    else parseHeadLoop bound (iCount + 1) cells (mapTableHead ++ [trim cell])

/-- `CTableFile::getHead`, with `parseHead`: `m_iRemoveCount` and the names. -/
def getHead (w : Width) (flag strHead : List UInt8) : Option (ℕ × List (List UInt8)) :=
  let lstTableHead := split strHead flag
  let iRemoveCount := removeCount lstTableHead
  if checkHead w lstTableHead iRemoveCount then
    (parseHeadLoop (w.subSize lstTableHead.length iRemoveCount) 0 lstTableHead []).map
      (iRemoveCount, ·)
  else none

/-- The second loop of `getValue`, with `iCount`, which is also `iIndex`, and the names from there
on. -/
def bindLoop (bound : ℕ) : ℕ → List (List UInt8) → List (List UInt8) → Row → Row
  | iCount, cell :: lstValue, name :: names, mapVal =>
    if bound ≤ iCount then mapVal
    else bindLoop bound (iCount + 1) lstValue names (insert mapVal name cell)
  | _, _, _, mapVal => mapVal

/-- `CTableFile::getValue`: the row that it appends, if not all cells are empty. Its first loop
trims the cells; without any name it does not run. -/
def getValue (w : Width) (flag : List UInt8) (iRemoveCount : ℕ)
    (mapTableHead : List (List UInt8)) (strValue : List UInt8) : Option Row :=
  let lstValue := split strValue flag
  if mapTableHead = [] ∨ ∀ cell ∈ lstValue, trim cell = [] then none
  else some (bindLoop (w.subSize lstValue.length iRemoveCount) 0 (lstValue.map trim) mapTableHead [])

/-- The first loop of `Parse`: the header, and what is left for the second loop. -/
def headLoop (w : Width) (flag : List UInt8) :
    List (List UInt8) → Option ((ℕ × List (List UInt8)) × List (List UInt8))
  | [] => none
  | pBuffer :: bs =>
    let strTmp := trim (cString pBuffer)
    if strTmp = [] ∨ checkNote strTmp then headLoop w flag bs
    else (getHead w flag strTmp).map (·, bs)

/-- A round of the second loop of `Parse`: the row that it appends. -/
def valueRound (w : Width) (flag : List UInt8) (head : ℕ × List (List UInt8))
    (pBuffer : List UInt8) : Option Row :=
  let strTmp := cString pBuffer
  if strTmp = [] ∨ checkNote strTmp then none
  else getValue w flag head.1 head.2 strTmp

/-- The rounds of the second loop of `Parse`, for the bytes of the file. -/
def rounds (w : Width) (flag file : List UInt8) : Option (List (Option Row)) :=
  (headLoop w flag (buffers (file.length + 1) file)).map fun (head, bs) =>
    bs.map (valueRound w flag head)

/-- `CTableFile::Parse`: `m_lstAllValue`, if it returns `Q_RTN_OK`. -/
def parse (w : Width) (flag file : List UInt8) : Option (List Row) :=
  (rounds w flag file).map List.reduceOption

example : parse .bits64 (ascii ",") (ascii "a,b,\n#\n1,2,\n3 , 4,5\n")
    = some [[(ascii "a", ascii "1"), (ascii "b", ascii "2")],
      [(ascii "a", ascii "3"), (ascii "b", ascii "4")]] := by
  decide +kernel

/-! ## The lines that are read -/

/-- Of the lines of a file, what the buffer holds: each line up to the first that does not fit, of
which it holds the start. -/
def readLines : List (List UInt8) → List (List UInt8)
  | [] => []
  | l :: ls => if l.length ≤ lineRoom then l :: readLines ls else [l.take lineRoom]

/-- The last line has no end. -/
theorem getline_last {l : List UInt8} (hl : 10 ∉ l) (room : ℕ) :
    (IniStore.getline room l).1 = l.take room ∧ (IniStore.getline room l).2.2 = false := by
  induction l generalizing room with
  | nil =>
    rw [IniStore.getline, List.take_nil]
    exact ⟨rfl, rfl⟩
  | cons c l ih =>
    rw [List.mem_cons, not_or] at hl
    cases room with
    | zero =>
      rw [IniStore.getline, if_neg (Ne.symm hl.1)]
      exact ⟨rfl, rfl⟩
    | succ room =>
      obtain ⟨h₁, h₂⟩ := ih hl.2 room
      rw [IniStore.getline, if_neg (Ne.symm hl.1)]
      exact ⟨congrArg (c :: ·) h₁, h₂⟩

/-- A line that is not followed by another one is the last that is read. -/
theorem buffers_of_not_good {fuel : ℕ} {s buf : List UInt8}
    (h : (IniStore.getline lineRoom s).1 = buf ∧ (IniStore.getline lineRoom s).2.2 = false) :
    buffers (fuel + 1) s = [buf] := by
  rw [buffers]
  generalize IniStore.getline lineRoom s = r at h
  obtain ⟨buf', rest, good⟩ := r
  obtain ⟨rfl, hgood⟩ := h
  cases hgood
  rfl

/-- **What is read of a file** are its lines. -/
theorem buffers_eq {fuel : ℕ} {s : List UInt8} (hf : s.length < fuel) :
    buffers fuel s = readLines (pieces [10] s) := by
  induction fuel generalizing s with
  | zero => exact absurd hf (Nat.not_lt_zero _)
  | succ fuel ih =>
    by_cases hs : 10 ∈ s
    · obtain ⟨l, t, rfl, hl⟩ := List.eq_append_cons_of_mem hs
      have hpieces : pieces [10] (l ++ 10 :: t) = l :: pieces [10] t := by
        rw [show l ++ 10 :: t = l ++ [10] ++ t by simp,
          pieces_append (by simp) (selfDelimiting_singleton 10), pieces_of_notMem hl]
        rfl
      rw [hpieces, readLines]
      split_ifs with hlen
      · rw [buffers, IniStore.getline_of_le hl hlen]
        rw [List.length_append, List.length_cons] at hf
        exact congrArg (l :: ·) (ih (by omega))
      · exact buffers_of_not_good (IniStore.getline_of_lt hl (not_le.mp hlen) (10 :: t))
    · rw [pieces_of_notMem hs, buffers_of_not_good (getline_last hs lineRoom), readLines]
      split_ifs with hlen
      · rw [List.take_of_length_le hlen]
        rfl
      · rfl

/-- Lines that fit are read, and then the rest. -/
theorem readLines_append {ls ls' : List (List UInt8)} (h : ∀ l ∈ ls, l.length ≤ lineRoom) :
    readLines (ls ++ ls') = ls ++ readLines ls' := by
  induction ls with
  | nil => rfl
  | cons l ls ih =>
    rw [List.forall_mem_cons] at h
    rw [List.cons_append, readLines, if_pos h.1, ih h.2]
    rfl

/-- Nothing is read behind a line that does not fit. -/
theorem exists_readLines_append {ls : List (List UInt8)} (h : ¬∀ l ∈ ls, l.length ≤ lineRoom) :
    ∃ (fitting : List (List UInt8)) (l : List UInt8), fitting <+: ls ∧ fitting ≠ ls
      ∧ ∀ ls', readLines (ls ++ ls') = fitting ++ [l.take lineRoom] := by
  induction ls with
  | nil => exact absurd (fun _ h' => absurd h' List.not_mem_nil) h
  | cons l ls ih =>
    by_cases hl : l.length ≤ lineRoom
    · obtain ⟨fitting, l', hprefix, hne, hread⟩ :=
        ih fun h' => h (List.forall_mem_cons.mpr ⟨hl, h'⟩)
      refine ⟨l :: fitting, l', List.cons_prefix_cons.mpr ⟨rfl, hprefix⟩, ?_, fun ls' => ?_⟩
      · exact fun h' => hne (List.cons.inj h').2
      · rw [List.cons_append, readLines, if_pos hl, hread]
        rfl
    · refine ⟨[], l, List.nil_prefix, (List.cons_ne_nil l ls).symm, fun ls' => ?_⟩
      rw [List.cons_append, readLines, if_neg hl]
      rfl

/-! ## The header -/

theorem length_splitLoop_le (flag : List UInt8) (n : ℕ) (s : List UInt8) :
    (splitLoop flag n s).length ≤ n + 1 := by
  induction n generalizing s with
  | zero => exact le_rfl
  | succ n ih =>
    rw [splitLoop]
    cases find flag s with
    | none => exact Nat.le_add_left 1 _
    | some loc => exact Nat.succ_le_succ (ih _)

theorem length_split_le (s flag : List UInt8) : (split s flag).length ≤ s.length + 1 := by
  rw [split]
  split_ifs
  · exact Nat.zero_le _
  · exact length_splitLoop_le flag _ s

section Header

variable {cells : List (List UInt8)}

/-- **The empty cells at the end are counted.** -/
theorem removeCount_eq (h : [] ∉ cells) (padding : ℕ) :
    removeCount (cells ++ List.replicate padding []) = padding := by
  have hempty : ∀ cell ∈ List.replicate padding ([] : List UInt8), decide (cell = []) = true :=
    fun cell hcell => decide_eq_true (List.eq_of_mem_replicate hcell)
  have hcells : cells.reverse.takeWhile (· = []) = [] := by
    cases hrev : cells.reverse with
    | nil => rfl
    | cons cell rest =>
      have hcell : cell ∈ cells := List.mem_reverse.mp (hrev ▸ List.mem_cons_self)
      exact List.takeWhile_cons_of_neg fun h' => h (of_decide_eq_true h' ▸ hcell)
  rw [removeCount, List.reverse_append, List.reverse_replicate,
    List.takeWhile_append_of_pos hempty, hcells, List.append_nil, List.length_replicate]

theorem checkHeadLoop_eq (h : [] ∉ cells) (iCount : ℕ) (rest : List (List UInt8)) :
    checkHeadLoop (iCount + cells.length) iCount (cells ++ rest) = true := by
  induction cells generalizing iCount with
  | nil =>
    cases rest with
    | nil => rfl
    | cons cell rest => exact if_pos le_rfl
  | cons cell cells ih =>
    rw [List.mem_cons, not_or] at h
    have hcount : iCount + (cell :: cells).length = iCount + 1 + cells.length := by
      rw [List.length_cons]
      omega
    rw [List.cons_append, checkHeadLoop, hcount, if_neg (by omega), if_neg (Ne.symm h.1)]
    exact ih h.2 (iCount + 1)

theorem parseHeadLoop_eq {names : List (List UInt8)} (h : (names ++ cells.map trim).Nodup)
    (iCount : ℕ) (rest : List (List UInt8)) :
    parseHeadLoop (iCount + cells.length) iCount (cells ++ rest) names
      = some (names ++ cells.map trim) := by
  induction cells generalizing iCount names with
  | nil =>
    rw [List.map_nil, List.append_nil]
    cases rest with
    | nil => rfl
    | cons cell rest => exact if_pos le_rfl
  | cons cell cells ih =>
    have hcount : iCount + (cell :: cells).length = iCount + 1 + cells.length := by
      rw [List.length_cons]
      omega
    have hassoc : names ++ (cell :: cells).map trim = names ++ [trim cell] ++ cells.map trim := by
      rw [List.map_cons, List.append_assoc]
      rfl
    rw [hassoc] at h ⊢
    have hnew : trim cell ∉ names := by
      intro hmem
      have hdisjoint := (List.nodup_append.mp (List.nodup_append.mp h).1).2.2
      exact hdisjoint _ hmem _ (List.mem_singleton_self _) rfl
    rw [List.cons_append, parseHeadLoop, hcount, if_neg (by omega), if_neg hnew]
    exact ih h (iCount + 1)

/-- **What a header gives**: the number of its empty cells, and its names. -/
theorem getHead_eq (w : Width) {flag strHead : List UInt8} {padding : ℕ}
    (hcells : split strHead flag = cells ++ List.replicate padding []) (hne : strHead ≠ [])
    (hflag : flag ≠ []) (hempty : [] ∉ cells) (hnodup : (cells.map trim).Nodup) :
    getHead w flag strHead = some (padding, cells.map trim) := by
  have hbound : w.subSize (cells ++ List.replicate padding []).length padding
      = 0 + cells.length := by
    rw [List.length_append, List.length_replicate, Width.subSize_of_le (Nat.le_add_left _ _)]
    omega
  have hlist : cells ++ List.replicate padding [] ≠ [] := by
    obtain ⟨piece, rest, hpieces⟩ := exists_pieces hflag strHead
    rw [← hcells, split_eq_pieces hflag hne, hpieces]
    exact List.cons_ne_nil _ _
  have hcheck : checkHead w (cells ++ List.replicate padding []) padding = true := by
    rw [checkHead, hbound, checkHeadLoop_eq hempty, Bool.and_true]
    exact decide_eq_true hlist
  rw [getHead, hcells, removeCount_eq hempty, if_pos hcheck, hbound,
    parseHeadLoop_eq (by rwa [List.nil_append])]
  rfl

end Header

/-! ## The rows -/

/-- A name that is new is put at the end. -/
theorem insert_of_notMem {mapVal : Row} {name : List UInt8} (h : name ∉ mapVal.map Prod.fst)
    (val : List UInt8) : insert mapVal name val = mapVal ++ [(name, val)] := by
  refine if_neg ?_
  rw [Option.not_isSome_iff_eq_none, List.lookup_eq_none_iff]
  intro p hmem
  refine bne_iff_ne.mpr ?_
  rintro rfl
  exact h (List.mem_map_of_mem hmem)

/-- **Names and cells are bound in pairs**, up to the bound. -/
theorem bindLoop_eq (bound iCount : ℕ) (lstValue : List (List UInt8)) {names : List (List UInt8)}
    {mapVal : Row} (h : (mapVal.map Prod.fst ++ names).Nodup) :
    bindLoop bound iCount lstValue names mapVal
      = mapVal ++ names.zip (lstValue.take (bound - iCount)) := by
  induction lstValue generalizing iCount names mapVal with
  | nil =>
    rw [List.take_nil, List.zip_nil_right, List.append_nil]
    cases names <;> rfl
  | cons cell lstValue ih =>
    cases names with
    | nil =>
      rw [List.zip_nil_left, List.append_nil]
      rfl
    | cons name names =>
      rw [bindLoop]
      split_ifs with hbound
      · rw [Nat.sub_eq_zero_of_le hbound, List.take_zero, List.zip_nil_right, List.append_nil]
      · have hnew : name ∉ mapVal.map Prod.fst := fun hmem =>
          (List.nodup_append.mp h).2.2 _ hmem _ List.mem_cons_self rfl
        have hrest : bound - iCount = bound - (iCount + 1) + 1 := by omega
        have hnodup : ((mapVal ++ [(name, cell)]).map Prod.fst ++ names).Nodup := by
          rwa [List.map_append, List.append_assoc]
        rw [insert_of_notMem hnew, ih (iCount + 1) hnodup, hrest, List.take_succ_cons,
          List.zip_cons_cons, List.append_assoc]
        rfl

/-- What is bound to the `j`-th name. -/
theorem lookup_zip {names vals : List (List UInt8)} (h : names.Nodup) {j : ℕ} {name : List UInt8}
    (hj : names[j]? = some name) : (names.zip vals).lookup name = vals[j]? := by
  induction names generalizing vals j with
  | nil => cases hj
  | cons first names ih =>
    rw [List.nodup_cons] at h
    cases vals with
    | nil => simp
    | cons val vals =>
      rw [List.zip_cons_cons, List.lookup_cons]
      cases j with
      | zero =>
        cases hj
        rw [beq_self_eq_true]
        rfl
      | succ j =>
        rw [List.getElem?_cons_succ] at hj
        have hne : name ≠ first := fun h' => h.1 (h' ▸ List.mem_of_getElem? hj)
        rw [beq_eq_false_iff_ne.mpr hne, List.getElem?_cons_succ]
        exact ih h.2 hj

/-! ## Tables -/

/-- A line that is no comment and has a cell that is not empty. -/
def IsData (flag line : List UInt8) : Prop :=
  checkNote (cString line) = false ∧ ∃ cell ∈ split (cString line) flag, trim cell ≠ []

instance (flag line : List UInt8) : Decidable (IsData flag line) :=
  inferInstanceAs (Decidable (_ ∧ _))

/-- **A file with a header and a row.** The lines before the header are empty or comments, the
header has the cells of its names and then some that are empty, and the row is one of the lines
behind it and has at least as many cells as there are names. -/
structure Table (flag file : List UInt8) where
  before : List (List UInt8)
  header : List UInt8
  middle : List (List UInt8)
  row : List UInt8
  after : List (List UInt8)
  lines_eq : pieces [10] file = before ++ header :: (middle ++ row :: after)
  skipped : ∀ l ∈ before, trim (cString l) = [] ∨ checkNote (trim (cString l)) = true
  cells : List (List UInt8)
  padding : ℕ
  header_note : checkNote (trim (cString header)) = false
  header_cells : split (trim (cString header)) flag = cells ++ List.replicate padding []
  names_nodup : (cells.map trim).Nodup
  names_ne : [] ∉ cells.map trim
  row_data : IsData flag row
  cells_le : cells.length ≤ (split (cString row) flag).length

namespace Table

variable {flag file : List UInt8} (w : Width) (T : Table flag file)

/-- The names of the columns. -/
def names : List (List UInt8) := T.cells.map trim

/-- The trimmed cells of the row. -/
def values : List (List UInt8) := (split (cString T.row) flag).map trim

/-- The trimmed cells of what is read of the row. -/
def readValues : List (List UInt8) := (split (cString (T.row.take lineRoom)) flag).map trim

/-- What `Parse` stores for the row. -/
def stored : Option Row := ((rounds w flag file).bind (·[T.middle.length]?)).join

/-- **The row lines up with its header**: its cells are bound to the names of their columns. -/
def LinesUp : Prop :=
  ∀ (j : ℕ) (name : List UInt8), T.names[j]? = some name →
    (T.stored w).bind (·.lookup name) = T.values[j]?

/-- The lines up to the row fit the buffer, and so do the cells of the row that have a name, and the
row has as many cells at its end as the header has empty ones, or fewer cells than these are. -/
def Fits : Prop :=
  (∀ l ∈ T.before ++ T.header :: T.middle, l.length ≤ lineRoom)
    ∧ IsData flag (T.row.take lineRoom)
    ∧ T.readValues.take T.cells.length = T.values.take T.cells.length
    ∧ (T.cells.length + T.padding ≤ T.readValues.length ∨ T.readValues.length < T.padding)

theorem headLoop_append {before : List (List UInt8)}
    (h : ∀ l ∈ before, trim (cString l) = [] ∨ checkNote (trim (cString l)) = true)
    (bs : List (List UInt8)) : headLoop w flag (before ++ bs) = headLoop w flag bs := by
  induction before with
  | nil => rfl
  | cons l before ih =>
    rw [List.forall_mem_cons] at h
    rw [List.cons_append, headLoop, if_pos h.1, ih h.2]

theorem length_lt_of_headLoop {bs rest : List (List UInt8)} {head : ℕ × List (List UInt8)}
    (h : headLoop w flag bs = some (head, rest)) : rest.length < bs.length := by
  induction bs with
  | nil => cases h
  | cons b bs ih =>
    rw [headLoop] at h
    split_ifs at h
    · exact (ih h).trans (Nat.lt_succ_self _)
    · obtain ⟨head', -, heq⟩ := Option.map_eq_some_iff.mp h
      cases heq
      exact Nat.lt_succ_self _

/-- **A line that does not fit hides the row.** -/
theorem stored_of_not_fit
    (h : ¬∀ l ∈ T.before ++ T.header :: T.middle, l.length ≤ lineRoom) : T.stored w = none := by
  obtain ⟨fitting, l, hprefix, hne, hread⟩ := exists_readLines_append h
  have hbuffers : buffers (file.length + 1) file = fitting ++ [l.take lineRoom] := by
    rw [buffers_eq (Nat.lt_succ_self _), T.lines_eq, ← hread (T.row :: T.after), List.append_assoc]
    rfl
  -- what is read behind the lines that are skipped is no longer than the lines up to the row
  obtain ⟨skip, t, hfitting, hskip, ht⟩ : ∃ skip t, fitting = skip ++ t
      ∧ (∀ l ∈ skip, trim (cString l) = [] ∨ checkNote (trim (cString l)) = true)
      ∧ t.length ≤ T.middle.length := by
    rcases List.prefix_or_prefix_of_prefix hprefix (List.prefix_append T.before _) with hp | hp
    · exact ⟨fitting, [], (List.append_nil _).symm, fun l hl => T.skipped l (hp.subset hl),
        Nat.zero_le _⟩
    · obtain ⟨t, rfl⟩ := hp
      have ht := (List.prefix_append_right_inj T.before).mp hprefix
      have hlen : t.length ≠ (T.header :: T.middle).length := fun heq =>
        hne (congrArg (T.before ++ ·) (ht.eq_of_length heq))
      have hle := ht.length_le
      rw [List.length_cons] at hle hlen
      exact ⟨T.before, t, rfl, T.skipped, by omega⟩
  rw [stored, rounds, hbuffers, hfitting, List.append_assoc, headLoop_append w hskip]
  cases hhead : headLoop w flag (t ++ [l.take lineRoom]) with
  | none => rfl
  | some r =>
    obtain ⟨head, rest⟩ := r
    have hlt := length_lt_of_headLoop w hhead
    rw [List.length_append, List.length_singleton] at hlt
    have hnone : (rest.map (valueRound w flag head))[T.middle.length]? = none :=
      List.getElem?_eq_none (by rw [List.length_map]; omega)
    rw [Option.map_some, Option.bind_some, hnone]
    rfl

/-- The names are there, so there are cells and a flag. -/
theorem header_ne (h : T.cells ≠ []) : trim (cString T.header) ≠ [] ∧ flag ≠ [] := by
  have hne : split (trim (cString T.header)) flag ≠ [] := by
    rw [T.header_cells]
    exact fun h' => h (List.append_eq_nil_iff.mp h').1
  constructor
  · exact fun h' => hne (if_pos (.inr h'))
  · exact fun h' => hne (if_pos (.inl h'))

theorem cells_ne : [] ∉ T.cells := fun h => T.names_ne (List.mem_map_of_mem (f := trim) h)

/-- **What is stored, if the lines fit**: the row of what is read. -/
theorem stored_of_fit (hcells : T.cells ≠ [])
    (h : ∀ l ∈ T.before ++ T.header :: T.middle, l.length ≤ lineRoom) :
    T.stored w = valueRound w flag (T.padding, T.names) (T.row.take lineRoom) := by
  obtain ⟨hne, hflag⟩ := T.header_ne hcells
  obtain ⟨more, hmore⟩ : ∃ more, readLines (T.row :: T.after) = T.row.take lineRoom :: more := by
    rw [readLines]
    split_ifs with hlen
    · exact ⟨_, by rw [List.take_of_length_le hlen]⟩
    · exact ⟨[], rfl⟩
  have hbuffers : buffers (file.length + 1) file
      = T.before ++ T.header :: (T.middle ++ T.row.take lineRoom :: more) := by
    have hlines : pieces [10] file = (T.before ++ T.header :: T.middle) ++ T.row :: T.after := by
      rw [T.lines_eq, List.append_assoc]
      rfl
    rw [buffers_eq (Nat.lt_succ_self _), hlines, readLines_append h, hmore, List.append_assoc]
    rfl
  have hhead : getHead w flag (trim (cString T.header)) = some (T.padding, T.names) :=
    getHead_eq w T.header_cells hne hflag T.cells_ne T.names_nodup
  have hskip : ¬(trim (cString T.header) = [] ∨ checkNote (trim (cString T.header)) = true) := by
    rw [not_or, T.header_note]
    exact ⟨hne, Bool.false_ne_true⟩
  rw [stored, rounds, hbuffers, headLoop_append w T.skipped, headLoop, if_neg hskip, hhead,
    Option.map_some, Option.map_some, Option.bind_some]
  dsimp only
  rw [List.map_append, List.map_cons, List.getElem?_append_right (by rw [List.length_map]),
    List.length_map, Nat.sub_self]
  rfl

/-- What a line is stored as, if there are names. -/
theorem valueRound_eq {iRemoveCount : ℕ} {names : List (List UInt8)} (hnames : names ≠ [])
    (hnodup : names.Nodup) {line : List UInt8} (h : IsData flag line) :
    valueRound w flag (iRemoveCount, names) line
      = some (names.zip (((split (cString line) flag).map trim).take
        (w.subSize (split (cString line) flag).length iRemoveCount))) := by
  obtain ⟨hnote, cell, hcell, hne⟩ := h
  have hskip : ¬(cString line = [] ∨ checkNote (cString line) = true) := by
    rw [not_or, hnote]
    refine ⟨fun h' => ?_, Bool.false_ne_true⟩
    rw [split, if_pos (.inr h')] at hcell
    exact List.not_mem_nil hcell
  rw [valueRound, if_neg hskip, getValue,
    if_neg (not_or.mpr ⟨hnames, fun hall => hne (hall cell hcell)⟩),
    bindLoop_eq _ _ _ (by rwa [List.map_nil, List.nil_append])]
  rfl

/-- A line that is not a row is not stored. -/
theorem valueRound_of_not_isData {head : ℕ × List (List UInt8)} {line : List UInt8}
    (h : ¬IsData flag line) : valueRound w flag head line = none := by
  rw [valueRound]
  split_ifs with hskip
  · rfl
  · rw [not_or, Bool.not_eq_true] at hskip
    refine if_pos (.inr fun cell hcell => ?_)
    by_contra hne
    exact h ⟨hskip.2, cell, hcell, hne⟩

/-- Lists that agree on their first elements. -/
theorem forall_getElem?_take_iff {a b : List (List UInt8)} {m bound : ℕ} (hb : m ≤ b.length) :
    (∀ j < m, (a.take bound)[j]? = b[j]?) ↔ a.take m = b.take m ∧ (m = 0 ∨ m ≤ bound) := by
  constructor
  · intro h
    have hbound : m = 0 ∨ m ≤ bound := by
      by_contra hnot
      have hlast := h (m - 1) (by omega)
      rw [List.getElem?_take_eq_none (by omega), List.getElem?_eq_getElem (by omega)] at hlast
      cases hlast
    refine ⟨List.ext_getElem? fun j => ?_, hbound⟩
    rcases Nat.lt_or_ge j m with hj | hj
    · rw [List.getElem?_take_of_lt hj, List.getElem?_take_of_lt hj, ← h j hj,
        List.getElem?_take_of_lt (by omega)]
    · rw [List.getElem?_take_eq_none hj, List.getElem?_take_eq_none hj]
  · rintro ⟨htake, hbound⟩ j hj
    rw [List.getElem?_take_of_lt (by omega), ← List.getElem?_take_of_lt (l := a) hj, htake,
      List.getElem?_take_of_lt hj]

/-- The row is stored as its cells under the names, up to the bound. -/
theorem linesUp_iff_take (hcells : T.cells ≠ []) {k : ℕ}
    (hstored : T.stored w = some (T.names.zip (T.readValues.take k))) :
    T.LinesUp w ↔ T.readValues.take T.cells.length = T.values.take T.cells.length
      ∧ T.cells.length ≤ k := by
  have hlen : T.names.length = T.cells.length := List.length_map _
  have hle : T.cells.length ≤ T.values.length := by
    rw [values, List.length_map]
    exact T.cells_le
  have hpos : T.cells.length ≠ 0 := fun h => hcells (List.length_eq_zero_iff.mp h)
  have hlookup : ∀ (j : ℕ) (name : List UInt8), T.names[j]? = some name →
      (T.stored w).bind (·.lookup name) = (T.readValues.take k)[j]? := by
    intro j name hj
    rw [hstored, Option.bind_some]
    exact lookup_zip T.names_nodup hj
  have hforall : T.LinesUp w ↔ ∀ j < T.cells.length, (T.readValues.take k)[j]? = T.values[j]? := by
    constructor
    · intro h j hj
      have hname := List.getElem?_eq_getElem (l := T.names) (hlen ▸ hj)
      rw [← hlookup j _ hname, h j _ hname]
    · intro h j name hname
      rw [hlookup j name hname]
      exact h j (hlen ▸ (List.getElem?_eq_some_iff.mp hname).1)
  rw [hforall, forall_getElem?_take_iff hle]
  exact and_congr_right fun _ => or_iff_right hpos

/-- A name has a value, so the row must be stored. -/
theorem not_linesUp_of_none (hcells : T.cells ≠ []) (hstored : T.stored w = none) :
    ¬T.LinesUp w := by
  intro h
  have hpos : 0 < T.cells.length := List.length_pos_of_ne_nil hcells
  have hnames : 0 < T.names.length := by rwa [names, List.length_map]
  have hvalue := h 0 _ (List.getElem?_eq_getElem hnames)
  have hlt : 0 < T.values.length := by
    rw [values, List.length_map]
    exact hpos.trans_le T.cells_le
  rw [hstored, Option.bind_none, List.getElem?_eq_getElem hlt] at hvalue
  cases hvalue

/-- A header that fits has few cells. -/
theorem padding_le (h : ∀ l ∈ T.before ++ T.header :: T.middle, l.length ≤ lineRoom) :
    T.padding ≤ lineRoom + 1 := by
  have hheader := h T.header (List.mem_append_right _ List.mem_cons_self)
  have hcells := congrArg List.length T.header_cells
  rw [List.length_append, List.length_replicate] at hcells
  calc T.padding ≤ (split (trim (cString T.header)) flag).length := by omega
    _ ≤ (trim (cString T.header)).length + 1 := length_split_le _ _
    _ ≤ T.header.length + 1 := Nat.succ_le_succ (((List.dropWhile_sublist _).length_le.trans
        (trimRight_isPrefix _).length_le).trans (length_cString_le _))
    _ ≤ lineRoom + 1 := Nat.succ_le_succ hheader

/-- **When a row lines up with its header**: no column has a name, or what is read of the file has
the row, and its cells are as many as those of the header or more, or fewer than the empty ones of
the header. -/
theorem linesUp_iff : T.LinesUp w ↔ T.cells = [] ∨ T.Fits := by
  by_cases hcells : T.cells = []
  · refine iff_of_true (fun j name hname => ?_) (.inl hcells)
    rw [names, hcells] at hname
    cases hname
  rw [or_iff_right hcells]
  by_cases hfit : ∀ l ∈ T.before ++ T.header :: T.middle, l.length ≤ lineRoom
  · have hstored := T.stored_of_fit w hcells hfit
    by_cases hdata : IsData flag (T.row.take lineRoom)
    · have hnames : T.names ≠ [] := by simpa [names] using hcells
      rw [valueRound_eq w hnames T.names_nodup hdata] at hstored
      rw [T.linesUp_iff_take w hcells hstored]
      have hpadding : T.padding ≤ 2047 := T.padding_le hfit
      have hm := w.two_pow_le_modulus
      have hlen : T.readValues.length
          = (split (cString (T.row.take lineRoom)) flag).length := List.length_map _
      have hpos := List.length_pos_of_ne_nil hcells
      have hle : T.readValues.take T.cells.length = T.values.take T.cells.length →
          T.cells.length ≤ T.readValues.length := by
        intro h
        have hlength := congrArg List.length h
        rw [List.length_take, List.length_take, values, List.length_map] at hlength
        have := T.cells_le
        omega
      rw [Fits, ← hlen]
      constructor
      · rintro ⟨htake, hbound⟩
        refine ⟨hfit, hdata, htake, ?_⟩
        rw [Width.subSize] at hbound
        split_ifs at hbound <;> omega
      · rintro ⟨-, -, htake, hcount⟩
        have := hle htake
        refine ⟨htake, ?_⟩
        rw [Width.subSize]
        split_ifs <;> omega
    · rw [valueRound_of_not_isData w hdata] at hstored
      exact iff_of_false (T.not_linesUp_of_none w hcells hstored) fun h => hdata h.2.1
  · exact iff_of_false (T.not_linesUp_of_none w hcells (T.stored_of_not_fit w hfit)) fun h =>
      hfit h.1

end Table

/-- Two columns and an empty cell behind a comment, and rows with a cell for each. -/
def fullRow : Table (ascii ",") (ascii "# columns\na,b,\n 1 ,2,3,\n4,5,\n") where
  before := [ascii "# columns"]
  header := ascii "a,b,"
  middle := [ascii " 1 ,2,3,"]
  row := ascii "4,5,"
  after := [ascii ""]
  lines_eq := by decide +kernel
  skipped := by decide +kernel
  cells := [ascii "a", ascii "b"]
  padding := 1
  header_note := by decide
  header_cells := by decide +kernel
  names_nodup := by decide
  names_ne := by decide
  row_data := by decide +kernel
  cells_le := by decide +kernel

/-- The last row has the empty cell too, and both its values are found under their names. -/
theorem linesUp_fullRow :
    fullRow.LinesUp .bits64
      ∧ (fullRow.stored .bits64).bind (·.lookup (ascii "a")) = some (ascii "4")
      ∧ (fullRow.stored .bits64).bind (·.lookup (ascii "b")) = some (ascii "5") := by
  have hlines : fullRow.LinesUp .bits64 := (Table.linesUp_iff .bits64 fullRow).mpr
    (.inr ⟨by decide +kernel, by decide +kernel, rfl, .inl (by decide +kernel)⟩)
  exact ⟨hlines, (hlines 0 (ascii "a") rfl).trans rfl, (hlines 1 (ascii "b") rfl).trans rfl⟩

/-- Two columns and an empty cell, and a row without the empty cell. -/
def paddedHead : Table (ascii ",") (ascii "a,b,\n1,2") where
  before := []
  header := ascii "a,b,"
  middle := []
  row := ascii "1,2"
  after := []
  lines_eq := by decide
  skipped _ h := by cases h
  cells := [ascii "a", ascii "b"]
  padding := 1
  header_note := by decide
  header_cells := by decide
  names_nodup := by decide
  names_ne := by decide
  row_data := by decide
  cells_le := by decide

/-- **The last column of that row is lost.** -/
theorem not_linesUp :
    ¬∀ (w : Width) (flag file : List UInt8) (T : Table flag file), T.LinesUp w := by
  intro h
  have hb := h .bits64 (ascii ",") _ paddedHead 1 (ascii "b") rfl
  revert hb
  decide +kernel

end TableFile
