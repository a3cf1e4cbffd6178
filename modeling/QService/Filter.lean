import QService.CInt
import QService.Trie

/-!
# The word filter

`CFilter` keeps the words to be filtered in a trie, `checkHave` tells whether a
text has one in it, and `Filter` writes `*` over those it finds. Both scan the
text without failure links and know a word by a node without a child, so what
they find is what `Trie.scan` finds: words that begin at a start of the scan and
that no other word goes on from.

Hence the filter finds no word that is not there and touches nothing else
(`filter_sound`), and a filtered text has nothing left to find
(`filter_filter_iff`). It does miss words: those that a longer word goes on from,
and those that begin inside a piece that the scan took for the beginning of
another word (`filter_complete_iff`). And it keeps the start of a word in an `int`, so
that a word it finds at `2 ^ 31` or behind is masked from a place in front of the text
on (`filter_eq`).
-/

/-- `CFilter::FilterMap`. -/
abbrev FilterMap := Trie UInt8

/-- `CFilter`. -/
structure QFilter where
  pmapFilter : Option FilterMap
  deriving DecidableEq, Repr

namespace QFilter

/-! ## The code

A text and its length are a list, and a NULL pointer is an empty text, which is
refused like it. There is always memory for a node. -/

/-- `CFilter::CFilter`. -/
def new : QFilter := ⟨none⟩

/-- `CFilter::Clear`. -/
def clear (_ : QFilter) : QFilter := ⟨none⟩

/-- `CFilter::addFilterWord`. -/
def addFilterWord (F : QFilter) (pszWord : List UInt8) : Bool × QFilter :=
  if pszWord = [] then (false, F)
  else (true, ⟨some ((F.pmapFilter.getD .empty).insert pszWord)⟩)

/-- The loop of `checkHave`. -/
def checkLoop (root : FilterMap) : List UInt8 → FilterMap → Bool
  | [], _ => false
  | c :: pszWord, pSearchMap =>
    match pSearchMap.find c with
    | some itVal => if itVal.isEmpty then true else checkLoop root pszWord itVal
    | none =>
      match root.find c with
      | some itVal => if itVal.isEmpty then true else checkLoop root pszWord itVal
      | none => checkLoop root pszWord root

/-- `CFilter::checkHave`. -/
def checkHave (F : QFilter) (pszWord : List UInt8) : Bool :=
  if pszWord = [] then false
  else
    match F.pmapFilter with
    | none => false
    | some root => checkLoop root pszWord root

/-- `memset(pWord + iBegain, cReplace, (size_t)(i + 1 - (size_t)iBegain))`: `none` is a write
outside of the text. -/
def mask (cReplace : UInt8) (iBegain : ℤ) (i : ℕ) (pWord : List UInt8) : Option (List UInt8) :=
  let iEnd : ℤ := iBegain + ((i : ℤ) + 1 - iBegain) % 2 ^ 64
  if 0 ≤ iBegain ∧ iEnd ≤ pWord.length then
    some (pWord.mapIdx fun j c => if iBegain ≤ j ∧ (j : ℤ) < iEnd then cReplace else c)
  else none

/-- The loop of `checkAndModify`, with the number of bytes still to come. The start is
an `int`. -/
def modifyLoop (root : FilterMap) (cReplace : UInt8) :
    ℕ → ℕ → ℤ → FilterMap → List UInt8 → Option (List UInt8)
  | 0, _, _, _, pWord => some pWord
  | n + 1, i, iBegain, pSearchMap, pWord =>
    match pWord[i]? with
    | none => some pWord
    | some c =>
      match pSearchMap.find c with
      | some itVal =>
        let iBegain := if iBegain = -1 then CInt.int.cast i else iBegain
        if itVal.isEmpty then
          (mask cReplace iBegain i pWord).bind (modifyLoop root cReplace n (i + 1) (-1) root)
        else modifyLoop root cReplace n (i + 1) iBegain itVal pWord
      | none =>
        match root.find c with
        | some itVal =>
          let iBegain := CInt.int.cast i
          if itVal.isEmpty then
            (mask cReplace iBegain i pWord).bind (modifyLoop root cReplace n (i + 1) (-1) root)
          else modifyLoop root cReplace n (i + 1) iBegain itVal pWord
        | none => modifyLoop root cReplace n (i + 1) (-1) root pWord

/-- `CFilter::checkAndModify`. -/
def checkAndModify (F : QFilter) (cReplace : UInt8) (pWord : List UInt8) :
    Option (List UInt8) :=
  if pWord = [] then some pWord
  else
    match F.pmapFilter with
    | none => some pWord
    | some root => modifyLoop root cReplace pWord.length 0 (-1) root pWord

/-- `'*'`. -/
def star : UInt8 := 42

/-- `CFilter::Filter`, which returns unless it writes outside of the text. -/
def filter (F : QFilter) (pWord : List UInt8) : Option (List UInt8) := F.checkAndModify star pWord

/-- A filter to which some words have been added. -/
def ofWords (W : List (List UInt8)) : QFilter := W.foldl (fun F w => (F.addFilterWord w).2) new

/-! ## The loops scan -/

variable {W : List (List UInt8)} {text : List UInt8}

/-- The words that `addFilterWord` accepts make the trie. -/
theorem pmapFilter_ofWords (hW : ∀ w ∈ W, w ≠ []) :
    (ofWords W).pmapFilter = if W = [] then none else some (Trie.ofWords W) := by
  suffices h : ∀ F : QFilter, (W.foldl (fun F w => (F.addFilterWord w).2) F).pmapFilter
      = if W = [] then F.pmapFilter
        else some (W.foldl Trie.insert (F.pmapFilter.getD .empty)) from h new
  induction W with
  | nil => exact fun F => rfl
  | cons w W ih =>
    intro F
    have hw : w ≠ [] := hW w List.mem_cons_self
    rw [if_neg (List.cons_ne_nil w W), List.foldl_cons,
      ih fun w' hw' => hW w' (List.mem_cons_of_mem w hw'), addFilterWord, if_neg hw]
    split
    · rename_i hnil
      rw [hnil]
      rfl
    · rfl

/-- An empty word is refused. -/
theorem ofWords_filter (W : List (List UInt8)) :
    ofWords (W.filter (· ≠ [])) = ofWords W := by
  suffices h : ∀ F : QFilter, (W.filter (· ≠ [])).foldl (fun F w => (F.addFilterWord w).2) F
      = W.foldl (fun F w => (F.addFilterWord w).2) F from h new
  induction W with
  | nil => exact fun F => rfl
  | cons w W ih =>
    intro F
    by_cases hw : w = []
    · rw [List.filter_cons_of_neg (by simpa using hw), ih, List.foldl_cons, addFilterWord,
        if_pos hw]
    · rw [List.filter_cons_of_pos (by simpa using hw), List.foldl_cons, List.foldl_cons, ih]

/-- **`checkHave` scans** and stops at the first hit. -/
theorem checkLoop_eq (root : FilterMap) (t : List UInt8) (i b : ℕ) (p : FilterMap) :
    checkLoop root t p = !(Trie.scan root t i b p).isEmpty := by
  induction t generalizing i b p with
  | nil => rfl
  | cons c t ih =>
    unfold checkLoop Trie.scan
    cases p.find c with
    | some q =>
      dsimp only
      split
      · rfl
      · exact ih _ _ _
    | none =>
      dsimp only
      cases root.find c with
      | some q =>
        dsimp only
        split
        · rfl
        · exact ih _ _ _
      | none => exact ih _ _ _

/-- **`checkHave` finds what a scan hits.** -/
theorem checkHave_iff (hW : ∀ w ∈ W, w ≠ []) :
    (ofWords W).checkHave text = true
      ↔ ∃ k, Trie.Hit W (text.drop (Trie.scanStart W text k)) := by
  unfold checkHave
  rw [pmapFilter_ofWords hW]
  by_cases htext : text = []
  · rw [if_pos htext, htext]
    refine iff_of_false Bool.false_ne_true ?_
    rintro ⟨k, w, hw, hpre, -⟩
    rw [List.drop_nil, List.prefix_nil] at hpre
    exact hW w hw hpre
  · rw [if_neg htext]
    by_cases hnil : W = []
    · rw [if_pos hnil, hnil]
      refine iff_of_false Bool.false_ne_true ?_
      rintro ⟨k, w, hw, -⟩
      cases hw
    · rw [if_neg hnil]
      dsimp only
      rw [checkLoop_eq _ _ 0 0, Bool.not_eq_true', List.isEmpty_eq_false_iff_exists_mem]
      constructor
      · rintro ⟨⟨x, y⟩, hxy⟩
        obtain ⟨k, hk, -⟩ := (Trie.mem_scan hW text 0).mp hxy
        exact ⟨k, hk⟩
      · rintro ⟨k, hk⟩
        exact ⟨_, (Trie.mem_scan hW text 0).mpr ⟨k, hk, rfl, rfl⟩⟩

/-- A start of `2 ^ 31` or more is negative as an `int`, but never -1. -/
theorem cast_int_eq {x : ℕ} (hx : x + 1 < 2 ^ 32) :
    CInt.int.cast x = (if x < 2 ^ 31 then (x : ℤ) else x - 2 ^ 32) ∧ CInt.int.cast x ≠ -1 := by
  have hcast : CInt.int.cast x = if x < 2 ^ 31 then (x : ℤ) else x - 2 ^ 32 := by
    have hmod : CInt.int.modulus = 4294967296 := by norm_num [CInt.modulus, CInt.int]
    have hsigned : CInt.int.signed = true := rfl
    rw [CInt.cast, if_pos hsigned, hmod, Int.bmod_def]
    split <;> split <;> omega
  refine ⟨hcast, ?_⟩
  rw [hcast]
  split <;> omega

/-- The text with the bytes from `x` to `y` replaced. -/
def put (cReplace : UInt8) (x y : ℕ) (pWord : List UInt8) : List UInt8 :=
  pWord.mapIdx fun j c => if x ≤ j ∧ j < y then cReplace else c

@[simp] theorem length_put (cReplace : UInt8) (x y : ℕ) (pWord : List UInt8) :
    (put cReplace x y pWord).length = pWord.length := List.length_mapIdx

theorem getElem?_put (cReplace : UInt8) (x y : ℕ) (pWord : List UInt8) (j : ℕ) :
    (put cReplace x y pWord)[j]?
      = pWord[j]?.map fun c => if x ≤ j ∧ j < y then cReplace else c := List.getElem?_mapIdx

/-- The bytes behind are as they were. -/
theorem drop_put (cReplace : UInt8) (x y : ℕ) (pWord : List UInt8) :
    (put cReplace x y pWord).drop y = pWord.drop y := by
  refine List.ext_getElem? fun j => ?_
  have hbehind : ¬ y + j < y := by omega
  rw [List.getElem?_drop, List.getElem?_drop, getElem?_put]
  simp [hbehind]

/-- **What is masked**: the bytes from the start up to the one that was read. A start that
is too large for an `int` is in front of the text. -/
theorem mask_eq (cReplace : UInt8) {x i : ℕ} {pWord : List UInt8} (hx : x ≤ i)
    (hi : i < pWord.length) (hlen : pWord.length < 2 ^ 32) :
    mask cReplace (CInt.int.cast x) i pWord
      = if x < 2 ^ 31 then some (put cReplace x (i + 1) pWord) else none := by
  unfold mask
  rw [(cast_int_eq (by omega)).1]
  by_cases hint : x < 2 ^ 31
  · have hend : (x : ℤ) + ((i : ℤ) + 1 - x) % 2 ^ 64 = (i + 1 : ℕ) := by
      rw [Int.emod_eq_of_lt (by omega) (by omega)]
      push_cast
      omega
    rw [if_pos hint, if_pos hint, hend, if_pos ⟨by omega, by omega⟩, put]
    simp only [Nat.cast_le, Nat.cast_lt]
  · rw [if_neg hint, if_neg hint, if_neg fun h => by omega]

/-- The remembered start of a scan: -1 stands for the present position. -/
def Remembers (iBegain : ℤ) (i b : ℕ) : Prop :=
  if iBegain = -1 then b = i else b ≤ i ∧ iBegain = CInt.int.cast b

/-- Mask hits one after the other. -/
def maskAll (cReplace : UInt8) (hits : List (ℕ × ℕ)) (pWord : List UInt8) : Option (List UInt8) :=
  hits.foldlM (fun pWord h => mask cReplace (CInt.int.cast h.1) (h.2 - 1) pWord) pWord

/-- **`checkAndModify` masks every hit of a scan.** -/
theorem modifyLoop_eq (root : FilterMap) (cReplace : UInt8) (n i b : ℕ) (iBegain : ℤ)
    (p : FilterMap) (pWord : List UInt8) (hlen : pWord.length < 2 ^ 32)
    (hn : i + n = pWord.length) (hb : Remembers iBegain i b) :
    modifyLoop root cReplace n i iBegain p pWord
      = maskAll cReplace (Trie.scan root (pWord.drop i) i b p) pWord := by
  induction n generalizing i b iBegain p pWord with
  | zero =>
    rw [List.drop_eq_nil_of_le (by omega)]
    rfl
  | succ n ih =>
    have hi : i < pWord.length := by omega
    have hstart : (if iBegain = -1 then CInt.int.cast i else iBegain) = CInt.int.cast b
        ∧ b ≤ i := by
      unfold Remembers at hb
      split at hb
      · rename_i h
        rw [if_pos h, hb]
        exact ⟨rfl, le_rfl⟩
      · rename_i h
        rw [if_neg h]
        exact ⟨hb.2, hb.1⟩
    have hnone : Remembers (-1) (i + 1) (i + 1) := by
      unfold Remembers
      rw [if_pos rfl]
    -- a hit masks what was scanned, and a start that is remembered stays
    have hhit : ∀ x, x ≤ i →
        (mask cReplace (CInt.int.cast x) i pWord).bind
            (modifyLoop root cReplace n (i + 1) (-1) root)
          = maskAll cReplace
              ((x, i + 1) :: Trie.scan root (pWord.drop (i + 1)) (i + 1) (i + 1) root) pWord := by
      intro x hx
      rw [maskAll, List.foldlM_cons]
      dsimp only
      rw [Nat.add_sub_cancel, mask_eq cReplace hx hi hlen]
      split
      · show modifyLoop root cReplace n (i + 1) (-1) root (put cReplace x (i + 1) pWord)
          = maskAll cReplace _ (put cReplace x (i + 1) pWord)
        rw [ih (i + 1) (i + 1) (-1) root _ (by rwa [length_put]) (by rw [length_put]; omega) hnone,
          drop_put]
      · rfl
    have hgo : ∀ x q, x ≤ i → modifyLoop root cReplace n (i + 1) (CInt.int.cast x) q pWord
        = maskAll cReplace (Trie.scan root (pWord.drop (i + 1)) (i + 1) x q) pWord := by
      intro x q hx
      refine ih (i + 1) x _ q pWord hlen (by omega) ?_
      unfold Remembers
      rw [if_neg (cast_int_eq (by omega)).2]
      exact ⟨by omega, rfl⟩
    unfold modifyLoop
    rw [List.getElem?_eq_getElem hi, List.drop_eq_getElem_cons hi]
    unfold Trie.scan
    dsimp only
    rw [hstart.1]
    cases p.find pWord[i] with
    | some q =>
      dsimp only
      split
      · exact hhit b hstart.2
      · exact hgo b q hstart.2
    | none =>
      dsimp only
      cases root.find pWord[i] with
      | some q =>
        dsimp only
        split
        · exact hhit i le_rfl
        · exact hgo i q le_rfl
      | none => exact ih (i + 1) (i + 1) (-1) root pWord hlen (by omega) hnone

/-! ## What is masked -/

/-- The hits of the scan of a text. -/
def hits (W : List (List UInt8)) (text : List UInt8) : List (ℕ × ℕ) :=
  Trie.scan (Trie.ofWords W) text 0 0 (Trie.ofWords W)

theorem mem_hits (hW : ∀ w ∈ W, w ≠ []) {x y : ℕ} :
    (x, y) ∈ hits W text ↔ ∃ k, Trie.Hit W (text.drop (Trie.scanStart W text k))
      ∧ x = Trie.scanStart W text k
      ∧ y = x + Trie.reach W (text.drop (Trie.scanStart W text k)) := by
  refine (Trie.mem_scan hW text 0).trans (exists_congr fun k => ?_)
  rw [Nat.zero_add]

/-- A hit is a piece of the text. -/
theorem bound_of_mem_hits (hW : ∀ w ∈ W, w ≠ []) {h : ℕ × ℕ} (hh : h ∈ hits W text) :
    h.1 < h.2 ∧ h.2 ≤ text.length := by
  obtain ⟨x, y⟩ := h
  obtain ⟨k, hhit, rfl, rfl⟩ := (mem_hits hW).mp hh
  have hpos := Nat.pos_of_ne_zero fun hz => Trie.not_hit_of_reach hW hz hhit
  have hle := Trie.reach_le (W := W) (t := text.drop (Trie.scanStart W text k))
  rw [List.length_drop] at hle
  dsimp only
  omega

/-- The text with the bytes of all these hits replaced. -/
def putAll (cReplace : UInt8) (hits : List (ℕ × ℕ)) (pWord : List UInt8) : List UInt8 :=
  hits.foldl (fun pWord h => put cReplace h.1 h.2 pWord) pWord

@[simp] theorem length_putAll (cReplace : UInt8) (hits : List (ℕ × ℕ)) (pWord : List UInt8) :
    (putAll cReplace hits pWord).length = pWord.length := by
  induction hits generalizing pWord with
  | nil => rfl
  | cons h hits ih => exact (ih _).trans (length_put _ _ _ _)

theorem getElem?_putAll (cReplace : UInt8) (hits : List (ℕ × ℕ)) (pWord : List UInt8) (j : ℕ) :
    (putAll cReplace hits pWord)[j]?
      = pWord[j]?.map fun c => if ∃ h ∈ hits, h.1 ≤ j ∧ j < h.2 then cReplace else c := by
  induction hits generalizing pWord with
  | nil => simp [putAll]
  | cons h hits ih =>
    refine (ih (put cReplace h.1 h.2 pWord)).trans ?_
    rw [getElem?_put, Option.map_map]
    refine congrArg (pWord[j]?.map ·) (funext fun c => ?_)
    simp only [Function.comp_apply, List.mem_cons, exists_eq_or_imp]
    by_cases hc : ∃ h ∈ hits, h.1 ≤ j ∧ j < h.2
    · rw [if_pos hc, if_pos (.inr hc)]
    · simp only [hc, or_false, if_false]

/-- Hits are masked one after the other if each begins where an `int` reaches. -/
theorem maskAll_eq (cReplace : UInt8) (hits : List (ℕ × ℕ)) (pWord : List UInt8)
    (hlen : pWord.length < 2 ^ 32) (hhits : ∀ h ∈ hits, h.1 < h.2 ∧ h.2 ≤ pWord.length) :
    maskAll cReplace hits pWord
      = if ∀ h ∈ hits, h.1 < 2 ^ 31 then some (putAll cReplace hits pWord) else none := by
  induction hits generalizing pWord with
  | nil => rw [if_pos fun _ hh => absurd hh List.not_mem_nil]; rfl
  | cons h hits ih =>
    obtain ⟨hlt, hle⟩ := hhits h List.mem_cons_self
    have hend : h.2 - 1 + 1 = h.2 := by omega
    rw [maskAll, List.foldlM_cons, mask_eq cReplace (by omega) (by omega) hlen, hend]
    by_cases hint : h.1 < 2 ^ 31
    · rw [if_pos hint]
      refine (ih (put cReplace h.1 h.2 pWord) (by rwa [length_put]) ?_).trans
        (if_congr ?_ rfl rfl)
      · rw [length_put]
        exact fun h' hh' => hhits h' (List.mem_cons_of_mem h hh')
      · rw [List.forall_mem_cons, and_iff_right hint]
    · rw [if_neg hint, if_neg fun hall => hint (hall h List.mem_cons_self)]
      rfl

/-- Every word that is found begins where an `int` reaches. -/
def IntStarts (W : List (List UInt8)) (text : List UInt8) : Prop :=
  ∀ k, Trie.Hit W (text.drop (Trie.scanStart W text k)) → Trie.scanStart W text k < 2 ^ 31

theorem intStarts_iff (hW : ∀ w ∈ W, w ≠ []) :
    IntStarts W text ↔ ∀ h ∈ hits W text, h.1 < 2 ^ 31 := by
  constructor
  · rintro h ⟨x, y⟩ hxy
    obtain ⟨k, hhit, rfl, -⟩ := (mem_hits hW).mp hxy
    exact h k hhit
  · exact fun h k hhit => h _ ((mem_hits hW).mpr ⟨k, hhit, rfl, rfl⟩)

/-- The text as `Filter` leaves it, if it returns. -/
def filtered (W : List (List UInt8)) (text : List UInt8) : List UInt8 :=
  putAll star (hits W text) text

@[simp] theorem length_filtered (W : List (List UInt8)) (text : List UInt8) :
    (filtered W text).length = text.length := length_putAll _ _ _

/-- **`Filter` masks the hits**, or writes in front of the text. -/
theorem filter_eq (hW : ∀ w ∈ W, w ≠ []) (hlen : text.length < 2 ^ 32) :
    (IntStarts W text → (ofWords W).filter text = some (filtered W text))
      ∧ (¬ IntStarts W text → (ofWords W).filter text = none) := by
  have hall : (ofWords W).filter text = maskAll star (hits W text) text := by
    unfold filter checkAndModify
    rw [pmapFilter_ofWords hW]
    by_cases htext : text = []
    · rw [if_pos htext, htext]
      rfl
    · rw [if_neg htext]
      by_cases hnil : W = []
      · have hno : hits W text = [] := by
          refine List.eq_nil_iff_forall_not_mem.mpr fun h hh => ?_
          obtain ⟨k, ⟨w, hw, -⟩, -⟩ := (mem_hits hW).mp hh
          rw [hnil] at hw
          cases hw
        rw [if_pos hnil, hno]
        rfl
      · have hstart : Remembers (-1) 0 0 := by
          unfold Remembers
          rw [if_pos rfl]
        rw [if_neg hnil]
        exact modifyLoop_eq (Trie.ofWords W) star text.length 0 0 (-1) _ text hlen
          (Nat.zero_add _) hstart
  rw [hall, maskAll_eq star _ text hlen fun _ => bound_of_mem_hits hW, intStarts_iff hW]
  exact ⟨fun h => if_pos h, fun h => if_neg h⟩

theorem filter_eq_some_iff (hW : ∀ w ∈ W, w ≠ []) (hlen : text.length < 2 ^ 32)
    {pWord : List UInt8} :
    (ofWords W).filter text = some pWord ↔ IntStarts W text ∧ filtered W text = pWord := by
  obtain ⟨hreturns, hcrashes⟩ := filter_eq hW hlen
  by_cases hint : IntStarts W text
  · rw [hreturns hint, Option.some_inj, and_iff_right hint]
  · rw [hcrashes hint]
    exact iff_of_false (by simp) fun h => hint h.1

/-- In a text shorter than `2 ^ 31` every word begins where an `int` reaches. -/
theorem intStarts_of_length (hW : ∀ w ∈ W, w ≠ []) (hlen : text.length < 2 ^ 31) :
    IntStarts W text := by
  refine (intStarts_iff hW).mpr fun h hh => ?_
  obtain ⟨hlt, hle⟩ := bound_of_mem_hits hW hh
  omega

/-- The byte is masked: it is in a word that begins at a start of the scan and that no
other word goes on from. -/
def Masked (W : List (List UInt8)) (text : List UInt8) (j : ℕ) : Prop :=
  ∃ k, Trie.Hit W (text.drop (Trie.scanStart W text k)) ∧ Trie.scanStart W text k ≤ j
    ∧ j < Trie.scanStart W text k + Trie.reach W (text.drop (Trie.scanStart W text k))

theorem masked_iff (hW : ∀ w ∈ W, w ≠ []) {j : ℕ} :
    Masked W text j ↔ ∃ h ∈ hits W text, h.1 ≤ j ∧ j < h.2 := by
  constructor
  · rintro ⟨k, hhit, hstart, hend⟩
    exact ⟨_, (mem_hits hW).mpr ⟨k, hhit, rfl, rfl⟩, hstart, hend⟩
  · rintro ⟨⟨x, y⟩, hxy, hstart, hend⟩
    obtain ⟨k, hhit, rfl, rfl⟩ := (mem_hits hW).mp hxy
    exact ⟨k, hhit, hstart, hend⟩

theorem Masked.lt_length (hW : ∀ w ∈ W, w ≠ []) {j : ℕ} (h : Masked W text j) :
    j < text.length := by
  obtain ⟨hit, hmem, -, hend⟩ := (masked_iff hW).mp h
  exact hend.trans_le (bound_of_mem_hits hW hmem).2

/-- A masked byte is a `*`. -/
theorem getElem?_filtered_of_masked (hW : ∀ w ∈ W, w ≠ []) {j : ℕ} (h : Masked W text j) :
    (filtered W text)[j]? = some star := by
  rw [filtered, getElem?_putAll, List.getElem?_eq_getElem (h.lt_length hW)]
  exact congrArg some (if_pos ((masked_iff hW).mp h))

/-- The other bytes stay. -/
theorem getElem?_filtered_of_not_masked (hW : ∀ w ∈ W, w ≠ []) {j : ℕ}
    (h : ¬ Masked W text j) : (filtered W text)[j]? = text[j]? := by
  rw [filtered, getElem?_putAll]
  simp only [if_neg ((masked_iff hW).not.mp h)]
  exact Option.map_id'

/-- A text without a hit stays. -/
theorem filtered_eq_self (hW : ∀ w ∈ W, w ≠ [])
    (h : ∀ k, ¬ Trie.Hit W (text.drop (Trie.scanStart W text k))) :
    filtered W text = text := by
  refine List.ext_getElem? fun j => getElem?_filtered_of_not_masked hW ?_
  rintro ⟨k, hhit, -⟩
  exact h k hhit

/-! ## What the filter does is right -/

/-- A hit masks its first byte. -/
theorem masked_of_hit (hW : ∀ w ∈ W, w ≠ []) {k : ℕ}
    (h : Trie.Hit W (text.drop (Trie.scanStart W text k))) :
    Masked W text (Trie.scanStart W text k) := by
  have hpos := Nat.pos_of_ne_zero fun hz => Trie.not_hit_of_reach hW hz h
  exact ⟨k, h, le_rfl, Nat.lt_add_of_pos_right hpos⟩

/-- A masked byte is inside a word. -/
theorem Masked.exists_word {j : ℕ} (h : Masked W text j) :
    ∃ w ∈ W, ∃ s, s ≤ j ∧ j < s + w.length ∧ w <+: text.drop s := by
  obtain ⟨k, hhit, hstart, hend⟩ := h
  refine ⟨_, hhit.take_reach.1, _, hstart, ?_, List.take_prefix _ _⟩
  rwa [List.length_take_of_le Trie.reach_le]

/-- A byte of a word at its place in the text. -/
theorem getElem?_of_prefix_drop {w t : List UInt8} {s j : ℕ} (h : w <+: t.drop s) (hs : s ≤ j)
    (hj : j < s + w.length) : t[j]? = w[j - s]? := by
  have hget := List.prefix_iff_getElem?.mp h (j - s) (by omega)
  rw [List.getElem?_drop, Nat.add_sub_cancel' hs] at hget
  rw [hget, List.getElem?_eq_getElem]

/-- **The word filter masks only what it should, and its two scanners agree.** Where
no word has a `*` in it and the text is shorter than `2 ^ 31`: if `checkHave` finds
something, some added word is in the text; `Filter` returns and keeps the length; what it
changes lies inside an added word and becomes `*`; and it changes the text if and only if
`checkHave` finds something. -/
theorem filter_sound {W : List (List UInt8)} {text : List UInt8} (hstar : ∀ w ∈ W, star ∉ w)
    (hlen : text.length < 2 ^ 31) :
    ((ofWords W).checkHave text = true → ∃ w ∈ W, w ≠ [] ∧ w <:+: text)
      ∧ ∃ pWord, (ofWords W).filter text = some pWord ∧ pWord.length = text.length
        ∧ (∀ j : ℕ, pWord[j]? ≠ text[j]? → pWord[j]? = some star
            ∧ ∃ w ∈ W, w ≠ [] ∧ ∃ s, s ≤ j ∧ j < s + w.length ∧ w <+: text.drop s)
        ∧ (pWord ≠ text ↔ (ofWords W).checkHave text = true) := by
  set V := W.filter (· ≠ []) with hV
  have hmem : ∀ w, w ∈ V ↔ w ∈ W ∧ w ≠ [] := by
    intro w
    rw [hV, List.mem_filter, decide_eq_true_eq]
  have hne : ∀ w ∈ V, w ≠ [] := fun w hw => ((hmem w).mp hw).2
  rw [← ofWords_filter W, ← hV, checkHave_iff hne]
  refine ⟨?_, _, (filter_eq hne (by omega)).1 (intStarts_of_length hne hlen),
    length_filtered V text, fun j hj => ?_, ?_⟩
  · rintro ⟨k, w, hw, hpre, -⟩
    exact ⟨w, ((hmem w).mp hw).1, hne w hw, hpre.isInfix.trans (List.drop_suffix _ _).isInfix⟩
  · have hm : Masked V text j := by
      by_contra hno
      exact hj (getElem?_filtered_of_not_masked hne hno)
    obtain ⟨w, hw, hat⟩ := hm.exists_word
    exact ⟨getElem?_filtered_of_masked hne hm, w, ((hmem w).mp hw).1, hne w hw, hat⟩
  · constructor
    · intro hchange
      by_contra hno
      exact hchange (filtered_eq_self hne (not_exists.mp hno))
    · rintro ⟨k, hhit⟩ heq
      -- the first byte of the word that is hit is masked, and was no star
      have hm := masked_of_hit hne hhit
      obtain ⟨w, hw, s, hs, hend, hpre⟩ := hm.exists_word
      have hget := getElem?_filtered_of_masked hne hm
      rw [heq, getElem?_of_prefix_drop hpre hs hend] at hget
      exact hstar w ((hmem w).mp hw).1 (List.mem_of_getElem? hget)

/-- The words "ab" and "cd". -/
def twoWords : List (List UInt8) := [[97, 98], [99, 100]]

theorem filter_sound_twoWords :
    (∃ pWord, (ofWords twoWords).filter [120, 97, 98] = some pWord
        ∧ (pWord ≠ [120, 97, 98] ↔ (ofWords twoWords).checkHave [120, 97, 98] = true))
      ∧ (ofWords twoWords).filter [120, 97, 98] = some [120, 42, 42] := by
  obtain ⟨-, pWord, hfilter, -, -, hagree⟩ :=
    filter_sound (show ∀ w ∈ twoWords, star ∉ w by decide)
      (show [(120 : UInt8), 97, 98].length < 2 ^ 31 by decide)
  exact ⟨⟨pWord, hfilter, hagree⟩, by decide +kernel⟩

/-! ## A filtered text is clean -/

section Again

variable {p : ℕ}

/-- **Where the scan of a filtered text starts**: at a start of the scan of the text,
or at a masked byte. -/
def Clean (W : List (List UInt8)) (text : List UInt8) (p : ℕ) : Prop :=
  (∃ k, Trie.scanStart W text k = p) ∨ Masked W text p

/-- At a masked byte nothing is found, and the next byte is masked as well or a start. -/
theorem clean_of_masked (hW : ∀ w ∈ W, w ≠ []) (hstar : ∀ w ∈ W, star ∉ w)
    (hm : Masked W text p) :
    Trie.reach W ((filtered W text).drop p) = 0 ∧ Clean W text (p + 1) := by
  refine ⟨?_, ?_⟩
  · have hlt : p < (filtered W text).length := by
      rw [length_filtered]
      exact hm.lt_length hW
    have hget := getElem?_filtered_of_masked hW hm
    rw [List.getElem?_eq_getElem hlt] at hget
    rw [List.drop_eq_getElem_cons hlt, Option.some.inj hget]
    exact Trie.reach_of_not_mem hstar _
  · obtain ⟨k, hhit, hstart, hend⟩ := hm
    have hpos := Nat.pos_of_ne_zero fun hz => Trie.not_hit_of_reach hW hz hhit
    by_cases hlast : p + 1 = Trie.scanStart W text k
        + Trie.reach W (text.drop (Trie.scanStart W text k))
    · refine .inl ⟨k + 1, ?_⟩
      rw [Trie.scanStart_succ, hlast, Trie.stride, max_eq_right hpos]
    · exact .inr ⟨k, hhit, by omega, by omega⟩

/-- Behind a start that is not masked the text stays as far as the scan goes. -/
theorem not_masked_of_start {k j : ℕ} (hm : ¬ Masked W text (Trie.scanStart W text k))
    (hj : j < Trie.reach W (text.drop (Trie.scanStart W text k))) :
    ¬ Masked W text (Trie.scanStart W text k + j) := by
  rintro ⟨l, hhit, hstart, hend⟩
  have hstride : ∀ n, Trie.reach W (text.drop (Trie.scanStart W text n))
      ≤ Trie.stride W (text.drop (Trie.scanStart W text n)) := fun n => le_max_right _ _
  have hk := hstride k
  have hl := hstride l
  rcases lt_trichotomy l k with hlt | rfl | hgt
  · have hbehind := Trie.scanStart_add_stride_le (W := W) (t := text) hlt
    omega
  · exact hm ⟨l, hhit, le_rfl, by omega⟩
  · have hbehind := Trie.scanStart_add_stride_le (W := W) (t := text) hgt
    omega

/-- Where nothing is masked the filtered text is the text. -/
theorem take_drop_filtered (hW : ∀ w ∈ W, w ≠ []) {n : ℕ}
    (h : ∀ j < n, ¬ Masked W text (p + j)) :
    ((filtered W text).drop p).take n = (text.drop p).take n := by
  refine List.ext_getElem? fun j => ?_
  rw [List.getElem?_take, List.getElem?_take]
  split
  · rename_i hj
    rw [List.getElem?_drop, List.getElem?_drop, getElem?_filtered_of_not_masked hW (h j hj)]
  · rfl

/-- **At a start that is not masked the scan of the filtered text goes on as that of the
text did**, and there is no hit. -/
theorem scan_filtered_of_start (hW : ∀ w ∈ W, w ≠ []) (hstar : ∀ w ∈ W, star ∉ w) {k : ℕ}
    (hm : ¬ Masked W text (Trie.scanStart W text k)) :
    Trie.reach W ((filtered W text).drop (Trie.scanStart W text k))
        = Trie.reach W (text.drop (Trie.scanStart W text k))
      ∧ ¬ Trie.Hit W ((filtered W text).drop (Trie.scanStart W text k)) := by
  set p := Trie.scanStart W text k
  set t := text.drop p with ht
  set t' := (filtered W text).drop p with ht'
  have hlength : t'.length = t.length := by
    rw [ht, ht', List.length_drop, List.length_drop, length_filtered]
  have hsame : ∀ j < Trie.reach W t, ¬ Masked W text (p + j) := fun j => not_masked_of_start hm
  have htake : t'.take (Trie.reach W t) = t.take (Trie.reach W t) :=
    take_drop_filtered hW hsame
  have hge : Trie.reach W t ≤ Trie.reach W t' := by
    rcases Nat.eq_zero_or_pos (Trie.reach W t) with hz | hpos
    · rw [hz]
      exact Nat.zero_le _
    · refine (Trie.begins_take_iff hpos (Trie.reach_le.trans hlength.ge)).mp ?_
      rw [htake]
      exact (Trie.begins_take_iff hpos Trie.reach_le).mpr le_rfl
  have hle : Trie.reach W t' ≤ Trie.reach W t := by
    by_contra hlt
    have hlt' : Trie.reach W t + 1 ≤ Trie.reach W t' := not_le.mp hlt
    have hbound : Trie.reach W t + 1 ≤ t'.length := hlt'.trans Trie.reach_le
    have hbegins := (Trie.begins_take_iff (Nat.succ_pos _) hbound).mpr hlt'
    by_cases hnext : Masked W text (p + Trie.reach W t)
    · -- the next byte is a star now
      obtain ⟨w, hw, hpre⟩ := hbegins
      refine hstar w hw (hpre.subset (List.mem_of_getElem? (i := Trie.reach W t) ?_))
      rw [List.getElem?_take, if_pos (Nat.lt_succ_self _), ht', List.getElem?_drop]
      exact getElem?_filtered_of_masked hW hnext
    · rw [ht', take_drop_filtered hW fun j hj => ?_] at hbegins
      · exact Nat.not_succ_le_self _
          ((Trie.begins_take_iff (Nat.succ_pos _) (hbound.trans hlength.le)).mp hbegins)
      · rcases Nat.lt_succ_iff_lt_or_eq.mp hj with hj | rfl
        · exact hsame j hj
        · exact hnext
  have hreach : Trie.reach W t' = Trie.reach W t := le_antisymm hle hge
  refine ⟨hreach, fun hhit => hm (masked_of_hit hW ?_)⟩
  obtain ⟨hmem, hmax⟩ := hhit.take_reach
  rw [hreach, htake] at hmem hmax
  exact ⟨_, hmem, List.take_prefix _ _, hmax⟩

/-- **The scan of a filtered text finds nothing** at a clean position, and starts again at
one. -/
theorem Clean.step (hW : ∀ w ∈ W, w ≠ []) (hstar : ∀ w ∈ W, star ∉ w)
    (h : Clean W text p) :
    ¬ Trie.Hit W ((filtered W text).drop p)
      ∧ Clean W text (p + Trie.stride W ((filtered W text).drop p)) := by
  by_cases hm : Masked W text p
  · obtain ⟨hreach, hnext⟩ := clean_of_masked hW hstar hm
    refine ⟨Trie.not_hit_of_reach hW hreach, ?_⟩
    rw [Trie.stride, hreach]
    exact hnext
  · obtain ⟨k, rfl⟩ := h.resolve_right hm
    obtain ⟨hreach, hhit⟩ := scan_filtered_of_start hW hstar hm
    refine ⟨hhit, .inl ⟨k + 1, ?_⟩⟩
    rw [Trie.stride, hreach]
    exact Trie.scanStart_succ W text k

theorem not_hit_filtered (hW : ∀ w ∈ W, w ≠ []) (hstar : ∀ w ∈ W, star ∉ w) (k : ℕ) :
    ¬ Trie.Hit W ((filtered W text).drop
      (Trie.scanStart W (filtered W text) k)) := by
  have hclean : Clean W text (Trie.scanStart W (filtered W text) k) := by
    induction k with
    | zero => exact .inl ⟨0, rfl⟩
    | succ k ih =>
      rw [Trie.scanStart_succ]
      exact (ih.step hW hstar).2
  exact (hclean.step hW hstar).1

end Again

/-- Filtering again changes nothing: `Filter` returns, on its own result it returns that
result, and `checkHave` finds nothing in it. -/
def Idempotent (W : List (List UInt8)) (text : List UInt8) : Prop :=
  ∃ pWord, (ofWords W).filter text = some pWord ∧ (ofWords W).filter pWord = some pWord
    ∧ (ofWords W).checkHave pWord = false

/-- **When filtering is idempotent.** Where no word has a `*` in it, a filtered text has
nothing left to find; but a text is filtered only if every word that is found in it begins
where an `int` reaches. -/
theorem filter_filter_iff {W : List (List UInt8)} {text : List UInt8} (hstar : ∀ w ∈ W, star ∉ w)
    (hlen : text.length < 2 ^ 32) :
    Idempotent W text ↔ IntStarts (W.filter (· ≠ [])) text := by
  set V := W.filter (· ≠ []) with hV
  have hne : ∀ w ∈ V, w ≠ [] := fun w hw => by
    rw [hV, List.mem_filter, decide_eq_true_eq] at hw
    exact hw.2
  have hstar' : ∀ w ∈ V, star ∉ w := fun w hw => hstar w (List.mem_of_mem_filter hw)
  unfold Idempotent
  rw [← ofWords_filter W, ← hV]
  constructor
  · rintro ⟨pWord, hfilter, -⟩
    exact ((filter_eq_some_iff hne hlen).mp hfilter).1
  · intro hint
    have hno (k : ℕ) : ¬ Trie.Hit V ((filtered V text).drop
        (Trie.scanStart V (filtered V text) k)) := not_hit_filtered hne hstar' k
    refine ⟨_, (filter_eq hne hlen).1 hint, ?_, Bool.eq_false_iff.mpr fun h => ?_⟩
    · refine (filter_eq_some_iff hne ?_).mpr ⟨fun k hk => absurd hk (hno k),
        filtered_eq_self hne hno⟩
      rwa [length_filtered]
    · obtain ⟨k, hk⟩ := (checkHave_iff hne).mp h
      exact hno k hk

theorem filter_filter_iff_twoWords : Idempotent twoWords [97, 97, 98, 98] :=
  (filter_filter_iff (by decide) (by decide)).mpr (intStarts_of_length (by decide) (by decide))

/-- A text in which the only word begins at `2 ^ 31`. -/
def farText : List UInt8 := List.replicate (2 ^ 31) 120 ++ [97]

/-- **A word behind the reach of an `int`**: `Filter` writes in front of the text. -/
theorem not_idempotent_farText : ¬ Idempotent [[97]] farText := by
  have hstart : Trie.scanStart [[97]] farText (2 ^ 31) = 2 ^ 31 :=
    Trie.scanStart_replicate (a := 120) (Trie.reach_of_not_mem (by decide)) (2 ^ 31) [97]
  have hrest : farText.drop (2 ^ 31) = [97] := List.drop_left' List.length_replicate
  have hlen : farText.length < 2 ^ 32 := by
    rw [farText, List.length_append, List.length_replicate, List.length_singleton]
    omega
  rw [filter_filter_iff (by decide) hlen]
  intro hint
  have hlt : Trie.Hit [[97]] (farText.drop (Trie.scanStart [[97]] farText (2 ^ 31)))
      → Trie.scanStart [[97]] farText (2 ^ 31) < 2 ^ 31 := hint (2 ^ 31)
  rw [hstart, hrest] at hlt
  exact absurd (hlt (by decide)) (lt_irrefl _)

/-! ## What the filter misses -/

/-- A word is left in the filtered text where none of its bytes is masked. -/
theorem infix_filtered_iff (hW : ∀ w ∈ W, w ≠ []) {w : List UInt8}
    (hstar : star ∉ w) :
    w <:+: filtered W text
      ↔ ∃ s, w <+: text.drop s ∧ ∀ j, s ≤ j → j < s + w.length → ¬ Masked W text j := by
  have hplaces : ∀ t : List UInt8, w <:+: t ↔ ∃ s, w <+: t.drop s := by
    intro t
    constructor
    · rintro ⟨a, b, rfl⟩
      exact ⟨a.length, b, by rw [List.append_assoc, List.drop_left]⟩
    · rintro ⟨s, h⟩
      exact h.isInfix.trans (List.drop_suffix s t).isInfix
  rw [hplaces]
  refine exists_congr fun s => ?_
  constructor
  · intro h
    have hno : ∀ j, s ≤ j → j < s + w.length → ¬ Masked W text j := by
      intro j hs hj hm
      have hget := getElem?_filtered_of_masked hW hm
      rw [getElem?_of_prefix_drop h hs hj] at hget
      exact hstar (List.mem_of_getElem? hget)
    refine ⟨?_, hno⟩
    rw [List.prefix_iff_eq_take, take_drop_filtered hW fun j hj => hno _ (by omega) (by omega)]
      at h
    exact List.prefix_iff_eq_take.mpr h
  · rintro ⟨h, hno⟩
    rw [List.prefix_iff_eq_take, take_drop_filtered hW fun j hj => hno _ (by omega) (by omega)]
    exact List.prefix_iff_eq_take.mp h

/-- The filter misses nothing in a text: `checkHave` tells if an added word is in it, and
`Filter` returns and leaves no added word without `*`. -/
def MissesNothing (W : List (List UInt8)) (text : List UInt8) : Prop :=
  ((∃ w ∈ W, w <:+: text) → (ofWords W).checkHave text = true)
    ∧ ∃ pWord, (ofWords W).filter text = some pWord ∧ ∀ w ∈ W, star ∉ w → ¬ w <:+: pWord

/-- **When the word filter misses nothing**: exactly when a word that is in the text
means that some word begins at a start of the scan that no other word goes on from,
every such word begins where an `int` reaches, and every place of a word without `*` has a
byte in such a word. -/
theorem filter_complete_iff {W : List (List UInt8)} {text : List UInt8} (hW : ∀ w ∈ W, w ≠ [])
    (hlen : text.length < 2 ^ 32) :
    MissesNothing W text
      ↔ ((∃ w ∈ W, w <:+: text) → ∃ k, Trie.Hit W (text.drop (Trie.scanStart W text k)))
        ∧ IntStarts W text
        ∧ ∀ w ∈ W, star ∉ w → ∀ s, w <+: text.drop s →
            ∃ j, s ≤ j ∧ j < s + w.length ∧ Masked W text j := by
  have hleft : (∀ w ∈ W, star ∉ w → ¬ w <:+: filtered W text)
      ↔ ∀ w ∈ W, star ∉ w → ∀ s, w <+: text.drop s →
          ∃ j, s ≤ j ∧ j < s + w.length ∧ Masked W text j := by
    refine forall₃_congr fun w _ hstar => ?_
    rw [infix_filtered_iff hW hstar]
    push Not
    rfl
  unfold MissesNothing
  rw [checkHave_iff hW, ← hleft]
  refine and_congr_right fun _ => ?_
  constructor
  · rintro ⟨pWord, hfilter, hno⟩
    obtain ⟨hint, rfl⟩ := (filter_eq_some_iff hW hlen).mp hfilter
    exact ⟨hint, hno⟩
  · exact fun ⟨hint, hno⟩ => ⟨_, (filter_eq hW hlen).1 hint, hno⟩

theorem filter_complete_iff_twoWords : MissesNothing twoWords [120, 97, 98] := by
  have hhit : Trie.Hit twoWords (List.drop 1 [120, 97, 98]) := by decide
  have hstart : Trie.scanStart twoWords [120, 97, 98] 1 = 1 := by decide
  refine (filter_complete_iff (by decide) (by decide)).mpr
    ⟨fun _ => ⟨1, ?_⟩, intStarts_of_length (by decide) (by decide), ?_⟩
  · rw [hstart]
    exact hhit
  · intro w hw _ s hpre
    have hs : s < 3 := by
      by_contra hge
      rw [List.drop_eq_nil_of_le (not_lt.mp hge), List.prefix_nil] at hpre
      rw [hpre] at hw
      revert hw
      decide
    -- "ab" is in the text at 1, and nothing else
    have hplace : s = 1 ∧ w = [97, 98] := by
      revert hpre
      rcases List.mem_pair.mp hw with rfl | rfl <;> interval_cases s <;> decide
    obtain ⟨rfl, rfl⟩ := hplace
    refine ⟨1, le_rfl, by decide, 1, ?_, ?_, ?_⟩ <;> rw [hstart]
    · exact hhit
    · decide

/-- "ab" is missed where "abc" is a word as well, and "aab" is missed in "aaab". -/
theorem not_missesNothing :
    ¬ MissesNothing [[97, 98], [97, 98, 99]] [97, 98]
      ∧ ¬ MissesNothing [[97, 97, 98]] [97, 97, 97, 98] := by
  constructor
  · intro h
    exact absurd (h.1 (by decide)) (by decide +kernel)
  · intro h
    exact absurd (h.1 (by decide)) (by decide +kernel)

end QFilter
