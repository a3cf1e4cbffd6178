import QService.QString

/-!
# `Q_MoveN2Before`

The last `n` characters of a string are moved to its front by three reversals: that of the
front, that of the end, and that of the whole. A reversal exchanges the characters from
outside to inside, each two by an addition and two subtractions, which are modulo 256
for a `char` with or without a sign.

There are two versions. That for `char *` measures the string at the start of
each reversal, up to the first NUL, and at these moments the string has the characters it
had, in another order; a sum that is zero in the middle of an exchange is not seen.
-/

namespace QString

/-! ## The code -/

/-- An exchange of two characters. -/
def swap (pszWord : List UInt8) (iBgTmp iEndTmp : ℕ) : List UInt8 :=
  let pszWord := pszWord.set iBgTmp (pszWord.getD iBgTmp 0 + pszWord.getD iEndTmp 0)
  let pszWord := pszWord.set iEndTmp (pszWord.getD iBgTmp 0 - pszWord.getD iEndTmp 0)
  pszWord.set iBgTmp (pszWord.getD iBgTmp 0 - pszWord.getD iEndTmp 0)

/-- The loop of `Q_ReverseStr`. -/
def reverseLoop (pszWord : List UInt8) (iBgTmp iEndTmp : ℕ) : List UInt8 :=
  if iBgTmp < iEndTmp then
    reverseLoop (swap pszWord iBgTmp iEndTmp) (iBgTmp + 1) (iEndTmp - 1)
  else pszWord
termination_by iEndTmp - iBgTmp

/-- Both versions of `Q_ReverseStr`, for a string of `iLens` characters. -/
def reverseLens (iLens : ℕ) (pszWord : List UInt8) (iBg iEnd : ℕ) : List UInt8 :=
  if iLens ≤ 1 then pszWord
  else
    let iBgTmp := if iLens ≤ iBg then iLens - 1 else iBg
    let iEndTmp := if iLens ≤ iEnd then iLens - 1 else iEnd
    if iEndTmp ≤ iBgTmp then pszWord else reverseLoop pszWord iBgTmp iEndTmp

/-- `Q_ReverseStr` of a `std::string`. -/
def reverseStr (strWord : List UInt8) (iBg iEnd : ℕ) : List UInt8 :=
  reverseLens strWord.length strWord iBg iEnd

/-- `Q_ReverseStr` of what a `char *` points to. -/
def reverseCStr (pszWord : List UInt8) (iBg iEnd : ℕ) : List UInt8 :=
  reverseLens (cString pszWord).length pszWord iBg iEnd

/-- Both versions of `Q_MoveN2Before`, with the reversal that they call. -/
def moveLens (reverse : List UInt8 → ℕ → ℕ → List UInt8) (iLens : ℕ) (pszWord : List UInt8)
    (n : ℕ) : List UInt8 :=
  if iLens ≤ n ∨ n = 0 ∨ iLens = 0 then pszWord
  else
    let pszWord := reverse pszWord 0 (iLens - n - 1)
    let pszWord := reverse pszWord (iLens - n) (iLens - 1)
    reverse pszWord 0 (iLens - 1)

/-- `Q_MoveN2Before` of a `std::string`. -/
def moveN2Before (strWord : List UInt8) (n : ℕ) : List UInt8 :=
  moveLens reverseStr strWord.length strWord n

/-- `Q_MoveN2Before` of a `char *`, which may be NULL. -/
def moveN2BeforeCStr (pszWord : Option (List UInt8)) (n : ℕ) : Option (List UInt8) :=
  pszWord.map fun pszWord => moveLens reverseCStr (cString pszWord).length pszWord n

/-! ## Reversing -/

theorem getD_length_append (a t : List UInt8) (x d : UInt8) :
    (a ++ x :: t).getD a.length d = x := by
  rw [List.getD_eq_getElem?_getD, List.getElem?_append_right le_rfl, Nat.sub_self]
  rfl

theorem set_length_append (a t : List UInt8) (x y : UInt8) :
    (a ++ x :: t).set a.length y = a ++ y :: t := by
  rw [List.set_append_right _ _ le_rfl, Nat.sub_self, List.set_cons_zero]

/-- **The sum and the differences exchange two characters.** -/
theorem swap_append (a m b : List UInt8) (x y : UInt8) :
    swap (a ++ x :: (m ++ y :: b)) a.length (a.length + m.length + 1)
      = a ++ y :: (m ++ x :: b) := by
  have hlen : ∀ c, a.length + m.length + 1 = (a ++ c :: m).length := by
    intro c
    rw [List.length_append, List.length_cons]
    omega
  have hword : ∀ c d, a ++ c :: (m ++ d :: b) = (a ++ c :: m) ++ d :: b := by
    intro c d
    rw [List.append_assoc, List.cons_append]
  have hget : ∀ c d, (a ++ c :: (m ++ d :: b)).getD (a.length + m.length + 1) 0 = d := by
    intro c d
    rw [hword, hlen c, getD_length_append]
  have hset : ∀ c d e, (a ++ c :: (m ++ d :: b)).set (a.length + m.length + 1) e
      = a ++ c :: (m ++ e :: b) := by
    intro c d e
    rw [hword, hlen c, set_length_append, ← hword]
  unfold swap
  dsimp only
  rw [getD_length_append, hget, set_length_append, getD_length_append, hget, hset,
    getD_length_append, hget, set_length_append, UInt8.add_sub_cancel, UInt8.add_comm x y,
    UInt8.add_sub_cancel]

/-- **The loop reverses the characters between its bounds**, from outside to inside. -/
theorem reverseLoop_append (a m b : List UInt8) :
    reverseLoop (a ++ (m ++ b)) a.length (a.length + m.length - 1) = a ++ (m.reverse ++ b) := by
  induction m using List.bidirectionalRec generalizing a b with
  | nil =>
    rw [reverseLoop, if_neg (by rw [List.length_nil]; omega), List.reverse_nil]
  | singleton x =>
    rw [reverseLoop, if_neg (by rw [List.length_singleton]; omega), List.reverse_singleton]
  | cons_append x m y ih =>
    have hlen : (x :: (m ++ [y])).length = m.length + 2 := by simp
    have hend : a.length + (m.length + 2) - 1 = a.length + m.length + 1 := by omega
    have hword : a ++ (x :: (m ++ [y]) ++ b) = a ++ x :: (m ++ y :: b) := by simp
    have hinner : a ++ y :: (m ++ x :: b) = (a ++ [y]) ++ (m ++ x :: b) := by simp
    have hbg : a.length + 1 = (a ++ [y]).length := by simp
    have hend' : a.length + m.length + 1 - 1 = (a ++ [y]).length + m.length - 1 := by
      rw [← hbg]
      omega
    rw [hlen, hend, hword, reverseLoop, if_pos (by omega), swap_append, hinner, hend', hbg, ih]
    simp

/-- Of a string of three parts the middle one is reversed, and what lies behind it in memory
stays. -/
theorem reverseLens_append (a m b behind : List UInt8) (hm : m ≠ []) :
    reverseLens (a ++ (m ++ b)).length (a ++ (m ++ (b ++ behind))) a.length
        (a.length + m.length - 1)
      = a ++ (m.reverse ++ (b ++ behind)) := by
  have hpos := List.length_pos_of_ne_nil hm
  have hlen : (a ++ (m ++ b)).length = a.length + m.length + b.length := by
    rw [List.length_append, List.length_append]
    omega
  have hone : m.length = 1 → m.reverse = m := by
    intro h
    obtain ⟨x, rfl⟩ := List.length_eq_one_iff.mp h
    rfl
  unfold reverseLens
  dsimp only
  rw [hlen, if_neg (by omega : ¬ a.length + m.length + b.length ≤ a.length),
    if_neg (by omega : ¬ a.length + m.length + b.length ≤ a.length + m.length - 1)]
  split_ifs with h₁ h₂
  · rw [hone (by omega)]
  · rw [hone (by omega)]
  · exact reverseLoop_append a m (b ++ behind)

/-! ## Rotating -/

section Move

variable {reverse : List UInt8 → ℕ → ℕ → List UInt8} {behind p q : List UInt8}

/-- **Three reversals exchange the parts of a string**, if they reverse whatever has the
characters of the string. -/
theorem moveLens_append
    (hreverse : ∀ a m b, (a ++ (m ++ b)).Perm (p ++ q) → m ≠ [] →
      reverse (a ++ (m ++ (b ++ behind))) a.length (a.length + m.length - 1)
        = a ++ (m.reverse ++ (b ++ behind)))
    (hp : p ≠ []) (hq : q ≠ []) :
    moveLens reverse (p ++ q).length (p ++ q ++ behind) q.length = q ++ p ++ behind := by
  have hplen := List.length_pos_of_ne_nil hp
  have hqlen := List.length_pos_of_ne_nil hq
  have hfront := hreverse [] p q (List.Perm.refl _) hp
  have hback := hreverse p.reverse q []
    ((List.append_nil q).symm ▸ (List.reverse_perm p).append_right q) hq
  have hwhole := hreverse [] (p.reverse ++ q.reverse) []
    ((List.append_nil (p.reverse ++ q.reverse)).symm ▸
      (List.reverse_perm p).append (List.reverse_perm q))
    (by simp [hp])
  simp only [List.nil_append, List.length_nil, Nat.zero_add, List.length_reverse,
    List.length_append, List.reverse_append, List.reverse_reverse] at hfront hback hwhole
  have hmid : p.length + q.length - q.length = p.length := by omega
  unfold moveLens
  rw [List.length_append, if_neg (by omega), hmid]
  dsimp only
  rw [List.append_assoc, hfront, hback, ← List.append_assoc p.reverse, hwhole]

end Move

/-- For other numbers nothing is moved. -/
theorem moveLens_eq_self (reverse : List UInt8 → ℕ → ℕ → List UInt8) {iLens n : ℕ}
    (h : ¬ (0 < n ∧ n < iLens)) (pszWord : List UInt8) :
    moveLens reverse iLens pszWord n = pszWord := if_pos (by omega)

/-- The version for `std::string`. -/
theorem moveN2Before_append {p q : List UInt8} (hp : p ≠ []) (hq : q ≠ []) :
    moveN2Before (p ++ q) q.length = q ++ p := by
  have hreverse : ∀ a m b, (a ++ (m ++ b)).Perm (p ++ q) → m ≠ [] →
      reverseStr (a ++ (m ++ (b ++ []))) a.length (a.length + m.length - 1)
        = a ++ (m.reverse ++ (b ++ [])) := by
    intro a m b _ hm
    have hrev := reverseLens_append a m b [] hm
    rwa [List.append_nil] at hrev ⊢
  have h := moveLens_append hreverse hp hq
  rwa [List.append_nil, List.append_nil] at h

/-- The version for `char *`: what lies behind the NUL stays. -/
theorem moveLens_reverseCStr {p q : List UInt8} (hp : p ≠ []) (hq : q ≠ [])
    (hzero : 0 ∉ p ++ q) (behind : List UInt8) :
    moveLens reverseCStr (p ++ q).length (p ++ q ++ 0 :: behind) q.length
      = q ++ p ++ 0 :: behind := by
  refine moveLens_append (fun a m b hperm hm => ?_) hp hq
  have hword : a ++ (m ++ (b ++ 0 :: behind)) = (a ++ (m ++ b)) ++ 0 :: behind := by
    simp only [List.append_assoc]
  have hstr : cString (a ++ (m ++ (b ++ 0 :: behind))) = a ++ (m ++ b) := by
    rw [hword]
    exact cString_append_zero (fun h => hzero (hperm.mem_iff.mp h)) behind
  rw [reverseCStr, hstr]
  exact reverseLens_append a m b (0 :: behind) hm

/-- **`Q_MoveN2Before` rotates a string.** For `0 < n < L` the last `n` characters come before
the others, for any other `n` the string stays, and for a string without NUL the version
for `char *` does the same in memory. -/
theorem moveN2Before_eq (strWord : List UInt8) (n : ℕ) :
    (0 < n → n < strWord.length → moveN2Before strWord n
        = strWord.drop (strWord.length - n) ++ strWord.take (strWord.length - n))
      ∧ (¬ (0 < n ∧ n < strWord.length) → moveN2Before strWord n = strWord)
      ∧ (0 ∉ strWord → ∀ behind, moveN2BeforeCStr (some (strWord ++ 0 :: behind)) n
        = some (moveN2Before strWord n ++ 0 :: behind)) := by
  by_cases hn : 0 < n ∧ n < strWord.length
  · obtain ⟨p, q, hp, hq, rfl, rfl⟩ : ∃ p q : List UInt8,
        p ≠ [] ∧ q ≠ [] ∧ q.length = n ∧ p ++ q = strWord := by
      refine ⟨strWord.take (strWord.length - n), strWord.drop (strWord.length - n), ?_, ?_, ?_,
        List.take_append_drop _ _⟩
      · exact List.ne_nil_of_length_pos (by rw [List.length_take]; omega)
      · exact List.ne_nil_of_length_pos (by rw [List.length_drop]; omega)
      · rw [List.length_drop]
        omega
    have hlen : (p ++ q).length - q.length = p.length := by
      rw [List.length_append]
      omega
    refine ⟨fun _ _ => ?_, fun h => absurd hn h, fun hzero behind => ?_⟩
    · rw [hlen, List.drop_left, List.take_left]
      exact moveN2Before_append hp hq
    · rw [moveN2Before_append hp hq, moveN2BeforeCStr, Option.map_some,
        cString_append_zero hzero, moveLens_reverseCStr hp hq hzero]
  · have hself : moveN2Before strWord n = strWord := moveLens_eq_self reverseStr hn strWord
    refine ⟨fun h₀ h => absurd ⟨h₀, h⟩ hn, fun _ => hself, fun hzero behind => ?_⟩
    rw [hself, moveN2BeforeCStr, Option.map_some, cString_append_zero hzero,
      moveLens_eq_self reverseCStr hn]

end QString
