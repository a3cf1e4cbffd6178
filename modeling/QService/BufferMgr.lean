import Mathlib.Tactic

/-!
# The growing buffer

`CBuffer` is a memory block with an offset behind the bytes pushed so far.
A push that does not fit allocates a larger block, copies the old one and
frees it. What fresh memory holds is a parameter; there is always some.

All that a user of the buffer sees is its contents, the bytes up to the
offset, and a push appends to them (`contents_pushBuff`) whether or not the
block has moved.
-/

/-- A `CBuffer`: the `m_iTotalSize` bytes of its block, and `m_iOffset`. -/
structure Buffer where
  block : List UInt8
  offset : ℕ
  offset_le : offset ≤ block.length

namespace Buffer

/-- `getBuffer` with `getLens`: the bytes up to the offset. -/
def contents (B : Buffer) : List UInt8 := B.block.take B.offset

theorem length_contents (B : Buffer) : B.contents.length = B.offset :=
  List.length_take_of_le B.offset_le

/-- `CBuffer::reSet`. -/
def reSet (B : Buffer) : Buffer := { B with offset := 0, offset_le := Nat.zero_le _ }

/-- `CBuffer::reNew`: a block of at least `iLens` bytes that starts with the old
one. -/
def reNew (heap : List UInt8 → ℕ → UInt8) (B : Buffer) (iLens : ℕ) : List UInt8 :=
  if iLens ≤ B.block.length then B.block
  else B.block ++ (List.range (iLens - B.block.length)).map (heap B.block)

theorem le_length_reNew (heap : List UInt8 → ℕ → UInt8) (B : Buffer) (iLens : ℕ) :
    iLens ≤ (B.reNew heap iLens).length := by
  unfold reNew
  split_ifs with h
  · exact h
  · rw [List.length_append, List.length_map, List.length_range]
    omega

/-- The bytes pushed so far survive a move. -/
theorem take_reNew (heap : List UInt8 → ℕ → UInt8) (B : Buffer) (iLens : ℕ) :
    (B.reNew heap iLens).take B.offset = B.contents := by
  unfold reNew contents
  split_ifs with h
  · rfl
  · exact List.take_append_of_le_length B.offset_le

/-- `CBuffer::New`, where a block of at most `mem` bytes can be had: a block of at least
`iLens` bytes, the old one if it is as long. No block is the empty list. -/
def newOrNull (heap : List UInt8 → ℕ → UInt8) (mem : ℕ) (block : List UInt8) (iLens : ℕ) :
    Option (List UInt8) :=
  if block = [] ∨ block.length < iLens then
    if iLens ≤ mem then some ((List.range iLens).map (heap block)) else none
  else some block

/-- `CBuffer::reNew`, where a block of at most `mem` bytes can be had. -/
def reNewOrNull (heap : List UInt8 → ℕ → UInt8) (mem : ℕ) (block : List UInt8) (iLens : ℕ) :
    Option (List UInt8) :=
  if block = [] then newOrNull heap mem block iLens
  else if iLens ≤ block.length ∨ iLens ≤ mem then
    some (reNew heap ⟨block, 0, Nat.zero_le _⟩ iLens)
  else none

/-- A block that can be had is as long as asked for, and the old one if that was. -/
theorem newOrNull_eq_some (heap : List UInt8 → ℕ → UInt8) {mem : ℕ} {block : List UInt8}
    {iLens : ℕ} (hlen : block.length = 0 ∨ block.length = iLens) (hmem : iLens ≤ mem) :
    ∃ p, newOrNull heap mem block iLens = some p ∧ p.length = iLens ∧ (block ≠ [] → p = block) := by
  unfold newOrNull
  split_ifs with h
  · refine ⟨_, rfl, by simp, fun hne => ?_⟩
    have hpos := List.length_pos_of_ne_nil hne
    rcases h with h | h
    · exact absurd h hne
    · omega
  · rw [not_or] at h
    have hpos := List.length_pos_of_ne_nil h.1
    exact ⟨block, rfl, by omega, fun _ => rfl⟩

/-- A longer block starts with the old one. -/
theorem reNewOrNull_eq_some (heap : List UInt8 → ℕ → UInt8) {mem : ℕ} {block : List UInt8}
    {iLens : ℕ} (hne : block ≠ []) (hlen : block.length < iLens) (hmem : iLens ≤ mem) :
    ∃ fresh, reNewOrNull heap mem block iLens = some (block ++ fresh)
      ∧ fresh.length = iLens - block.length := by
  rw [reNewOrNull, if_neg hne, if_pos (Or.inr hmem), reNew, if_neg (Nat.not_le.mpr hlen)]
  exact ⟨_, rfl, by rw [List.length_map, List.length_range]⟩

theorem reNewOrNull_eq_none {heap : List UInt8 → ℕ → UInt8} {mem : ℕ} {block : List UInt8}
    {iLens : ℕ} (hne : block ≠ []) (hlen : block.length < iLens) (hmem : mem < iLens) :
    reNewOrNull heap mem block iLens = none := by
  rw [reNewOrNull, if_neg hne, if_neg (by omega)]

/-- The bytes that `pushBuff` copies: zeros for a NULL pointer. -/
def pushed : Option (List UInt8) → ℕ → List UInt8
  | none, iLens => List.replicate iLens 0
  | some pBuff, iLens => pBuff.take iLens

theorem length_pushed_le (pBuff : Option (List UInt8)) (iLens : ℕ) :
    (pushed pBuff iLens).length ≤ iLens := by
  cases pBuff with
  | none => exact (List.length_replicate).le
  | some p => exact List.length_take_le _ _

/-- `CBuffer::pushBuff`. The pointer is good for `iLens` bytes, so that many are
pushed. -/
def pushBuff (heap : List UInt8 → ℕ → UInt8) (pBuff : Option (List UInt8)) (iLens : ℕ)
    (B : Buffer) : Buffer where
  block :=
    let block := B.reNew heap (B.offset + iLens)
    block.take B.offset ++ pushed pBuff iLens
      ++ block.drop (B.offset + (pushed pBuff iLens).length)
  offset := B.offset + (pushed pBuff iLens).length
  offset_le := by
    have h := B.le_length_reNew heap (B.offset + iLens)
    have hp := length_pushed_le pBuff iLens
    simp only [List.length_append, List.length_take, List.length_drop]
    omega

/-- **A push appends to the contents.** -/
@[simp] theorem contents_pushBuff (heap : List UInt8 → ℕ → UInt8) (pBuff : Option (List UInt8))
    (iLens : ℕ) (B : Buffer) :
    (B.pushBuff heap pBuff iLens).contents = B.contents ++ pushed pBuff iLens := by
  unfold pushBuff contents
  dsimp only
  rw [take_reNew]
  refine List.take_left' ?_
  rw [List.length_append, length_contents]

@[simp] theorem contents_reSet (B : Buffer) : B.reSet.contents = [] := rfl

end Buffer
