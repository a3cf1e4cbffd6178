import QService.BufferMgr
import QService.Host
import QService.Runs

/-!
# The growing buffer when memory runs out

`Buffer` grows whenever it has to. Here every allocation may fail: `CBuffer`
has the three members of the class, of which the block may be NULL, and a
call says whether `new` gives memory when the call asks for some.

A failed `reNew` frees the block and sets the total size to 0, and
`pushBuff` throws; the offset stays. So the bytes pushed before are lost and
still counted, unless there were none (`pushBuff_of_fails`).

While no allocation fails, a `CBuffer` does what `Buffer` does
(`Repr.pushBuff`), and its contents are what was pushed since the last
`reSet`.
-/

variable {w : Width}

/-- **A `CBuffer`**. NULL is `none`. The total size is that of the block, and 0 if there is
none. -/
structure CBuffer (w : Width) where
  pBuffer : Option (List UInt8)
  iOffset : ℕ
  iTotalSize : ℕ
  iTotalSize_eq : iTotalSize = (pBuffer.getD []).length
  iTotalSize_lt : iTotalSize < w.modulus

namespace CBuffer

theorem iTotalSize_of_null {c : CBuffer w} (h : c.pBuffer = none) : c.iTotalSize = 0 := by
  rw [c.iTotalSize_eq, h]
  rfl

/-- The arguments of `pushBuff`: NULL or a pointer to `iLens` bytes that are not those of the
buffer itself, and `iLens`. -/
structure Source (w : Width) where
  pBuff : Option (List UInt8)
  iLens : Fin w.modulus
  length_eq : ∀ p ∈ pBuff, p.length = iLens

/-- The bytes that are pushed: zeros for NULL. -/
def Source.bytes (src : Source w) : List UInt8 := Buffer.pushed src.pBuff src.iLens

@[simp] theorem Source.length_bytes (src : Source w) : src.bytes.length = src.iLens := by
  obtain ⟨_ | p, iLens, h⟩ := src
  · exact List.length_replicate
  · exact List.length_take_of_le (h p rfl).ge

/-! ## The operations -/

/-- The block is freed, and there is none. -/
def lose (c : CBuffer w) : CBuffer w where
  pBuffer := none
  iOffset := c.iOffset
  iTotalSize := 0
  iTotalSize_eq := rfl
  iTotalSize_lt := c.iTotalSize_lt.pos

section Operations

variable (heap : List UInt8 → ℕ → UInt8) (ok : Bool)

/-- `CBuffer::New`. -/
def New (iLens : Fin w.modulus) (c : CBuffer w) : CBuffer w :=
  if c.pBuffer = none ∨ c.iTotalSize < iLens then
    if ok then
      { c with
        pBuffer := some ((List.range iLens).map (heap (c.pBuffer.getD [])))
        iTotalSize := iLens
        iTotalSize_eq := by simp
        iTotalSize_lt := iLens.2 }
    else c.lose
  else c

/-- `CBuffer::reNew`. A longer block starts with the old one. -/
def reNew (iLens : Fin w.modulus) (c : CBuffer w) : CBuffer w :=
  if c.pBuffer = none then c.New heap ok iLens
  else if h : iLens ≤ c.iTotalSize then c
  else if ok then
    let block := c.pBuffer.getD []
    { c with
      pBuffer := some (block.take c.iTotalSize
        ++ (List.range (iLens - c.iTotalSize)).map (heap block))
      iTotalSize := iLens
      iTotalSize_eq := by
        have hlength : (block.take c.iTotalSize).length = c.iTotalSize :=
          List.length_take_of_le c.iTotalSize_eq.le
        rw [Option.getD_some, List.length_append, hlength, List.length_map, List.length_range]
        omega
      iTotalSize_lt := iLens.2 }
  else c.lose

/-- The constructors: of 5 KiB, and of a given size. The size a constructor sets before `New`
is overwritten there. -/
def create (iInitSize : Option (Fin w.modulus)) : CBuffer w :=
  let empty : CBuffer w :=
    { pBuffer := none, iOffset := 0, iTotalSize := 0, iTotalSize_eq := rfl,
      iTotalSize_lt := w.modulus_pos }
  match iInitSize with
  | none => empty.New heap ok ⟨5 * 1024, w.lt_modulus (by norm_num)⟩
  | some iInitSize =>
    if (iInitSize : ℕ) = 0 then empty.New heap ok ⟨1, w.lt_modulus (by norm_num)⟩
    else empty.New heap ok iInitSize

/-- How `pushBuff` ends: it returns, it throws, or it writes behind its block. -/
inductive Outcome (w : Width)
  | returned (c : CBuffer w)
  | thrown (c : CBuffer w)
  | overrun

/-- The copy at the end of `pushBuff`, where the block has room for it. -/
def write (src : Source w) (c : CBuffer w) (h : c.iOffset + src.iLens ≤ c.iTotalSize) :
    CBuffer w where
  pBuffer := c.pBuffer.map fun block =>
    block.take c.iOffset ++ src.bytes ++ block.drop (c.iOffset + src.iLens)
  iOffset := (c.iOffset + src.iLens) % w.modulus
  iTotalSize := c.iTotalSize
  iTotalSize_eq := by
    have heq := c.iTotalSize_eq
    cases hp : c.pBuffer with
    | none => rwa [hp] at heq
    | some block =>
      rw [hp, Option.getD_some] at heq
      simp only [Option.map_some, Option.getD_some, List.length_append, List.length_take,
        List.length_drop, Source.length_bytes]
      omega
  iTotalSize_lt := c.iTotalSize_lt

/-- `iNewSize` of `pushBuff`: the sum is one of `size_t`. -/
def newSize (src : Source w) (c : CBuffer w) : Fin w.modulus :=
  ⟨(c.iOffset + src.iLens) % w.modulus, Nat.mod_lt _ w.modulus_pos⟩

/-- `CBuffer::pushBuff`. -/
def pushBuff (src : Source w) (c : CBuffer w) : Outcome w :=
  let c := c.reNew heap ok (c.newSize src)
  if c.pBuffer = none then .thrown c
  else if h : c.iOffset + src.iLens ≤ c.iTotalSize then .returned (c.write src h)
  else .overrun

end Operations

/-- `CBuffer::reSet`. -/
def reSet (c : CBuffer w) : CBuffer w := { c with iOffset := 0 }

/-- The first `getLens()` bytes of `getBuffer()`, where there are so many. -/
def read (c : CBuffer w) : Option (List UInt8) :=
  match c.pBuffer with
  | none => if c.iOffset = 0 then some [] else none
  | some block => if c.iOffset ≤ block.length then some (block.take c.iOffset) else none

/-! ## What an allocation does -/

section Allocation

variable (heap : List UInt8 → ℕ → UInt8) {iLens : Fin w.modulus} {c : CBuffer w}

/-- `reNew` has to allocate. -/
def Allocates (c : CBuffer w) (iLens : Fin w.modulus) : Prop :=
  c.pBuffer = none ∨ c.iTotalSize < iLens

theorem reNew_of_not_allocates {ok : Bool} (h : ¬ c.Allocates iLens) :
    c.reNew heap ok iLens = c := by
  rw [Allocates, not_or] at h
  rw [reNew, if_neg h.1, dif_pos (Nat.not_lt.mp h.2)]

/-- **A failed allocation loses the block.** -/
theorem reNew_of_fails (h : c.Allocates iLens) : c.reNew heap false iLens = c.lose := by
  by_cases hnone : c.pBuffer = none
  · rw [reNew, if_pos hnone, New, if_pos (Or.inl hnone), if_neg Bool.false_ne_true]
  · have hlt : c.iTotalSize < iLens := h.resolve_left hnone
    rw [reNew, if_neg hnone, dif_neg (Nat.not_le.mpr hlt), if_neg Bool.false_ne_true]

/-- **An allocation that succeeds** makes the block that `Buffer` grows to. -/
theorem pBuffer_reNew {B : Buffer} (hblock : c.pBuffer.getD [] = B.block) :
    (c.reNew heap true iLens).pBuffer = some (B.reNew heap iLens) := by
  have hsize : c.iTotalSize = B.block.length := by rw [c.iTotalSize_eq, hblock]
  unfold Buffer.reNew
  by_cases hnone : c.pBuffer = none
  · have hnil : B.block = [] := by rw [← hblock, hnone]; rfl
    rw [reNew, if_pos hnone, New, if_pos (Or.inl hnone), if_pos rfl]
    dsimp only
    rw [hblock, hnil]
    by_cases hzero : (iLens : ℕ) ≤ 0
    · rw [Nat.le_zero.mp hzero]
      rfl
    · exact congrArg some (if_neg hzero).symm
  · obtain ⟨block, hsome⟩ := Option.ne_none_iff_exists'.mp hnone
    have heq : block = B.block := by rw [← hblock, hsome]; rfl
    by_cases hle : (iLens : ℕ) ≤ B.block.length
    · rw [reNew, if_neg hnone, dif_pos (hsize ▸ hle), if_pos hle, hsome, heq]
    · rw [reNew, if_neg hnone, dif_neg (hsize ▸ hle), if_pos rfl, if_neg hle]
      dsimp only
      rw [hblock, hsize, List.take_length]

theorem iOffset_reNew {ok : Bool} : (c.reNew heap ok iLens).iOffset = c.iOffset := by
  unfold reNew New
  split_ifs <;> rfl

/-- The block that `reNew` returns is as long as asked for. -/
theorem le_iTotalSize_reNew {ok : Bool} (h : c.Allocates iLens → ok = true) :
    (c.reNew heap ok iLens).pBuffer ≠ none ∧ iLens ≤ (c.reNew heap ok iLens).iTotalSize := by
  by_cases halloc : c.Allocates iLens
  · let B : Buffer := ⟨c.pBuffer.getD [], 0, Nat.zero_le _⟩
    have hblock : (c.reNew heap ok iLens).pBuffer = some (B.reNew heap iLens) := by
      rw [h halloc]
      exact pBuffer_reNew heap rfl
    refine ⟨by rw [hblock]; exact Option.some_ne_none _, ?_⟩
    rw [iTotalSize_eq, hblock]
    exact B.le_length_reNew heap iLens
  · rw [reNew_of_not_allocates heap halloc]
    rw [Allocates, not_or] at halloc
    exact ⟨halloc.1, Nat.not_lt.mp halloc.2⟩

end Allocation

/-! ## How a push ends -/

section Push

variable (heap : List UInt8 → ℕ → UInt8) {ok : Bool} {src : Source w} {c : CBuffer w}

theorem newSize_of_lt (h : c.iOffset + src.iLens < w.modulus) :
    (c.newSize src : ℕ) = c.iOffset + src.iLens := Nat.mod_eq_of_lt h

/-- **A push whose allocation fails** throws. The block is lost, the offset is as before. -/
theorem pushBuff_of_fails (h : c.Allocates (c.newSize src)) :
    c.pushBuff heap false src = .thrown c.lose := by
  unfold pushBuff
  rw [reNew_of_fails heap h]
  exact if_pos rfl

/-- Any other push returns, if its length is one of `size_t`. -/
theorem pushBuff_of_not_fails (hlt : c.iOffset + src.iLens < w.modulus)
    (h : c.Allocates (c.newSize src) → ok = true) :
    ∃ hroom, c.pushBuff heap ok src
      = .returned ((c.reNew heap ok (c.newSize src)).write src hroom) := by
  obtain ⟨hblock, hle⟩ := le_iTotalSize_reNew heap h
  have hroom : (c.reNew heap ok (c.newSize src)).iOffset + src.iLens
      ≤ (c.reNew heap ok (c.newSize src)).iTotalSize := by
    rw [iOffset_reNew, ← newSize_of_lt hlt]
    exact hle
  refine ⟨hroom, ?_⟩
  unfold pushBuff
  dsimp only
  rw [if_neg hblock, dif_pos hroom]

/-- A push whose length wraps around is taken to fit, and overruns the block. -/
theorem pushBuff_of_wraps (hoffset : c.iOffset ≤ c.iTotalSize)
    (h : w.modulus ≤ c.iOffset + src.iLens) : c.pushBuff heap ok src = .overrun := by
  have hlens := src.iLens.2
  have hsize := c.iTotalSize_lt
  have hnew : (c.newSize src : ℕ) = c.iOffset + src.iLens - w.modulus :=
    (Nat.mod_eq_sub_mod h).trans (Nat.mod_eq_of_lt (by omega))
  have hblock : c.pBuffer ≠ none := by
    intro hnone
    have hzero := iTotalSize_of_null hnone
    omega
  have halloc : ¬ c.Allocates (c.newSize src) := not_or.mpr ⟨hblock, by omega⟩
  unfold pushBuff
  dsimp only
  rw [reNew_of_not_allocates heap halloc, if_neg hblock, dif_neg (by omega)]

end Push

/-! ## Consistent buffers -/

/-- The bytes that are counted are there. -/
structure Consistent (c : CBuffer w) : Prop where
  iOffset_le : c.iOffset ≤ c.iTotalSize
  pBuffer_ne : 0 < c.iOffset → c.pBuffer ≠ none

variable {c : CBuffer w}

/-- Without a block the total size is 0. -/
theorem consistent_iff : c.Consistent ↔ c.iOffset ≤ c.iTotalSize := by
  refine ⟨Consistent.iOffset_le, fun hle => ⟨hle, fun hpos hnone => ?_⟩⟩
  have hzero := iTotalSize_of_null hnone
  omega

theorem Consistent.read_eq (h : c.Consistent) :
    c.read = some ((c.pBuffer.getD []).take c.iOffset) := by
  have hle := h.iOffset_le
  unfold read
  cases hp : c.pBuffer with
  | none =>
    rw [iTotalSize_of_null hp] at hle
    dsimp only
    rw [if_pos (Nat.le_zero.mp hle), Option.getD_none, List.take_nil]
  | some block =>
    rw [c.iTotalSize_eq, hp, Option.getD_some] at hle
    dsimp only
    rw [if_pos hle, Option.getD_some]

/-- A block is lost together with its bytes. -/
theorem consistent_lose : c.lose.Consistent ↔ c.iOffset = 0 :=
  consistent_iff.trans Nat.le_zero

theorem consistent_reSet : c.reSet.Consistent := consistent_iff.mpr (Nat.zero_le _)

theorem consistent_write {src : Source w} (hroom : c.iOffset + src.iLens ≤ c.iTotalSize) :
    (c.write src hroom).Consistent :=
  consistent_iff.mpr ((Nat.mod_le _ _).trans hroom)

theorem iOffset_create (heap : List UInt8 → ℕ → UInt8) (ok : Bool)
    (iInitSize : Option (Fin w.modulus)) : (create heap ok iInitSize).iOffset = 0 := by
  unfold create New
  cases iInitSize with
  | none => dsimp only; split_ifs <;> rfl
  | some iInitSize => dsimp only; split_ifs <;> rfl

theorem consistent_create (heap : List UInt8 → ℕ → UInt8) (ok : Bool)
    (iInitSize : Option (Fin w.modulus)) : (create heap ok iInitSize).Consistent :=
  consistent_iff.mpr (iOffset_create heap ok iInitSize ▸ Nat.zero_le _)

end CBuffer

/-! ## The setters of `CLuaBinary` -/

namespace CLuaBinary

/-- `CLuaBinary::setVal`, on `m_objWritBuffer`. An exception is turned into `false`. -/
def setVal (heap : List UInt8 → ℕ → UInt8) (ok : Bool) (src : CBuffer.Source w)
    (objWritBuffer : CBuffer w) : Option (Bool × CBuffer w) :=
  match objWritBuffer.pushBuff heap ok src with
  | .returned c => some (true, c)
  | .thrown c => some (false, c)
  | .overrun => none

/-- `CLuaBinary::getBuffer`. -/
def getBuffer (objWritBuffer : CBuffer w) : Option (List UInt8) := objWritBuffer.read

theorem setVal_eq_false {heap : List UInt8 → ℕ → UInt8} {ok : Bool} {src : CBuffer.Source w}
    {c c' : CBuffer w} (h : setVal heap ok src c = some (false, c')) :
    c.pushBuff heap ok src = .thrown c' := by
  unfold setVal at h
  split at h
  · cases h
  · rename_i hpush
    obtain ⟨-, rfl⟩ := Prod.mk.inj (Option.some.inj h)
    exact hpush
  · cases h

end CLuaBinary

namespace CBuffer

/-! ## Runs where allocations fail -/

/-- A call, with whether `new` gives memory when the call asks for some. -/
inductive Call (w : Width)
  | pushBuff (src : Source w) (ok : Bool)
  | reSet

section Runs

variable (heap : List UInt8 → ℕ → UInt8)

def step (c : CBuffer w) : Call w → Outcome w
  | .pushBuff src ok => c.pushBuff heap ok src
  | .reSet => .returned c.reSet

/-- The buffer after a call, whether that returned or threw. -/
def next (c : CBuffer w) (call : Call w) : CBuffer w :=
  match c.step heap call with
  | .returned c' => c'
  | .thrown c' => c'
  | .overrun => c

/-- **A call goes well**: it stays within its block, leaves the buffer consistent, and has not
changed the contents if it throws; after a setter that returned `false` the buffer can be
read. -/
structure SoundCall (c : CBuffer w) (call : Call w) : Prop where
  inBounds : c.step heap call ≠ .overrun
  consistent : (c.next heap call).Consistent
  thrown : ∀ c', c.step heap call = .thrown c' → c'.iOffset = c.iOffset ∧ c'.read = c.read
  getBuffer : ∀ src ok c', call = .pushBuff src ok →
    CLuaBinary.setVal heap ok src c = some (false, c') → CLuaBinary.getBuffer c' ≠ none

/-- The length of a push is one of `size_t`, and no allocation fails while there are bytes in the
buffer. -/
def Careful (c : CBuffer w) : Call w → Prop
  | .pushBuff src ok => c.iOffset + src.iLens < w.modulus
      ∧ (c.iOffset ≠ 0 → c.Allocates (c.newSize src) → ok = true)
  | .reSet => True

variable {heap}

variable {c c' : CBuffer w} {call : Call w}

theorem soundCall_of_returned (h : c.step heap call = .returned c') (hc' : c'.Consistent) :
    c.SoundCall heap call where
  inBounds := by rw [h]; exact fun hover => (by cases hover)
  consistent := by unfold next; rwa [h]
  thrown c'' hthrown := by rw [h] at hthrown; cases hthrown
  getBuffer src ok c'' hcall hset := by
    subst hcall
    have hthrown : c.step heap (.pushBuff src ok) = .thrown c'' := CLuaBinary.setVal_eq_false hset
    rw [h] at hthrown
    cases hthrown

/-- A push that throws must not have counted any bytes. -/
theorem soundCall_of_thrown (h : c.step heap call = .thrown c.lose) (hc : c.Consistent) :
    c.SoundCall heap call ↔ c.iOffset = 0 := by
  constructor
  · intro hsound
    have hnext : (c.next heap call).Consistent := hsound.consistent
    unfold next at hnext
    rw [h] at hnext
    exact consistent_lose.mp hnext
  · intro hzero
    have hlose : c.lose.Consistent := consistent_lose.mpr hzero
    have hread : c.lose.read = c.read := by
      rw [hlose.read_eq, hc.read_eq, hzero, List.take_zero]
      exact congrArg (fun n => some (List.take n [])) hzero
    refine ⟨fun hover => ?_, ?_, fun c' hthrown => ?_, fun src ok c' hcall hset => ?_⟩
    · rw [h] at hover
      cases hover
    · unfold next
      rwa [h]
    · rw [h] at hthrown
      obtain rfl := Outcome.thrown.inj hthrown
      exact ⟨rfl, hread⟩
    · subst hcall
      have hthrown : c.step heap (.pushBuff src ok) = .thrown c' :=
        CLuaBinary.setVal_eq_false hset
      rw [h] at hthrown
      obtain rfl := Outcome.thrown.inj hthrown
      show c.lose.read ≠ none
      rw [hlose.read_eq]
      exact Option.some_ne_none _

/-- **A call on a consistent buffer goes well** if and only if it is careful. -/
theorem soundCall_iff (hc : c.Consistent) (call : Call w) :
    c.SoundCall heap call ↔ c.Careful call := by
  rcases call with ⟨src, ok⟩ | _
  · by_cases hlt : c.iOffset + src.iLens < w.modulus
    · by_cases hfails : c.Allocates (c.newSize src) → ok = true
      · obtain ⟨hroom, hpush⟩ := pushBuff_of_not_fails heap hlt hfails
        exact iff_of_true (soundCall_of_returned hpush (consistent_write hroom))
          ⟨hlt, fun _ => hfails⟩
      · obtain ⟨halloc, hok⟩ := Classical.not_imp.mp hfails
        obtain rfl : ok = false := Bool.eq_false_of_not_eq_true hok
        have hstep : c.step heap (.pushBuff src false) = .thrown c.lose :=
          pushBuff_of_fails heap halloc
        rw [soundCall_of_thrown hstep hc]
        refine ⟨fun hzero => ⟨hlt, fun hne => absurd hzero hne⟩, fun hcareful => ?_⟩
        by_contra hne
        exact Bool.false_ne_true (hcareful.2 hne halloc)
    · refine iff_of_false (fun hsound => ?_) (fun hcareful => hlt hcareful.1)
      exact hsound.inBounds (pushBuff_of_wraps heap hc.iOffset_le (Nat.not_lt.mp hlt))
  · exact iff_of_true (soundCall_of_returned rfl consistent_reSet) trivial

variable (heap)

theorem allOk_soundCall_iff (hc : c.Consistent) (calls : List (Call w)) :
    Reach.AllOk (next heap) (SoundCall heap) c calls ↔ Reach.AllOk (next heap) Careful c calls :=
  Reach.AllOk.iff_of_invariant Consistent (fun _ call hc => soundCall_iff hc call)
    (fun _ _ _ hcall => hcall.consistent) hc calls

/-- **A buffer stays consistent throughout a run** if and only if no allocation of the run fails
while there are bytes in the buffer, and no length wraps around. -/
theorem create_allOk_soundCall_iff (ok : Bool) (iInitSize : Option (Fin w.modulus))
    (calls : List (Call w)) :
    (create heap ok iInitSize).Consistent
      ∧ (Reach.AllOk (next heap) (SoundCall heap) (create heap ok iInitSize) calls
        ↔ Reach.AllOk (next heap) Careful (create heap ok iInitSize) calls) :=
  ⟨consistent_create heap ok iInitSize,
    allOk_soundCall_iff heap (consistent_create heap ok iInitSize) calls⟩

/-- The push of one byte. -/
def oneByte (b : UInt8) : Source .bits64 :=
  ⟨some [b], ⟨1, by decide⟩, fun p hp => by cases hp; rfl⟩

/-- The second of two bytes does not fit, and there is no memory: one byte is counted, and the
buffer is NULL. -/
theorem not_allOk_soundCall :
    let c : CBuffer .bits64 := create (fun _ _ => 0) true (some ⟨1, by decide⟩)
    let calls : List (Call .bits64) := [.pushBuff (oneByte 97) true, .pushBuff (oneByte 98) false]
    let last := calls.foldl (next fun _ _ => 0) c
    last.iOffset = 1 ∧ last.iTotalSize = 0 ∧ last.pBuffer = none
      ∧ ¬ Reach.AllOk (next fun _ _ => 0) (SoundCall fun _ _ => 0) c calls := by
  intro c calls last
  refine ⟨rfl, rfl, rfl, fun h => ?_⟩
  have hcareful := ((allOk_soundCall_iff _ (consistent_create _ _ _) calls).mp h).2.1
  exact Bool.false_ne_true (hcareful.2 (by decide) (Or.inr (by decide)))

end Runs

/-! ## Runs without failures -/

section Contents

/-- The buffer is the one that `Buffer` describes. -/
structure Repr (c : CBuffer w) (B : Buffer) : Prop where
  block : c.pBuffer.getD [] = B.block
  offset : c.iOffset = B.offset

theorem Repr.consistent {B : Buffer} (h : Repr c B) : c.Consistent := by
  refine consistent_iff.mpr ?_
  rw [c.iTotalSize_eq, h.block, h.offset]
  exact B.offset_le

theorem Repr.read_eq {B : Buffer} (h : Repr c B) : c.read = some B.contents := by
  rw [h.consistent.read_eq, h.block, h.offset]
  rfl

theorem Repr.reSet {B : Buffer} (h : Repr c B) : Repr c.reSet B.reSet := ⟨h.block, rfl⟩

/-- **A push does what it does on `Buffer`**. -/
theorem Repr.pushBuff (heap : List UInt8 → ℕ → UInt8) {B : Buffer} (h : Repr c B)
    {src : Source w} (hlt : c.iOffset + src.iLens < w.modulus) :
    ∃ c', c.pushBuff heap true src = .returned c'
      ∧ Repr c' (B.pushBuff heap src.pBuff src.iLens) := by
  have hlens : (Buffer.pushed src.pBuff src.iLens).length = src.iLens := src.length_bytes
  have hnew := newSize_of_lt hlt
  have hok : c.Allocates (c.newSize src) → true = true := fun _ => rfl
  obtain ⟨hroom, hpush⟩ := pushBuff_of_not_fails heap hlt hok
  refine ⟨_, hpush, ?_, ?_⟩
  · show ((c.reNew heap true (c.newSize src)).pBuffer.map _).getD [] = _
    rw [pBuffer_reNew heap h.block, iOffset_reNew, hnew, h.offset]
    show _ = (B.reNew heap (B.offset + src.iLens)).take B.offset
      ++ Buffer.pushed src.pBuff src.iLens
      ++ (B.reNew heap (B.offset + src.iLens)).drop
        (B.offset + (Buffer.pushed src.pBuff src.iLens).length)
    rw [hlens]
    rfl
  · show ((c.reNew heap true (c.newSize src)).iOffset + src.iLens) % w.modulus = _
    rw [iOffset_reNew, Nat.mod_eq_of_lt hlt, h.offset]
    exact congrArg (B.offset + ·) hlens.symm

theorem repr_create (heap : List UInt8 → ℕ → UInt8) (ok : Bool)
    (iInitSize : Option (Fin w.modulus)) :
    ∃ B, Repr (create heap ok iInitSize) B ∧ B.contents = [] := by
  refine ⟨⟨(create heap ok iInitSize).pBuffer.getD [], 0, Nat.zero_le _⟩,
    ⟨rfl, iOffset_create heap ok iInitSize⟩, rfl⟩

/-- The bytes of a call. -/
def Call.bytes : Call w → List UInt8
  | .pushBuff src _ => src.bytes
  | .reSet => []

def Call.isPush : Call w → Bool
  | .pushBuff _ _ => true
  | .reSet => false

/-- The calls since the last `reSet`. -/
def sinceReSet (calls : List (Call w)) : List (Call w) :=
  (calls.reverse.takeWhile Call.isPush).reverse

/-- The concatenation of the blocks pushed since the last `reSet`. -/
def pushedSince (calls : List (Call w)) : List UInt8 := (sinceReSet calls).flatMap Call.bytes

theorem pushedSince_append_reSet (calls : List (Call w)) :
    pushedSince (calls ++ [.reSet]) = [] := by
  unfold pushedSince sinceReSet
  rw [List.reverse_concat]
  rfl

theorem pushedSince_append_pushBuff (calls : List (Call w)) (src : Source w) (ok : Bool) :
    pushedSince (calls ++ [.pushBuff src ok]) = pushedSince calls ++ src.bytes := by
  unfold pushedSince sinceReSet
  rw [List.reverse_concat, List.takeWhile_cons_of_pos rfl, List.reverse_cons, List.flatMap_append]
  simp [Call.bytes]

/-- A run of calls, which ends where one throws or overruns its block. -/
def run (heap : List UInt8 → ℕ → UInt8) (c : CBuffer w) (calls : List (Call w)) :
    Option (CBuffer w) :=
  calls.foldlM (fun c call =>
    match c.step heap call with
    | .returned c' => some c'
    | .thrown _ => none
    | .overrun => none) c

theorem run_append (heap : List UInt8 → ℕ → UInt8) {c₀ : CBuffer w} {calls : List (Call w)}
    {call : Call w} (h : run heap c₀ calls = some c) {c' : CBuffer w}
    (hstep : c.step heap call = .returned c') : run heap c₀ (calls ++ [call]) = some c' := by
  unfold run at h ⊢
  rw [List.foldlM_append, h]
  simp [hstep]

/-- While no allocation fails, a run does what `Buffer` does. -/
theorem exists_repr_run (heap : List UInt8 → ℕ → UInt8) {c₀ : CBuffer w} {B₀ : Buffer}
    (h₀ : Repr c₀ B₀) (hempty : B₀.contents = []) (calls : List (Call w))
    (hok : ∀ src, Call.pushBuff src false ∉ calls)
    (hfits : ∀ pre, pre <+: calls → (pushedSince pre).length < w.modulus) :
    ∃ c B, run heap c₀ calls = some c ∧ Repr c B ∧ B.contents = pushedSince calls := by
  induction calls using List.reverseRecOn with
  | nil => exact ⟨c₀, B₀, rfl, h₀, hempty⟩
  | append_singleton calls call ih =>
    obtain ⟨c, B, hrun, hrepr, hcontents⟩ := ih
      (fun src hmem => hok src (List.mem_append_left _ hmem))
      (fun pre hpre => hfits pre (hpre.trans (List.prefix_append _ _)))
    rcases call with ⟨src, ok⟩ | _
    · obtain rfl : ok = true := by
        by_contra hfalse
        rw [Bool.eq_false_of_not_eq_true hfalse] at hok
        exact hok src (List.mem_append_right _ List.mem_cons_self)
      have hlt : c.iOffset + src.iLens < w.modulus := by
        have hlength := hfits _ List.prefix_rfl
        rw [pushedSince_append_pushBuff, List.length_append, ← hcontents, Buffer.length_contents,
          Source.length_bytes] at hlength
        rwa [hrepr.offset]
      obtain ⟨c', hpush, hrepr'⟩ := hrepr.pushBuff heap hlt
      refine ⟨c', _, run_append heap hrun hpush, hrepr', ?_⟩
      rw [Buffer.contents_pushBuff, hcontents, pushedSince_append_pushBuff]
      rfl
    · refine ⟨c.reSet, B.reSet, run_append heap hrun rfl, hrepr.reSet, ?_⟩
      rw [Buffer.contents_reSet, pushedSince_append_reSet]

/-- **A buffer holds what was pushed** since the last `reSet`, whatever its initial size and
however often its block has moved. -/
theorem exists_run_read_eq (heap : List UInt8 → ℕ → UInt8) (ok : Bool)
    (iInitSize : Option (Fin w.modulus)) (calls : List (Call w))
    (hok : ∀ src, Call.pushBuff src false ∉ calls)
    (hfits : ∀ pre, pre <+: calls → (pushedSince pre).length < w.modulus) :
    ∃ c, run heap (create heap ok iInitSize) calls = some c ∧ c.read = some (pushedSince calls)
      ∧ c.iOffset = (pushedSince calls).length ∧ c.iOffset ≤ c.iTotalSize := by
  obtain ⟨B₀, h₀, hempty⟩ := repr_create heap ok iInitSize
  obtain ⟨c, B, hrun, hrepr, hcontents⟩ := exists_repr_run heap h₀ hempty calls hok hfits
  refine ⟨c, hrun, ?_, ?_, hrepr.consistent.iOffset_le⟩
  · rw [hrepr.read_eq, hcontents]
  · rw [hrepr.offset, ← B.length_contents, hcontents]

/-- A block and a NULL block, forgotten, and two more of which the second grows the buffer. -/
theorem exists_run_read_eq_five :
    let calls : List (Call .bits64) :=
      [.pushBuff (oneByte 1) true, .pushBuff ⟨none, ⟨3, by decide⟩, fun _ hp => by cases hp⟩ true,
        .reSet, .pushBuff (oneByte 7) true,
        .pushBuff ⟨none, ⟨2, by decide⟩, fun _ hp => by cases hp⟩ true]
    ∃ c, run (fun _ _ => 85) (create (fun _ _ => 85) true (some ⟨0, by decide⟩)) calls = some c
      ∧ c.read = some [7, 0, 0] ∧ c.iOffset = 3 ∧ c.iOffset ≤ c.iTotalSize := by
  intro calls
  exact exists_run_read_eq (fun _ _ => 85) true (some ⟨0, by decide⟩) calls
    (fun src hmem => by simp [calls] at hmem)
    (fun pre hpre => (by decide : ∀ pre ∈ calls.inits, (pushedSince pre).length
      < Width.bits64.modulus) pre ((List.mem_inits _ _).mpr hpre))


end Contents

end CBuffer
