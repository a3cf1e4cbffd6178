import Mathlib.Tactic

/-!
# Memory in blocks

A program gets its memory in blocks, by their addresses. A block is there from its
allocation until it is deleted, and then its address may be given out again.

A program in which everyone who needs memory owns at most one block (`Heap.Owned`) keeps to
this: an owner may delete its block, get a new one and write to the one it has, and what
the others have written stays. Nothing here is about one program.
-/

/-- The blocks that have been allocated, by their addresses. From an address on there are
none. -/
structure Heap where
  block : ℕ → Option (List UInt8)
  top : ℕ
  block_top : ∀ a, top ≤ a → block a = none

namespace Heap

def empty : Heap := ⟨fun _ => none, 0, fun _ _ => rfl⟩

/-- `delete`, which does nothing for NULL. -/
def free (H : Heap) : Option ℕ → Heap
  | none => H
  | some a =>
    { block := Function.update H.block a none
      top := H.top
      block_top := fun c hc => by
        by_cases hca : c = a
        · rw [hca, Function.update_self]
        · rw [Function.update_of_ne hca, H.block_top c hc] }

def alloc (H : Heap) (a : ℕ) (b : List UInt8) : Heap where
  block := Function.update H.block a (some b)
  top := max H.top (a + 1)
  block_top c hc := by
    rw [Function.update_of_ne (by omega), H.block_top c (by omega)]

/-- `memcpy` to the start of a block. -/
def copy (H : Heap) (a : ℕ) (bytes : List UInt8) : Heap where
  block := Function.update H.block a ((H.block a).map fun b => bytes ++ b.drop bytes.length)
  top := H.top
  block_top c hc := by
    by_cases hca : c = a
    · rw [hca, Function.update_self, ← hca, H.block_top c hc]
      rfl
    · rw [Function.update_of_ne hca, H.block_top c hc]

/-- So many bytes at a pointer. `none` stands for a NULL pointer, for a block that has been
deleted and for a place behind the end of a block. -/
def read (H : Heap) (p : Option ℕ) (n : ℕ) : Option (List UInt8) :=
  if n = 0 then some []
  else
    match p.bind H.block with
    | none => none
    | some b => if n ≤ b.length then some (b.take n) else none

variable {H : Heap}

/-- The pointer is one of a block with these bytes in front. -/
def Holds (H : Heap) (a : ℕ) (bytes : List UInt8) : Prop := ∃ rest, H.block a = some (bytes ++ rest)

theorem Holds.read {a : ℕ} {bytes : List UInt8} (h : H.Holds a bytes) :
    H.read (some a) bytes.length = some bytes := by
  obtain ⟨rest, hblock⟩ := h
  unfold Heap.read
  split_ifs with hnil
  · rw [List.eq_nil_of_length_eq_zero hnil]
  · rw [Option.bind_some, hblock]
    dsimp only
    rw [if_pos (by rw [List.length_append]; omega), List.take_left]

/-- The owners of blocks: no block has two, and the block of an owner has its length. -/
structure Owned {ι : Type*} (H : Heap) (own : ι → Option ℕ) (lens : ι → ℕ) : Prop where
  live : ∀ i a, own i = some a → ∃ b, H.block a = some b ∧ b.length = lens i
  unique : ∀ i j a, own i = some a → own j = some a → i = j

section Owned

variable {ι : Type*} {own : ι → Option ℕ} {lens : ι → ℕ} {i : ι}

theorem block_free_ne {p : Option ℕ} {a : ℕ} (h : p ≠ some a) : (H.free p).block a = H.block a := by
  cases p with
  | none => rfl
  | some a' => exact Function.update_of_ne (fun ha => h (congrArg some ha.symm)) _ _

/-- **An owner deletes its block.** -/
theorem Owned.free [DecidableEq ι] (h : H.Owned own lens) (i : ι) :
    (H.free (own i)).Owned (Function.update own i none) lens := by
  have hof {j : ι} {a : ℕ} (hj : Function.update own i none j = some a) :
      j ≠ i ∧ own j = some a := by
    by_cases hji : j = i
    · rw [hji, Function.update_self] at hj
      cases hj
    · rw [Function.update_of_ne hji] at hj
      exact ⟨hji, hj⟩
  refine ⟨fun j a hj => ?_, fun j k a hj hk => h.unique j k a (hof hj).2 (hof hk).2⟩
  obtain ⟨hji, hj⟩ := hof hj
  rw [block_free_ne fun hi => hji (h.unique j i a hj hi)]
  exact h.live j a hj

/-- **An owner without a block gets a new one**, at an address that is free. -/
theorem Owned.alloc [DecidableEq ι] (h : H.Owned own lens) {a : ℕ} (ha : H.block a = none)
    (b : List UInt8) :
    (H.alloc a b).Owned (Function.update own i (some a)) (Function.update lens i b.length) := by
  have hfree {j : ι} {c : ℕ} (hj : own j = some c) : c ≠ a := by
    obtain ⟨b', hb', -⟩ := h.live j c hj
    rintro rfl
    rw [ha] at hb'
    cases hb'
  have hof {j : ι} {c : ℕ} (hj : Function.update own i (some a) j = some c) :
      (j = i ∧ c = a) ∨ (j ≠ i ∧ own j = some c ∧ c ≠ a) := by
    by_cases hji : j = i
    · rw [hji, Function.update_self] at hj
      exact .inl ⟨hji, (Option.some.inj hj).symm⟩
    · rw [Function.update_of_ne hji] at hj
      exact .inr ⟨hji, hj, hfree hj⟩
  constructor
  · intro j c hj
    rcases hof hj with ⟨rfl, rfl⟩ | ⟨hji, hj, hca⟩
    · exact ⟨b, Function.update_self _ _ _, by rw [Function.update_self]⟩
    · obtain ⟨b', hb', hlen⟩ := h.live j c hj
      refine ⟨b', ?_, by rw [Function.update_of_ne hji, hlen]⟩
      rw [← hb']
      exact Function.update_of_ne hca _ _
  · intro j k c hj hk
    rcases hof hj with ⟨rfl, rfl⟩ | ⟨-, hj, hca⟩
    · rcases hof hk with ⟨rfl, -⟩ | ⟨-, -, hcc⟩
      · rfl
      · exact absurd rfl hcc
    · rcases hof hk with ⟨-, rfl⟩ | ⟨-, hk, -⟩
      · exact absurd rfl hca
      · exact h.unique j k c hj hk

/-- **An owner writes to its block.** -/
theorem Owned.copy (h : H.Owned own lens) {a : ℕ} (ha : own i = some a) {bytes : List UInt8}
    (hle : bytes.length ≤ lens i) : (H.copy a bytes).Owned own lens := by
  refine ⟨fun j c hj => ?_, h.unique⟩
  obtain ⟨b, hb, hlen⟩ := h.live j c hj
  by_cases hca : c = a
  · subst hca
    obtain rfl := h.unique j i c hj ha
    refine ⟨bytes ++ b.drop bytes.length, ?_, ?_⟩
    · show Function.update H.block c _ c = _
      rw [Function.update_self, hb]
      rfl
    · rw [List.length_append, List.length_drop, hlen]
      omega
  · refine ⟨b, ?_, hlen⟩
    rw [← hb]
    exact Function.update_of_ne hca _ _

/-- What it wrote is there. -/
theorem Owned.holds_copy (h : H.Owned own lens) {a : ℕ} (ha : own i = some a)
    (bytes : List UInt8) : (H.copy a bytes).Holds a bytes := by
  obtain ⟨b, hb, -⟩ := h.live i a ha
  refine ⟨b.drop bytes.length, ?_⟩
  show Function.update H.block a _ a = _
  rw [Function.update_self, hb]
  rfl

theorem block_alloc_ne {a c : ℕ} (h : c ≠ a) (b : List UInt8) : (H.alloc a b).block c = H.block c :=
  Function.update_of_ne h _ _

theorem block_copy_ne {a c : ℕ} (h : c ≠ a) (bytes : List UInt8) :
    (H.copy a bytes).block c = H.block c :=
  Function.update_of_ne h _ _

/-- What another owner has written is still there when a block is deleted, -/
theorem Owned.holds_free (h : H.Owned own lens) {j : ι} {c : ℕ} (hj : own j = some c) (hji : j ≠ i)
    {bytes : List UInt8} (hH : H.Holds c bytes) : (H.free (own i)).Holds c bytes := by
  obtain ⟨rest, hrest⟩ := hH
  exact ⟨rest, by rw [block_free_ne fun hi => hji (h.unique j i c hj hi), hrest]⟩

/-- when one is allocated, -/
theorem Holds.alloc {a c : ℕ} {bytes : List UInt8} (hH : H.Holds c bytes) (ha : H.block a = none)
    (b : List UInt8) : (H.alloc a b).Holds c bytes := by
  obtain ⟨rest, hrest⟩ := hH
  refine ⟨rest, ?_⟩
  rw [block_alloc_ne, hrest]
  rintro rfl
  rw [ha] at hrest
  cases hrest

/-- and when its owner writes to one. -/
theorem Owned.holds_copy_ne (h : H.Owned own lens) {a c : ℕ} {j : ι} (hi : own i = some a)
    (hj : own j = some c) (hji : j ≠ i) (bytes' : List UInt8) {bytes : List UInt8}
    (hH : H.Holds c bytes) : (H.copy a bytes').Holds c bytes := by
  obtain ⟨rest, hrest⟩ := hH
  refine ⟨rest, ?_⟩
  rw [block_copy_ne, hrest]
  rintro rfl
  exact hji (h.unique j i c hj hi)

end Owned

end Heap

/-! ## The allocator -/

/-- What an allocator does next: it finds no memory, or it gives an address where none is, and
what is in the memory there. -/
structure Allocator where
  new : Heap → Option (ℕ × (ℕ → UInt8))
  fresh : ∀ H a junk, new H = some (a, junk) → H.block a = none

namespace Allocator

/-- The first free address. -/
def first : Allocator where
  new H := some (((List.range H.top).find? fun a => (H.block a).isNone).getD H.top, fun _ => 255)
  fresh H a junk h := by
    obtain ⟨rfl, -⟩ := Prod.mk.inj (Option.some.inj h)
    cases hfind : (List.range H.top).find? fun a => (H.block a).isNone with
    | none => exact H.block_top _ le_rfl
    | some a => simpa using List.find?_some hfind

end Allocator
