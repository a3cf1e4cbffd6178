import QService.Runs

/-!
# The object pool

`CObjPool` owns a number of objects. Those in use are in a list, the others
wait in a queue; `Malloc` takes the object at the front of the queue, or a new
one when the queue is empty, and `Free` puts an object that is in use at the
back. An object is its address, and `new` gives the next one.

That no object is in the pool twice, and that the counter is the number of
objects in use, are kept by both operations whatever they are given, so a
pool carries them. The counter has 32 bits, so it is that number modulo `2 ^ 32`, and
the number itself as long as fewer objects than that are in use
(`allOk_sound_iff`).
-/

/-- A `CObjPool`. -/
structure ObjPool where
  uiCount : UInt32
  lstUsed : List ℕ
  quFree : List ℕ
  /-- The address that `new` gives next. -/
  top : ℕ
  nodup : (lstUsed ++ quFree).Nodup
  lt_top : ∀ p ∈ lstUsed ++ quFree, p < top
  uiCount_eq : uiCount = UInt32.ofNat lstUsed.length

namespace ObjPool

/-- `CObjPool::Init`. -/
def init (uiInitNum : ℕ) : ObjPool where
  uiCount := 0
  lstUsed := []
  quFree := List.range uiInitNum
  top := uiInitNum
  nodup := List.nodup_range
  lt_top _ hp := List.mem_range.mp hp
  uiCount_eq := rfl

/-- The pool after `p`, which was not in use, was put in the list of objects in
use. -/
def push (P : ObjPool) (p : ℕ) (free : List ℕ) (top : ℕ)
    (hnodup : (P.lstUsed ++ p :: free).Nodup) (hlt : ∀ q ∈ P.lstUsed ++ p :: free, q < top) :
    ObjPool where
  uiCount := P.uiCount + 1
  lstUsed := P.lstUsed ++ [p]
  quFree := free
  top := top
  nodup := by rwa [List.append_assoc, List.singleton_append]
  lt_top q hq := hlt q (by rwa [List.append_assoc, List.singleton_append] at hq)
  uiCount_eq := by
    rw [P.uiCount_eq, List.length_append, List.length_singleton, UInt32.ofNat_add]
    rfl

/-- `CObjPool::Malloc`. -/
def malloc (P : ObjPool) : ℕ × ObjPool :=
  match hfree : P.quFree with
  | [] =>
    (P.top, P.push P.top [] (P.top + 1)
      (by
        have hnodup := P.nodup
        rw [hfree, List.append_nil] at hnodup
        refine List.nodup_append.mpr ⟨hnodup, List.nodup_singleton _, fun q hq r hr => ?_⟩
        have hlt := P.lt_top q (List.mem_append_left _ hq)
        rw [List.mem_singleton.mp hr]
        exact Nat.ne_of_lt hlt)
      (by
        intro q hq
        rcases List.mem_append.mp hq with hq | hq
        · exact Nat.lt_succ_of_lt (P.lt_top q (List.mem_append_left _ hq))
        · rw [List.mem_singleton.mp hq]
          exact Nat.lt_succ_self _))
  | p :: free => (p, P.push p free P.top (hfree ▸ P.nodup) (hfree ▸ P.lt_top))

/-- `CObjPool::Free`, which does nothing for an object that is not in use. -/
def free (P : ObjPool) (p : ℕ) : ObjPool :=
  if hp : p ∈ P.lstUsed then
    { uiCount := P.uiCount - 1
      lstUsed := P.lstUsed.erase p
      quFree := P.quFree ++ [p]
      top := P.top
      nodup := by
        have hperm : (P.lstUsed.erase p ++ (P.quFree ++ [p])).Perm (P.lstUsed ++ P.quFree) := by
          rw [← List.append_assoc]
          refine List.perm_append_comm.trans ?_
          exact (List.Perm.append_right P.quFree (List.perm_cons_erase hp)).symm
        exact hperm.nodup_iff.mpr P.nodup
      lt_top := by
        intro q hq
        refine P.lt_top q ?_
        rcases List.mem_append.mp hq with hq | hq
        · exact List.mem_append_left _ (List.mem_of_mem_erase hq)
        · rcases List.mem_append.mp hq with hq | hq
          · exact List.mem_append_right _ hq
          · rw [List.mem_singleton.mp hq]
            exact List.mem_append_left _ hp
      uiCount_eq := by
        have hpos := List.length_pos_of_mem hp
        rw [P.uiCount_eq, List.length_erase_of_mem hp, UInt32.ofNat_sub hpos]
        rfl }
  else P

/-! ## What the operations do -/

variable (P : ObjPool)

/-- The object that `Malloc` gives comes from the queue, or is new. -/
theorem malloc_cases :
    (∃ free, P.quFree = P.malloc.1 :: free ∧ P.malloc.2.quFree = free ∧ P.malloc.2.top = P.top)
      ∨ (P.quFree = [] ∧ P.malloc.1 = P.top ∧ P.malloc.2.quFree = []
        ∧ P.malloc.2.top = P.top + 1) := by
  unfold malloc
  split
  · rename_i hfree
    exact .inr ⟨hfree, rfl, rfl, rfl⟩
  · rename_i p free hfree
    exact .inl ⟨free, hfree, rfl, rfl⟩

@[simp] theorem lstUsed_malloc : P.malloc.2.lstUsed = P.lstUsed ++ [P.malloc.1] := by
  unfold malloc
  split <;> rfl

/-- The object that `Malloc` gives was not in use. -/
theorem malloc_notMem_lstUsed : P.malloc.1 ∉ P.lstUsed := by
  have hnodup := P.malloc.2.nodup
  rw [lstUsed_malloc] at hnodup
  intro hmem
  have happ := (List.nodup_append.mp (List.nodup_append.mp hnodup).1).2.2
  exact happ _ hmem _ (List.mem_singleton_self _) rfl

/-- An object that waits after `Malloc` waited before. -/
theorem mem_quFree_of_malloc {q : ℕ} (h : q ∈ P.malloc.2.quFree) : q ∈ P.quFree := by
  rcases P.malloc_cases with ⟨free, hfree, hq, -⟩ | ⟨-, -, hq, -⟩
  · rw [hfree]
    rw [hq] at h
    exact List.mem_cons_of_mem _ h
  · rw [hq] at h
    cases h

@[simp] theorem lstUsed_free (p : ℕ) : (P.free p).lstUsed = P.lstUsed.erase p := by
  unfold free
  split_ifs with h
  · rfl
  · exact (List.erase_of_not_mem h).symm

theorem quFree_free_of_mem {p : ℕ} (h : p ∈ P.lstUsed) :
    (P.free p).quFree = P.quFree ++ [p] := by
  unfold free
  rw [dif_pos h]

/-- An object that waits after `Free` waited before, or is the one freed. -/
theorem mem_quFree_of_free {p q : ℕ} (h : q ∈ (P.free p).quFree) : q ∈ P.quFree ∨ q = p := by
  by_cases hp : p ∈ P.lstUsed
  · rw [P.quFree_free_of_mem hp] at h
    exact (List.mem_append.mp h).imp_right List.mem_singleton.mp
  · unfold free at h
    rw [dif_neg hp] at h
    exact .inl h

/-- Several objects are freed. -/
theorem lstUsed_foldl_free (order : List ℕ) :
    (order.foldl free P).lstUsed = P.lstUsed.diff order := by
  induction order generalizing P with
  | nil => rfl
  | cons p order ih => rw [List.foldl_cons, ih, lstUsed_free, List.diff_cons]

theorem mem_quFree_of_foldl_free {order : List ℕ} {q : ℕ}
    (h : q ∈ (order.foldl free P).quFree) : q ∈ P.quFree ∨ q ∈ order := by
  induction order generalizing P with
  | nil => exact .inl h
  | cons p order ih =>
    rcases ih (P.free p) h with hq | hq
    · rcases P.mem_quFree_of_free hq with hq | rfl
      · exact .inl hq
      · exact .inr List.mem_cons_self
    · exact .inr (List.mem_cons_of_mem _ hq)

/-- Objects in use and objects that wait are different ones. -/
theorem disjoint : P.lstUsed.Disjoint P.quFree :=
  List.disjoint_of_nodup_append P.nodup

theorem nodup_lstUsed : P.lstUsed.Nodup := (List.nodup_append.mp P.nodup).1

/-! ## Runs -/

/-- The calls. NULL is `none`, and any other pointer may be given to `Free`. -/
inductive Call
  | malloc
  | free (pObj : Option ℕ)

/-- The pool after a call. -/
def next (P : ObjPool) : Call → ObjPool
  | .malloc => P.malloc.2
  | .free none => P
  | .free (some pObj) => P.free pObj

/-- Every object that was made is in the pool. -/
def Owned (P : ObjPool) : Prop := ∀ p < P.top, p ∈ P.lstUsed ∨ p ∈ P.quFree

/-- **No object is lost or there twice**, and the counter is the number of those in use. -/
structure Sound (P : ObjPool) : Prop where
  nodup_lstUsed : P.lstUsed.Nodup
  nodup_quFree : P.quFree.Nodup
  disjoint : P.lstUsed.Disjoint P.quFree
  uiCount : P.uiCount.toNat = P.lstUsed.length
  owned : ∀ p < P.top, Xor (p ∈ P.lstUsed) (p ∈ P.quFree)

/-- A call leaves the pool sound, `Malloc` does not return an object in use, and the counter is
not 0 where `Free` counts down. -/
def SoundCall (P : ObjPool) (call : Call) : Prop :=
  (P.next call).Sound
    ∧ (call = .malloc → P.malloc.1 ∉ P.lstUsed)
    ∧ ∀ p ∈ P.lstUsed, call = .free (some p) → P.uiCount ≠ 0

/-- The number of objects in use stays one of 32 bits. -/
def Countable (P : ObjPool) (call : Call) : Prop :=
  call = .malloc → P.lstUsed.length + 1 < 2 ^ 32

theorem owned_init (uiInitNum : ℕ) : (init uiInitNum).Owned :=
  fun _ hp => Or.inr (List.mem_range.mpr hp)

theorem top_free (p : ℕ) : (P.free p).top = P.top := by
  unfold free
  split_ifs <;> rfl

variable {P}

theorem Owned.malloc (h : P.Owned) : P.malloc.2.Owned := by
  intro q hq
  rw [lstUsed_malloc, List.mem_append, List.mem_singleton]
  rcases P.malloc_cases with ⟨free, hfree, hfree', htop⟩ | ⟨hfree, hnew, -, htop⟩
  · rcases h q (htop ▸ hq) with hmem | hmem
    · exact Or.inl (Or.inl hmem)
    · rw [hfree] at hmem
      rcases List.mem_cons.mp hmem with heq | hmem
      · exact Or.inl (Or.inr heq)
      · exact Or.inr (hfree' ▸ hmem)
  · rcases Nat.lt_succ_iff_lt_or_eq.mp (htop ▸ hq) with hlt | heq
    · rcases h q hlt with hmem | hmem
      · exact Or.inl (Or.inl hmem)
      · rw [hfree] at hmem
        cases hmem
    · exact Or.inl (Or.inr (heq.trans hnew.symm))

theorem Owned.free (h : P.Owned) (p : ℕ) : (P.free p).Owned := by
  by_cases hp : p ∈ P.lstUsed
  · intro q hq
    rw [lstUsed_free, P.quFree_free_of_mem hp, List.mem_append, List.mem_singleton]
    rcases h q (P.top_free p ▸ hq) with hmem | hmem
    · by_cases hqp : q = p
      · exact Or.inr (Or.inr hqp)
      · exact Or.inl ((List.mem_erase_of_ne hqp).mpr hmem)
    · exact Or.inr (Or.inl hmem)
  · unfold ObjPool.free
    rwa [dif_neg hp]

theorem Owned.next (h : P.Owned) (call : Call) : (P.next call).Owned := by
  rcases call with _ | _ | p
  · exact h.malloc
  · exact h
  · exact h.free p

/-- A pool that owns its objects is sound, if their number has 32 bits. -/
theorem Owned.sound_iff (h : P.Owned) : P.Sound ↔ P.lstUsed.length < 2 ^ 32 := by
  have hcount : P.uiCount.toNat = P.lstUsed.length % 2 ^ 32 := by
    rw [P.uiCount_eq]
    exact UInt32.toNat_ofNat'
  constructor
  · intro hs
    have heq := hs.uiCount
    omega
  · intro hlt
    refine ⟨P.nodup_lstUsed, (List.nodup_append.mp P.nodup).2.1, P.disjoint,
      hcount.trans (Nat.mod_eq_of_lt hlt), fun p hp => ?_⟩
    rcases h p hp with hmem | hmem
    · exact Or.inl ⟨hmem, P.disjoint hmem⟩
    · exact Or.inr ⟨hmem, fun hused => P.disjoint hused hmem⟩

/-- **A call is sound if and only if the objects in use stay countable.** -/
theorem soundCall_iff (h : P.Owned) (hlt : P.lstUsed.length < 2 ^ 32) (call : Call) :
    P.SoundCall call ↔ P.Countable call := by
  have hcount : P.uiCount.toNat = P.lstUsed.length := (h.sound_iff.mpr hlt).uiCount
  have hlength : (P.next call).lstUsed.length < 2 ^ 32 ↔ P.Countable call := by
    rcases call with _ | _ | p
    · show P.malloc.2.lstUsed.length < 2 ^ 32 ↔ _
      rw [lstUsed_malloc, List.length_append, List.length_singleton]
      exact ⟨fun h _ => h, fun h => h rfl⟩
    · exact ⟨fun _ h => (by cases h), fun _ => hlt⟩
    · refine ⟨fun _ h => (by cases h), fun _ => ?_⟩
      show (P.free p).lstUsed.length < 2 ^ 32
      rw [lstUsed_free]
      exact List.length_erase_le.trans_lt hlt
  rw [SoundCall, (h.next call).sound_iff, hlength]
  refine and_iff_left ⟨fun _ => P.malloc_notMem_lstUsed, fun p hp _ hzero => ?_⟩
  have hpos := List.length_pos_of_mem hp
  rw [hzero] at hcount
  exact absurd hcount (Nat.ne_of_lt hpos)

/-- Every `Malloc` of a row takes one more object into use. -/
theorem length_of_countable {k : ℕ}
    (h : Reach.AllOk next Countable P (List.replicate k .malloc)) (hk : k ≠ 0) :
    P.lstUsed.length + k < 2 ^ 32 := by
  induction k generalizing P with
  | zero => exact absurd rfl hk
  | succ k ih =>
    rw [List.replicate_succ] at h
    by_cases hzero : k = 0
    · rw [hzero]
      exact h.1 rfl
    · have hrest := ih h.2 hzero
      have hlength : (P.next .malloc).lstUsed.length = P.lstUsed.length + 1 := by
        show P.malloc.2.lstUsed.length = _
        rw [lstUsed_malloc, List.length_append, List.length_singleton]
      omega

theorem allOk_iff (uiInitNum : ℕ) (calls : List Call) :
    Reach.AllOk next SoundCall (init uiInitNum) calls
      ↔ Reach.AllOk next Countable (init uiInitNum) calls := by
  refine Reach.AllOk.iff_of_invariant (fun P => P.Owned ∧ P.lstUsed.length < 2 ^ 32)
    (fun P call hP => soundCall_iff hP.1 hP.2 call) (fun P call hP hcall => ?_)
    ⟨owned_init uiInitNum, Nat.two_pow_pos 32⟩ calls
  have hnext := hP.1.next call
  exact ⟨hnext, hnext.sound_iff.mp hcall.1⟩

/-- **The pool is sound throughout a run** if and only if each `Malloc` comes with fewer than
`2 ^ 32 - 1` objects in use. -/
theorem allOk_sound_iff (uiInitNum : ℕ) (calls : List Call) :
    (init uiInitNum).Sound ∧ (Reach.AllOk next SoundCall (init uiInitNum) calls
      ↔ Reach.AllOk next Countable (init uiInitNum) calls) :=
  ⟨(owned_init uiInitNum).sound_iff.mpr (Nat.two_pow_pos 32), allOk_iff uiInitNum calls⟩

/-- The `2 ^ 32`th `Malloc` without a `Free` makes the counter 0. -/
theorem not_allOk_sound :
    ¬ Reach.AllOk next SoundCall (init 0) (List.replicate (2 ^ 32) .malloc) := by
  rw [allOk_iff]
  intro h
  have hlt := length_of_countable h (by norm_num)
  exact absurd hlt (by simp)

end ObjPool
