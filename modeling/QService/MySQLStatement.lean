import QService.CInt
import QService.Heap
import QService.QString

/-!
# The parameters of a statement

A `CMySQLStatement` keeps a block of memory for each of its parameters. A `bind`
function copies its value there, after `setBindInfo` has made a new block if the old one
is too small, and leaves the address in the `MYSQL_BIND` of the parameter.
`mysql_stmt_execute` reads the values through these addresses.

So a value counts as long as its block is there. `clearParam` deletes the blocks, and a
`bind` that gets no memory for its value has deleted the one before; but the addresses stay
where they are. What is sent is what was bound last, and it is read from the
parameter's own memory, exactly if no value was lost in one of these ways
(`execDML_iff`).

How many bytes the library reads for a parameter is its own business: all that is used of it is
what `ParamReads` says.
-/

open ByteOrder QString

/-- The types that `buffer_type` can have. That of a parameter which was never bound is 0,
`MYSQL_TYPE_DECIMAL`. -/
inductive FieldType
  | decimal | long | double | null | longlong | blob | string
  deriving DecidableEq, Repr

/-- How many bytes `mysql_stmt_execute` reads for a parameter, by its `buffer_type` and its
`buffer_length`: what a number of the type has, and for a text as many as there are. -/
structure ParamReads where
  lens : FieldType → ℕ → ℕ
  null : ∀ n, lens .null n = 0
  long : ∀ n, lens .long n = 4
  longlong : ∀ n, lens .longlong n = 8
  double : ∀ n, lens .double n = 8
  decimal : ∀ n, lens .decimal n = n
  blob : ∀ n, lens .blob n = n
  string : ∀ n, lens .string n = n

/-- What the library is said to read. -/
def ParamReads.documented : ParamReads where
  lens
    | .null, _ => 0
    | .long, _ => 4
    | .longlong, _ | .double, _ => 8
    | .decimal, n | .blob, n | .string, n => n
  null _ := rfl
  long _ := rfl
  longlong _ := rfl
  double _ := rfl
  decimal _ := rfl
  blob _ := rfl
  string _ := rfl

/-- What the code uses of a `MYSQL_BIND`. -/
structure MySQLBind where
  buffer : Option ℕ
  buffer_type : FieldType
  buffer_length : ℕ
  deriving DecidableEq, Repr

/-- The bytes that are read for the parameter. -/
def MySQLBind.lens (Q : ParamReads) (b : MySQLBind) : ℕ := Q.lens b.buffer_type b.buffer_length

/-- The memory of a parameter. -/
structure BindMemInfo where
  iLens : ℕ
  pMem : Option ℕ
  deriving DecidableEq, Repr

/-- A `CMySQLStatement` with `n` parameters, and the memory it has allocated. -/
structure MySQLStatement (n : ℕ) where
  binderParam : Fin n → MySQLBind
  bindMemInfo : Fin n → BindMemInfo
  heap : Heap

namespace MySQLStatement

variable {n : ℕ} {S : MySQLStatement n} {Q : ParamReads}

/-! ## The code -/

/-- The constructor. -/
def create (n : ℕ) : MySQLStatement n where
  binderParam _ := ⟨none, .decimal, 0⟩
  bindMemInfo _ := ⟨0, none⟩
  heap := .empty

/-- `delete` of the memory of a parameter, which leaves NULL there. -/
def delMem (S : MySQLStatement n) (i : Fin n) : MySQLStatement n :=
  { S with
    bindMemInfo := Function.update S.bindMemInfo i ⟨(S.bindMemInfo i).iLens, none⟩
    heap := S.heap.free (S.bindMemInfo i).pMem }

/-- `setBindInfo`. `false` stands for an exception, here and below. -/
def setBindInfo (i : Fin n) (iLens : ℕ) (mem : Allocator) (S : MySQLStatement n) :
    Bool × MySQLStatement n :=
  if (S.bindMemInfo i).pMem = none ∨ (S.bindMemInfo i).iLens < iLens then
    let S := S.delMem i
    match mem.new S.heap with
    | none => (false, S)
    | some (a, junk) =>
      (true,
        { S with
          bindMemInfo := Function.update S.bindMemInfo i ⟨iLens, some a⟩
          heap := S.heap.alloc a ((List.range iLens).map junk) })
  else (true, S)

/-- What the `bind` functions do with a value: `iRoom` is the memory they ask for. -/
def bindMem (iField : ℤ) (iRoom : ℕ) (bytes : List UInt8) (buffer_type : FieldType)
    (mem : Allocator) (S : MySQLStatement n) : Bool × MySQLStatement n :=
  -- `CheckParam`
  if h : 0 ≤ iField ∧ iField < n then
    let i : Fin n := ⟨iField.toNat, by omega⟩
    match S.setBindInfo i iRoom mem with
    | (false, S) => (false, S)
    | (true, S) =>
      match (S.bindMemInfo i).pMem with
      -- not reached: `setBindInfo` has left memory there
      | none => (false, S)
      | some a =>
        (true,
          { S with
            binderParam := Function.update S.binderParam i ⟨some a, buffer_type, bytes.length⟩
            heap := S.heap.copy a bytes })
  else (false, S)

/-- `bindString`. -/
def bindString (iField : ℤ) (pszValue : List UInt8) (mem : Allocator) (S : MySQLStatement n) :
    Bool × MySQLStatement n :=
  S.bindMem iField ((cString pszValue).length + 1) (cString pszValue) .string mem

/-- `bindInt`. -/
def bindInt (iField : ℤ) (iValue : ℤ) (mem : Allocator) (S : MySQLStatement n) :
    Bool × MySQLStatement n :=
  S.bindMem iField 4 (store .little 4 (CInt.int.toBits iValue)) .long mem

/-- `bindInt64`. -/
def bindInt64 (iField : ℤ) (iValue : ℤ) (mem : Allocator) (S : MySQLStatement n) :
    Bool × MySQLStatement n :=
  S.bindMem iField 8 (store .little 8 (CInt.int64.toBits iValue)) .longlong mem

/-- `bindFloat`, given the bits of the number. -/
def bindFloat (iField : ℤ) (dValue : UInt64) (mem : Allocator) (S : MySQLStatement n) :
    Bool × MySQLStatement n :=
  S.bindMem iField 8 (store .little 8 dValue.toNat) .double mem

/-- `bindBlob`. -/
def bindBlob (iField : ℤ) (blobValue : List UInt8) (mem : Allocator) (S : MySQLStatement n) :
    Bool × MySQLStatement n :=
  S.bindMem iField (blobValue.length + 1) blobValue .blob mem

/-- `bindNull`. -/
def bindNull (iField : ℤ) (S : MySQLStatement n) : Bool × MySQLStatement n :=
  if h : 0 ≤ iField ∧ iField < n then
    (true,
      { S with
        binderParam := Function.update S.binderParam ⟨iField.toNat, by omega⟩ ⟨none, .null, 0⟩ })
  else (false, S)

/-- `clearParam`. -/
def clearParam (S : MySQLStatement n) : MySQLStatement n :=
  (List.finRange n).foldl delMem S

/-- What `mysql_stmt_execute` sends for a parameter, or `none` if the memory is not there. -/
def param (Q : ParamReads) (S : MySQLStatement n) (i : Fin n) : Option (FieldType × List UInt8) :=
  (S.heap.read (S.binderParam i).buffer ((S.binderParam i).lens Q)).map
    (Prod.mk (S.binderParam i).buffer_type)

/-- What `execDML` and `execQuery` send to the server. -/
def execDML (Q : ParamReads) (S : MySQLStatement n) : Option (List (FieldType × List UInt8)) :=
  (List.finRange n).mapM (S.param Q)

/-! ## What is bound -/

/-- What a `bind` function is given. -/
inductive Value
  | string (pszValue : List UInt8)
  | int (iValue : ℤ)
  | int64 (iValue : ℤ)
  | float (dValue : UInt64)
  | blob (blobValue : List UInt8)
  | null
  deriving DecidableEq, Repr

namespace Value

/-- The value as it should be sent. -/
def sent : Value → FieldType × List UInt8
  | string pszValue => (.string, cString pszValue)
  | int iValue => (.long, store .little 4 (CInt.int.toBits iValue))
  | int64 iValue => (.longlong, store .little 8 (CInt.int64.toBits iValue))
  | float dValue => (.double, store .little 8 dValue.toNat)
  | blob blobValue => (.blob, blobValue)
  | null => (.null, [])

/-- The `bind` function for the value. -/
def bind (iField : ℤ) (mem : Allocator) (S : MySQLStatement n) : Value → Bool × MySQLStatement n
  | string pszValue => S.bindString iField pszValue mem
  | int iValue => S.bindInt iField iValue mem
  | int64 iValue => S.bindInt64 iField iValue mem
  | float dValue => S.bindFloat iField dValue mem
  | blob blobValue => S.bindBlob iField blobValue mem
  | null => S.bindNull iField

end Value

/-- What has become of a parameter since the statement was made. -/
inductive Bound
  | unbound
  | value (v : Value)
  /-- the memory of its value was deleted -/
  | lost
  deriving DecidableEq, Repr

namespace Bound

/-- What should be sent for the parameter. -/
def sent : Bound → FieldType × List UInt8
  | unbound | lost => (.decimal, [])
  | value v => v.sent

/-- The memory of the parameter is deleted. A value without bytes needs none. -/
def forget : Bound → Bound
  | unbound => unbound
  | value v => if v.sent.2 = [] then value v else lost
  | lost => lost

end Bound

/-- A statement, and what was bound. -/
structure Tracked (n : ℕ) where
  stmt : MySQLStatement n
  bound : Fin n → Bound

/-- The calls on a statement. `execDML` and `execQuery` change nothing in it. -/
inductive Call
  | bind (iField : ℤ) (v : Value) (mem : Allocator)
  | clearParam

namespace Tracked

def create (n : ℕ) : Tracked n := ⟨.create n, fun _ => .unbound⟩

/-- A call. A `bind` that throws an exception has deleted the memory of its parameter, if
there is such a parameter. -/
def step (T : Tracked n) : Call → Tracked n
  | .bind iField v mem =>
    if h : 0 ≤ iField ∧ iField < n then
      let i : Fin n := ⟨iField.toNat, by omega⟩
      let r := v.bind iField mem T.stmt
      ⟨r.2, Function.update T.bound i (if r.1 then .value v else (T.bound i).forget)⟩
    else ⟨(v.bind iField mem T.stmt).2, T.bound⟩
  | .clearParam => ⟨T.stmt.clearParam, fun i => (T.bound i).forget⟩

end Tracked

/-! ## Where the values are -/

/-- The memory that is read for the parameter is its own. -/
def InOwn (Q : ParamReads) (S : MySQLStatement n) (i : Fin n) : Prop :=
  (S.binderParam i).lens Q = 0
    ∨ ∃ a b, (S.binderParam i).buffer = some a ∧ (S.bindMemInfo i).pMem = some a
      ∧ S.heap.block a = some b ∧ (S.binderParam i).lens Q ≤ b.length

/-- What was bound is what the parameter has. -/
def Right (Q : ParamReads) (S : MySQLStatement n) (i : Fin n) : Bound → Prop
  | .unbound => S.binderParam i = ⟨none, .decimal, 0⟩
  | .value v =>
    (S.binderParam i).buffer_type = v.sent.1 ∧ (S.binderParam i).lens Q = v.sent.2.length
      ∧ (v.sent.2 = [] ∨ ∃ a, (S.binderParam i).buffer = some a ∧ (S.bindMemInfo i).pMem = some a
        ∧ S.heap.Holds a v.sent.2)
  | .lost => (S.binderParam i).lens Q ≠ 0 ∧ (S.bindMemInfo i).pMem = none

theorem Right.congr {S' : MySQLStatement n} {i : Fin n} {b : Bound} (h : S.Right Q i b)
    (hbinder : S'.binderParam i = S.binderParam i)
    (hmem : (S'.bindMemInfo i).pMem = (S.bindMemInfo i).pMem)
    (hheap : ∀ a bytes, (S.bindMemInfo i).pMem = some a → S.heap.Holds a bytes →
      S'.heap.Holds a bytes) : S'.Right Q i b := by
  cases b with
  | unbound =>
    show S'.binderParam i = _
    rw [hbinder]
    exact h
  | lost =>
    show (S'.binderParam i).lens Q ≠ 0 ∧ _
    rw [hbinder, hmem]
    exact h
  | value v =>
    obtain ⟨htype, hlens, hbytes⟩ := h
    show (S'.binderParam i).buffer_type = _ ∧ (S'.binderParam i).lens Q = _ ∧ _
    rw [hbinder, hmem]
    refine ⟨htype, hlens, hbytes.imp_right ?_⟩
    rintro ⟨a, hbuffer, hown, hH⟩
    exact ⟨a, hbuffer, hown, hheap a _ hown hH⟩

/-- A parameter whose memory is deleted. -/
theorem Right.forget {S' : MySQLStatement n} {i : Fin n} {b : Bound} (h : S.Right Q i b)
    (hbinder : S'.binderParam i = S.binderParam i) (hmem : (S'.bindMemInfo i).pMem = none) :
    S'.Right Q i b.forget := by
  cases b with
  | unbound =>
    show S'.binderParam i = _
    rw [hbinder]
    exact h
  | lost =>
    show (S'.binderParam i).lens Q ≠ 0 ∧ _
    rw [hbinder]
    exact ⟨h.1, hmem⟩
  | value v =>
    obtain ⟨htype, hlens, -⟩ := h
    rw [← hbinder] at htype hlens
    show S'.Right Q i (if v.sent.2 = [] then .value v else .lost)
    split_ifs with hnil
    · exact ⟨htype, hlens, .inl hnil⟩
    · refine ⟨?_, hmem⟩
      rw [hlens]
      exact fun hzero => hnil (List.eq_nil_of_length_eq_zero hzero)

/-- The memory is read for every parameter that was not lost, and it is what was bound. -/
theorem Right.param {i : Fin n} {b : Bound} (h : S.Right Q i b) (hb : b ≠ .lost) :
    S.param Q i = some b.sent := by
  cases b with
  | unbound =>
    have hbinder : S.binderParam i = ⟨none, .decimal, 0⟩ := h
    have hread : S.heap.read none (Q.lens .decimal 0) = some [] := by
      rw [Q.decimal]
      rfl
    rw [MySQLStatement.param, hbinder]
    exact congrArg (Option.map (Prod.mk FieldType.decimal)) hread
  | lost => exact absurd rfl hb
  | value v =>
    obtain ⟨htype, hlens, hbytes⟩ := h
    have hread : S.heap.read (S.binderParam i).buffer ((S.binderParam i).lens Q)
        = some v.sent.2 := by
      rw [hlens]
      rcases hbytes with hnil | ⟨a, hbuffer, -, hH⟩
      · rw [hnil]
        rfl
      · rw [hbuffer]
        exact hH.read
    rw [MySQLStatement.param, hread, htype]
    rfl

theorem Right.inOwn_iff {i : Fin n} {b : Bound} (h : S.Right Q i b) :
    S.InOwn Q i ↔ b ≠ .lost := by
  cases b with
  | unbound =>
    have hbinder : S.binderParam i = ⟨none, .decimal, 0⟩ := h
    refine iff_of_true (.inl ?_) (by simp)
    rw [hbinder]
    exact Q.decimal 0
  | lost =>
    refine iff_of_false ?_ (by simp)
    rintro (hzero | ⟨a, b, -, hown, -⟩)
    · exact h.1 hzero
    · rw [h.2] at hown
      cases hown
  | value v =>
    obtain ⟨-, hlens, hbytes⟩ := h
    refine iff_of_true ?_ (by simp)
    rcases hbytes with hnil | ⟨a, hbuffer, hown, rest, hblock⟩
    · rw [hnil] at hlens
      exact .inl hlens
    · refine .inr ⟨a, _, hbuffer, hown, hblock, ?_⟩
      rw [hlens, List.length_append]
      exact Nat.le_add_right _ _

/-! ## Each call -/

/-- Every parameter that has memory has its own. -/
def Owned (S : MySQLStatement n) : Prop :=
  S.heap.Owned (fun i => (S.bindMemInfo i).pMem) fun i => (S.bindMemInfo i).iLens

theorem pMem_update (S : MySQLStatement n) (i : Fin n) (m : BindMemInfo) :
    (fun j => (Function.update S.bindMemInfo i m j).pMem)
      = Function.update (fun j => (S.bindMemInfo j).pMem) i m.pMem := by
  funext j
  by_cases hj : j = i
  · rw [hj, Function.update_self, Function.update_self]
  · rw [Function.update_of_ne hj, Function.update_of_ne hj]

theorem iLens_update (S : MySQLStatement n) (i : Fin n) (m : BindMemInfo) :
    (fun j => (Function.update S.bindMemInfo i m j).iLens)
      = Function.update (fun j => (S.bindMemInfo j).iLens) i m.iLens := by
  funext j
  by_cases hj : j = i
  · rw [hj, Function.update_self, Function.update_self]
  · rw [Function.update_of_ne hj, Function.update_of_ne hj]

theorem Owned.delMem (h : S.Owned) (i : Fin n) : (S.delMem i).Owned := by
  have hfree := Heap.Owned.free h i
  unfold Owned MySQLStatement.delMem
  dsimp only
  rw [pMem_update, iLens_update, Function.update_eq_self i fun j => (S.bindMemInfo j).iLens]
  exact hfree

theorem right_delMem (h : S.Owned) {i j : Fin n} {b : Bound} (hji : j ≠ i) (hj : S.Right Q j b) :
    (S.delMem i).Right Q j b := by
  refine hj.congr rfl ?_ fun a bytes hown hH => Heap.Owned.holds_free h hown hji hH
  show (Function.update S.bindMemInfo i _ j).pMem = _
  rw [Function.update_of_ne hji]

theorem pMem_delMem (i : Fin n) : ((S.delMem i).bindMemInfo i).pMem = none := by
  show (Function.update S.bindMemInfo i _ i).pMem = _
  rw [Function.update_self]

/-- **What `setBindInfo` does**: it fails and has deleted the memory of the parameter, or the
parameter has memory enough. The others keep what they have. -/
theorem setBindInfo_spec (h : S.Owned) (i : Fin n) (iLens : ℕ) (mem : Allocator) :
    (S.setBindInfo i iLens mem = (false, S.delMem i) ∧ mem.new (S.delMem i).heap = none)
      ∨ ∃ a S', S.setBindInfo i iLens mem = (true, S') ∧ S'.Owned
        ∧ (S'.bindMemInfo i).pMem = some a ∧ iLens ≤ (S'.bindMemInfo i).iLens
        ∧ S'.binderParam = S.binderParam ∧ ∀ j b, j ≠ i → S.Right Q j b → S'.Right Q j b := by
  unfold setBindInfo
  split_ifs with hneed
  · cases hnew : mem.new (S.delMem i).heap with
    | none =>
      refine .inl ⟨?_, rfl⟩
      dsimp only
      rw [hnew]
    | some m =>
      obtain ⟨a, junk⟩ := m
      dsimp only
      rw [hnew]
      have hfree : (S.delMem i).heap.block a = none := mem.fresh _ a junk hnew
      have halloc := Heap.Owned.alloc (i := i) (h.delMem i) hfree ((List.range iLens).map junk)
      rw [List.length_map, List.length_range] at halloc
      refine .inr ⟨a, _, rfl, ?_, ?_, ?_, rfl, fun j b hji hj => ?_⟩
      · unfold Owned
        dsimp only
        rw [pMem_update, iLens_update]
        exact halloc
      · dsimp only
        rw [Function.update_self]
      · dsimp only
        rw [Function.update_self]
      · refine (right_delMem h hji hj).congr rfl ?_ fun c bytes _ hH => hH.alloc hfree _
        show (Function.update (S.delMem i).bindMemInfo i _ j).pMem = _
        rw [Function.update_of_ne hji]
  · obtain ⟨hsome, hle⟩ := not_or.mp hneed
    obtain ⟨a, ha⟩ := Option.ne_none_iff_exists'.mp hsome
    exact .inr ⟨a, S, rfl, h, ha, Nat.not_lt.mp hle, rfl, fun _ _ _ hj => hj⟩

/-- **What a `bind` function does with a value**: it fails and has deleted the memory of the
parameter, or the parameter has the value. -/
theorem bindMem_spec (h : S.Owned) (i : Fin n) {iRoom : ℕ} {v : Value} {mem : Allocator}
    (hroom : v.sent.2.length ≤ iRoom) (hlens : Q.lens v.sent.1 v.sent.2.length = v.sent.2.length) :
    (S.bindMem i iRoom v.sent.2 v.sent.1 mem = (false, S.delMem i)
        ∧ mem.new (S.delMem i).heap = none)
      ∨ ∃ S', S.bindMem i iRoom v.sent.2 v.sent.1 mem = (true, S') ∧ S'.Owned
        ∧ S'.Right Q i (.value v) ∧ ∀ j b, j ≠ i → S.Right Q j b → S'.Right Q j b := by
  have hfield : (0 : ℤ) ≤ (i : ℕ) ∧ ((i : ℕ) : ℤ) < n := ⟨by positivity, by exact_mod_cast i.isLt⟩
  have hi : (⟨((i : ℕ) : ℤ).toNat, by omega⟩ : Fin n) = i := rfl
  unfold bindMem
  rw [dif_pos hfield]
  simp only [hi]
  rcases setBindInfo_spec h i iRoom mem with
    ⟨hset, hnew⟩ | ⟨a, S', hset, hown, ha, hle, hbinder, hright⟩
  · rw [hset]
    exact .inl ⟨rfl, hnew⟩
  · rw [hset]
    simp only [ha]
    have hpMem : (fun j => (S'.bindMemInfo j).pMem) i = some a := ha
    refine .inr ⟨_, rfl, ?_, ?_, fun j b hji hj => ?_⟩
    · exact Heap.Owned.copy hown hpMem (hroom.trans hle)
    · refine ⟨?_, ?_, .inr ⟨a, ?_, ha, Heap.Owned.holds_copy hown hpMem _⟩⟩
      all_goals
        dsimp only
        rw [Function.update_self]
      exact hlens
    · refine (hright j b hji hj).congr ?_ rfl fun c bytes hc hH =>
        Heap.Owned.holds_copy_ne hown hpMem hc hji _ hH
      exact Function.update_of_ne hji _ _

/-- **What each of the `bind` functions does** for a parameter of the statement. -/
theorem bind_spec (h : S.Owned) (i : Fin n) (v : Value) (mem : Allocator) :
    (v.bind (i : ℕ) mem S = (false, S.delMem i) ∧ mem.new (S.delMem i).heap = none)
      ∨ ∃ S', v.bind (i : ℕ) mem S = (true, S') ∧ S'.Owned
        ∧ S'.Right Q i (.value v) ∧ ∀ j b, j ≠ i → S.Right Q j b → S'.Right Q j b := by
  cases v with
  | string pszValue =>
    exact bindMem_spec (v := .string pszValue) h i (Nat.le_succ _) (Q.string _)
  | int iValue =>
    have hlen : (Value.int iValue).sent.2.length = 4 :=
      length_store .little 4 (CInt.int.toBits iValue)
    exact bindMem_spec (v := .int iValue) h i hlen.le ((Q.long _).trans hlen.symm)
  | int64 iValue =>
    have hlen : (Value.int64 iValue).sent.2.length = 8 :=
      length_store .little 8 (CInt.int64.toBits iValue)
    exact bindMem_spec (v := .int64 iValue) h i hlen.le ((Q.longlong _).trans hlen.symm)
  | float dValue =>
    have hlen : (Value.float dValue).sent.2.length = 8 :=
      length_store .little 8 dValue.toNat
    exact bindMem_spec (v := .float dValue) h i hlen.le ((Q.double _).trans hlen.symm)
  | blob blobValue =>
    exact bindMem_spec (v := .blob blobValue) h i (Nat.le_succ _) (Q.blob _)
  | null =>
    have hfield : (0 : ℤ) ≤ (i : ℕ) ∧ ((i : ℕ) : ℤ) < n :=
      ⟨by positivity, by exact_mod_cast i.isLt⟩
    refine .inr ⟨_, dif_pos hfield, h, ?_, fun j b hji hj => ?_⟩
    · have hnull : Function.update S.binderParam i ⟨none, .null, 0⟩ i = ⟨none, .null, 0⟩ :=
        Function.update_self _ _ _
      exact ⟨congrArg MySQLBind.buffer_type hnull,
        (congrArg (MySQLBind.lens Q) hnull).trans (Q.null 0), .inl rfl⟩
    · exact hj.congr (Function.update_of_ne hji _ _) rfl fun _ _ _ hH => hH

/-- An index that is none is refused. -/
theorem bind_eq {iField : ℤ} (hfield : ¬ (0 ≤ iField ∧ iField < n)) (v : Value) (mem : Allocator)
    (S : MySQLStatement n) : v.bind iField mem S = (false, S) := by
  cases v
  all_goals exact dif_neg hfield

/-! ## Runs -/

namespace Tracked

variable {T : Tracked n}

/-- Every parameter that has memory has its own, and what was bound is there. -/
structure Inv (Q : ParamReads) (T : Tracked n) : Prop where
  owned : T.stmt.Owned
  right : ∀ i, T.stmt.Right Q i (T.bound i)

theorem inv_create (n : ℕ) : (create n).Inv Q where
  owned := ⟨fun _ _ h => (Option.some_ne_none _ h.symm).elim,
    fun _ _ _ h => (Option.some_ne_none _ h.symm).elim⟩
  right _ := rfl

/-- The memory of a parameter is deleted. -/
theorem Inv.delMem (h : T.Inv Q) (i : Fin n) :
    Inv Q ⟨T.stmt.delMem i, Function.update T.bound i (T.bound i).forget⟩ := by
  refine ⟨h.owned.delMem i, fun j => ?_⟩
  dsimp only
  by_cases hji : j = i
  · subst hji
    rw [Function.update_self]
    exact (h.right j).forget rfl (pMem_delMem j)
  · rw [Function.update_of_ne hji]
    exact right_delMem h.owned hji (h.right j)

/-- The memory of some parameters is deleted. -/
theorem Inv.delAll (h : T.Inv Q) (l : List (Fin n)) :
    Inv Q ⟨l.foldl MySQLStatement.delMem T.stmt,
      fun j => if j ∈ l then (T.bound j).forget else T.bound j⟩ := by
  have hforget (b : Bound) : b.forget.forget = b.forget := by
    cases b with
    | unbound => rfl
    | lost => rfl
    | value v =>
      show Bound.forget (if v.sent.2 = [] then .value v else .lost)
        = if v.sent.2 = [] then .value v else .lost
      split_ifs with hnil
      · exact if_pos hnil
      · rfl
  induction l generalizing T with
  | nil => exact h
  | cons i l ih =>
    have hbound : (fun j => if j ∈ i :: l then (T.bound j).forget else T.bound j)
        = fun j => if j ∈ l then (Function.update T.bound i (T.bound i).forget j).forget
            else Function.update T.bound i (T.bound i).forget j := by
      funext j
      by_cases hji : j = i
      · subst hji
        rw [Function.update_self, hforget, ite_self, if_pos List.mem_cons_self]
      · rw [Function.update_of_ne hji]
        simp only [List.mem_cons, hji, false_or]
    rw [hbound]
    exact ih (h.delMem i)

/-- **Each call keeps what is bound.** -/
theorem Inv.step (h : T.Inv Q) (c : Call) : (T.step c).Inv Q := by
  cases c with
  | clearParam =>
    have hbound : (fun j => (T.bound j).forget)
        = fun j => if j ∈ List.finRange n then (T.bound j).forget else T.bound j :=
      funext fun j => (if_pos (List.mem_finRange j)).symm
    show Inv Q ⟨(List.finRange n).foldl MySQLStatement.delMem T.stmt, fun j => (T.bound j).forget⟩
    rw [hbound]
    exact h.delAll (List.finRange n)
  | bind iField v mem =>
    by_cases hfield : 0 ≤ iField ∧ iField < n
    · obtain ⟨i, rfl⟩ : ∃ i : Fin n, iField = (i : ℕ) :=
        ⟨⟨iField.toNat, by omega⟩, (Int.toNat_of_nonneg hfield.1).symm⟩
      have hi : (⟨((i : ℕ) : ℤ).toNat, by omega⟩ : Fin n) = i := rfl
      rw [Tracked.step, dif_pos hfield]
      simp only [hi]
      rcases bind_spec h.owned i v mem with ⟨hbind, -⟩ | ⟨S', hbind, hown, hv, hright⟩
      · rw [hbind]
        exact h.delMem i
      · rw [hbind]
        refine ⟨hown, fun j => ?_⟩
        dsimp only
        by_cases hji : j = i
        · subst hji
          rw [Function.update_self]
          exact hv
        · rw [Function.update_of_ne hji]
          exact hright j _ hji (h.right j)
    · rw [Tracked.step, dif_neg hfield, bind_eq hfield]
      exact h

/-- What is sent when nothing was lost. -/
theorem Inv.execDML (h : T.Inv Q) (hlost : ∀ i, T.bound i ≠ .lost) :
    T.stmt.execDML Q = some ((List.finRange n).map fun i => (T.bound i).sent) := by
  have hparam : T.stmt.param Q = fun i => some (T.bound i).sent :=
    funext fun i => (h.right i).param (hlost i)
  rw [MySQLStatement.execDML, hparam]
  exact List.mapM_pure

theorem inv_run (calls : List Call) : (calls.foldl step (create n)).Inv Q := by
  suffices hall : ∀ T : Tracked n, T.Inv Q → (calls.foldl step T).Inv Q from hall _ (inv_create n)
  induction calls with
  | nil => exact fun T hT => hT
  | cons c calls ih => exact fun T hT => ih _ (hT.step c)

/-- **What a statement sends** after any calls: the values are read from the memory of their own
parameters if and only if none of them was lost, and then what is sent is what was bound
last. -/
theorem execDML_iff (Q : ParamReads) (calls : List Call) :
    ((∀ i, (calls.foldl step (create n)).stmt.InOwn Q i)
        ↔ ∀ i, (calls.foldl step (create n)).bound i ≠ .lost)
      ∧ ((∀ i, (calls.foldl step (create n)).stmt.InOwn Q i) →
        (calls.foldl step (create n)).stmt.execDML Q = some
          ((List.finRange n).map fun i => ((calls.foldl step (create n)).bound i).sent)) := by
  have hinv := inv_run (n := n) (Q := Q) calls
  have hiff := forall_congr' fun i => (hinv.right i).inOwn_iff
  exact ⟨hiff, fun hown => hinv.execDML (hiff.mp hown)⟩

/-- A number is lost with `clearParam`, and what is sent for it are bytes of a blob that has come
to where it was. -/
example :
    ([.bind 0 (.int 7) .first, .clearParam, .bind 1 (.blob [1, 2, 3, 4, 5]) .first].foldl
      step (create 2)).stmt.execDML .documented
        = some [(.long, [1, 2, 3, 4]), (.blob, [1, 2, 3, 4, 5])] := by
  decide

end Tracked

end MySQLStatement
