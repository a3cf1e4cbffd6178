import QService.LuaBinary.Confined

/-!
# Messages that are cut off

A struct that is read from the first bytes of its encoding should have the fields
that are there, and the default of every other field. A read that fails does not
say so. A number or a `BYTE` that fails leaves the cursor where it is, so the next
field starts at the bytes of the one that failed, and takes them if it is short
enough. A `STRING` whose text has begun is read to its NUL, and beyond the message
if there is none.

So a message can be cut safely only where the bytes that are left of the field at
the cut are too few for all the fields behind it (`CutClean`).
-/

open ByteOrder

namespace LuaBinary

variable {ν : Type*}

/-! ## The fields of a struct -/

/-- A field: its type and its size. -/
abbrev Field := DataType × Int32

/-- The width of a field. -/
def Field.width (f : Field) : ℕ := fieldWidth f.1 f.2.toInt

/-- The fields of a struct, in the order in which they stand in a message. The fields of a
struct in it stand in its place. -/
def fields : StructAttr → List Field
  | .nil => []
  | .bad => []
  | .cons _ emType iSize _ objChild rest =>
    (if emType = .struct then fields objChild else [(emType, iSize)]) ++ fields rest

/-- A descriptor that something can be written by: every entry is well formed. -/
def Proper : StructAttr → Prop
  | .nil => True
  | .bad => False
  | .cons _ emType _ bTable objChild rest =>
    (emType = .struct → bTable = true ∧ Proper objChild) ∧ Proper rest

/-- The size of a `BYTE` is not negative, and every `STRING` has its NUL in its own bytes. -/
def FieldsFit : List Field → List UInt8 → Prop
  | [], _ => True
  | f :: fs, b =>
    (f.1 = .string → 0 ∈ b.take f.width) ∧ (f.1 = .byte → 0 ≤ f.2.toInt)
      ∧ FieldsFit fs (b.drop f.width)

/-- **The bytes are a full encoding** by the descriptor: every field has its width, and
every `STRING` its NUL. -/
def FullEncoding (d : StructAttr) (b : List UInt8) : Prop :=
  Proper d ∧ b.length = structWidth d ∧ FieldsFit (fields d) b

/-- The values that `getStruct` reads for the fields, and the cursor after them. -/
def getFields (e : Endian) (N : LuaNumber ν) (B : ParseBuffer) :
    List Field → ℕ → List (Option (LuaVal ν)) × ℕ
  | [], cur => ([], cur)
  | f :: fs, cur =>
    let (x, cur) := getField e N B f.1 f.2.toInt cur
    let (xs, cur) := getFields e N B fs cur
    (x :: xs, cur)

/-- The table of a struct with these values, and the values that are left over. -/
def fill : StructAttr → LuaTable ν → List (Option (LuaVal ν)) →
    LuaTable ν × List (Option (LuaVal ν))
  | .nil, objVal, xs => (objVal, xs)
  | .bad, objVal, xs => (objVal, xs)
  | .cons strName emType _ _ objChild rest, objVal, xs =>
    if emType = .struct then
      let (t, xs) := fill objChild (fun _ => .nil) xs
      fill rest (assign objVal strName (some (.table t))) xs
    else fill rest (assign objVal strName xs.head?.join) xs.tail

/-! ## A prefix plus defaults -/

/-- The default of a field: 0, `false`, "0" or the empty string. -/
def fieldDefault (N : LuaNumber ν) (emType : DataType) : Option (LuaVal ν) :=
  match emType with
  | .sint8 | .uint8 | .sint16 | .uint16 | .sint32 | .uint32 => some (.number (N.ofInteger 0))
  | .bool => some (.boolean false)
  | .sint64 | .uint64 => some (.string [48])
  | .float => some (.number (N.ofFloat 0))
  | .double => some (.number (N.ofDouble 0))
  | .string | .byte => some (.string [])
  | .struct | .skip | .other => none

/-- The number of bytes that the value of a field is made of: the bytes of the text of a
string, and the bytes that the cursor has passed otherwise. -/
def taken (emType : DataType) (cur : ℕ) (r : Option (LuaVal ν) × ℕ) : ℕ :=
  match emType with
  | .string => (fieldString (r.1.getD .nil)).length
  | .struct | .skip | .other => 0
  | _ => r.2 - cur

/-- **A prefix plus defaults**, along the fields: a field that is whole in the short message
has its value from the full one, a field that is not has its default, and no field is
made of bytes that are not its own. -/
def PrefixPlusDefaults (e : Endian) (N : LuaNumber ν) (B full : ParseBuffer) :
    List Field → (offset cur curFull : ℕ) → Prop
  | [], _, _, _ => True
  | f :: fs, offset, cur, curFull =>
    let r := getField e N B f.1 f.2.toInt cur
    let rFull := getField e N full f.1 f.2.toInt curFull
    (offset + f.width ≤ B.data.length → r.1 = rFull.1)
      ∧ (B.data.length < offset + f.width → r.1 = fieldDefault N f.1)
      ∧ (0 < taken f.1 cur r → offset ≤ cur ∧ cur + taken f.1 cur r ≤ offset + f.width)
      ∧ PrefixPlusDefaults e N B full fs (offset + f.width) r.2 rFull.2

/-- None of the fields takes one of the bytes that are left. Numbers and `BYTE`s leave them
to the next field; a `STRING` must find its NUL first and passes as many bytes as it is
wide, and a `SKIP` passes them without a look. -/
def NoneTaken : List Field → List UInt8 → Prop
  | [], _ => True
  | f :: fs, bytes =>
    bytes = [] ∨
      match f.1 with
      | .string => bytes.head? = some 0 ∧ NoneTaken fs (bytes.drop f.width)
      | .skip => NoneTaken fs (bytes.drop f.width)
      | _ => (f.width = 0 ∨ bytes.length < f.width) ∧ NoneTaken fs bytes

/-- **The cut is clean**: from the first field that is not whole on, none takes one of the
bytes that are left. -/
def CutClean : List Field → List UInt8 → Prop
  | [], _ => True
  | f :: fs, bytes =>
    if f.width ≤ bytes.length then CutClean fs (bytes.drop f.width) else NoneTaken (f :: fs) bytes

/-! ## `getStruct` reads the fields -/

section Fields

variable {e : Endian} {N : LuaNumber ν} {B : ParseBuffer}

theorem getFields_cons (f : Field) (fs : List Field) (cur : ℕ) :
    getFields e N B (f :: fs) cur
      = ((getField e N B f.1 f.2.toInt cur).1
            :: (getFields e N B fs (getField e N B f.1 f.2.toInt cur).2).1,
        (getFields e N B fs (getField e N B f.1 f.2.toInt cur).2).2) := rfl

/-- The fields of two pieces are read one piece after the other. -/
theorem getFields_append (fs gs : List Field) (cur : ℕ) :
    getFields e N B (fs ++ gs) cur
      = ((getFields e N B fs cur).1 ++ (getFields e N B gs (getFields e N B fs cur).2).1,
        (getFields e N B gs (getFields e N B fs cur).2).2) := by
  induction fs generalizing cur with
  | nil => rfl
  | cons f fs ih =>
    rw [List.cons_append, getFields_cons, ih, getFields_cons]
    rfl

/-- **`getStruct` is the table of the values of the fields.** -/
theorem getLoop_eq_fill {d : StructAttr} (h : Proper d) (acc : LuaTable ν) (cur : ℕ)
    (more : List (Option (LuaVal ν))) :
    getLoop e N B d acc cur
        = some ((fill d acc ((getFields e N B (fields d) cur).1 ++ more)).1,
            (getFields e N B (fields d) cur).2)
      ∧ (fill d acc ((getFields e N B (fields d) cur).1 ++ more)).2 = more := by
  induction d generalizing acc cur more with
  | nil => exact ⟨rfl, rfl⟩
  | bad => exact h.elim
  | cons strName emType iSize bTable objChild rest ihc ihr =>
    obtain ⟨hentry, hrest⟩ := h
    unfold getLoop fields fill
    rw [getFields_append, List.append_assoc]
    by_cases hty : emType = .struct
    · obtain ⟨hb, hchild⟩ := hentry hty
      rw [if_pos hty, if_pos hty, if_pos hty, if_pos hb]
      obtain ⟨hrun, hleft⟩ := ihc hchild (fun _ => .nil) cur
        ((getFields e N B (fields rest) (getFields e N B (fields objChild) cur).2).1 ++ more)
      rw [hrun]
      dsimp only
      rw [hleft]
      exact ihr hrest _ _ more
    · rw [if_neg hty, if_neg hty, if_neg hty]
      exact ihr hrest _ _ more

/-- **The table that `getStruct` returns** holds the values of the fields. -/
theorem getStruct_eq_fill {d : StructAttr} (h : Proper d) (cur : ℕ) :
    getStruct e N B d cur
      = some ((fill d (fun _ => .nil) (getFields e N B (fields d) cur).1).1,
          (getFields e N B (fields d) cur).2) := by
  have hrun := (getLoop_eq_fill (e := e) (N := N) (B := B) h (fun _ => .nil) cur []).1
  rwa [List.append_nil] at hrun

end Fields

/-! ## One field -/

section OneField

variable {e : Endian} {N : LuaNumber ν} {B : ParseBuffer} {cur : ℕ}

/-- The default of a number is what comes of 0. -/
theorem fieldOfNumber_zero {emType : DataType} (h : IsNumberField emType) :
    fieldOfNumber e N emType 0 = fieldDefault N emType := by
  cases emType with
  | string | byte | struct | skip | other => exact h.elim
  | bool | float | double => rfl
  | _ => cases e <;> rfl

/-- The value of a field that lies in the message, from its bytes. -/
def fieldValue (e : Endian) (N : LuaNumber ν) (emType : DataType) (bytes : List UInt8) :
    Option (LuaVal ν) :=
  match emType with
  | .string => some (.string (cString bytes))
  | .byte => some (.string bytes)
  | emType => fieldOfNumber e N emType (load e bytes)

theorem fieldValue_number {emType : DataType} (h : IsNumberField emType) (bytes : List UInt8) :
    fieldValue e N emType bytes = fieldOfNumber e N emType (load e bytes) := by
  cases emType with
  | string | byte | struct | skip | other => exact h.elim
  | _ => rfl

/-- The bytes that a number or a `BYTE` asks for. -/
theorem toNat_emod {z : ℤ} (h₀ : 0 ≤ z) (h : z < 2 ^ 31) : (z % 2 ^ 32).toNat = z.toNat := by
  rw [Int.emod_eq_of_lt h₀ (by omega)]

/-- **A field that lies in the message** is read from its own bytes, and the cursor is behind
them. -/
theorem getField_region {f : Field} (hlen : cur + f.width ≤ B.data.length)
    (hnul : f.1 = .string → 0 ∈ (B.data.drop cur).take f.width)
    (hbyte : f.1 = .byte → 0 ≤ f.2.toInt) :
    getField e N B f.1 f.2.toInt cur
      = (fieldValue e N f.1 ((B.data.drop cur).take f.width), cur + f.width) := by
  obtain ⟨emType, iSize⟩ := f
  have hlt := B.length_lt
  have hsize := iSize.toInt_lt
  unfold Field.width at hlen hnul ⊢
  dsimp only at hlen hnul hbyte ⊢
  have hmod : (cur + fieldWidth emType iSize.toInt) % 2 ^ 64
      = cur + fieldWidth emType iSize.toInt := Nat.mod_eq_of_lt (by omega)
  induction emType using numberField_cases with
  | hnumber emType hty =>
    rw [getField_number hty, readNumber_inside fun _ => hlen, hmod, if_neg (not_lt.mpr hlen),
      fieldValue_number hty]
    rfl
  | hstring =>
    have hmem : 0 ∈ (B.data.drop cur).take iSize.toInt.toNat := hnul rfl
    have hcur : cur < B.data.length := by
      by_contra hge
      rw [List.drop_of_length_le (not_lt.mp hge), List.take_nil] at hmem
      exact absurd hmem List.not_mem_nil
    have htext :
        cString (B.data.drop cur) = cString ((B.data.drop cur).take iSize.toInt.toNat) := by
      rw [← cString_append_of_mem hmem ((B.data.drop cur).drop iSize.toInt.toNat),
        List.take_append_drop]
    have hshort := (length_cString_lt hmem).trans_le (List.length_take_le _ _)
    change cur + iSize.toInt.toNat ≤ B.data.length at hlen
    unfold getField
    rw [getString_inside fun _ => List.mem_of_mem_take hmem, if_pos hcur, Read.next, if_pos hcur,
      htext]
    dsimp only
    -- the rest of the field is skipped, and that is less than an `unsigned int` holds
    have hrest : ((iSize.toInt - ((cString ((B.data.drop cur).take iSize.toInt.toNat)).length + 1))
          % 2 ^ 32).toNat
        = iSize.toInt.toNat - ((cString ((B.data.drop cur).take iSize.toInt.toNat)).length + 1) := by
      rw [toNat_emod (by omega) (by omega)]
      omega
    rw [hrest, skipRead, Nat.mod_eq_of_lt (by omega)]
    refine Prod.ext rfl ?_
    show _ = cur + iSize.toInt.toNat
    omega
  | hbyte =>
    have h₀ : 0 ≤ iSize.toInt := hbyte rfl
    change cur + iSize.toInt.toNat ≤ B.data.length at hlen
    change (cur + iSize.toInt.toNat) % 2 ^ 64 = cur + iSize.toInt.toNat at hmod
    unfold getField
    rw [toNat_emod h₀ hsize, getByte_inside fun _ => hlen, hmod, if_neg (not_lt.mpr hlen)]
    rfl
  | hskip =>
    change (cur + iSize.toInt.toNat) % 2 ^ 64 = cur + iSize.toInt.toNat at hmod
    unfold getField
    dsimp only
    by_cases hpos : iSize.toInt > 0
    · rw [if_pos hpos, skipRead, hmod]
      rfl
    · have hzero : fieldWidth .skip iSize.toInt = 0 := Int.toNat_eq_zero.mpr (not_lt.mp hpos)
      rw [if_neg hpos, hzero]
      rfl
  | hstruct => rfl
  | hother => rfl

/-- A number that fails is 0, and leaves the cursor where it is. -/
theorem getField_number_short {emType : DataType} (hty : IsNumberField emType) {iSize : ℤ}
    (hcur : cur + fieldWidth emType iSize < 2 ^ 64)
    (hlen : B.data.length < cur + fieldWidth emType iSize) :
    getField e N B emType iSize cur = (fieldDefault N emType, cur) := by
  rw [getField_number hty, readNumber, Nat.mod_eq_of_lt hcur, if_pos hlen]
  exact Prod.ext (fieldOfNumber_zero hty) rfl

/-- A `BYTE` that fails is empty, and leaves the cursor where it is. -/
theorem getField_byte_short {iSize : Int32} (h₀ : 0 ≤ iSize.toInt)
    (hcur : cur + iSize.toInt.toNat < 2 ^ 64) (hlen : B.data.length < cur + iSize.toInt.toNat) :
    getField e N B .byte iSize.toInt cur = (fieldDefault N .byte, cur) := by
  unfold getField getByte
  rw [toNat_emod h₀ iSize.toInt_lt, Nat.mod_eq_of_lt hcur, if_pos hlen]
  rfl

/-- A `STRING` behind the message is empty, and moves the cursor by what is left of it. -/
theorem getField_string_past {iSize : Int32} (hpos : 0 < iSize.toInt)
    (hcur : cur + iSize.toInt.toNat < 2 ^ 64) (hlen : B.data.length ≤ cur) :
    getField e N B .string iSize.toInt cur
      = (fieldDefault N .string, cur + (iSize.toInt.toNat - 1)) := by
  have hsize := iSize.toInt_lt
  unfold getField getString
  rw [if_pos hlen]
  dsimp only [List.length_nil]
  rw [toNat_emod (by omega) (by omega), skipRead]
  refine Prod.ext rfl ?_
  dsimp only
  omega

theorem lt_length_of_drop {data t : List UInt8} {b : UInt8} (h : data.drop cur = b :: t) :
    cur < data.length := by
  by_contra hge
  rw [List.drop_of_length_le (not_lt.mp hge)] at h
  cases h

/-- A `STRING` that starts with a NUL is empty, and moves the cursor by its width. -/
theorem getField_string_zero {iSize : Int32} (hpos : 0 < iSize.toInt)
    (hcur : cur + iSize.toInt.toNat < 2 ^ 64) (hzero : (B.data.drop cur).head? = some 0) :
    getField e N B .string iSize.toInt cur
      = (fieldDefault N .string, cur + iSize.toInt.toNat) := by
  have hsize := iSize.toInt_lt
  obtain ⟨t, ht⟩ : ∃ t, B.data.drop cur = 0 :: t := by
    cases hdrop : B.data.drop cur with
    | nil => rw [hdrop] at hzero; cases hzero
    | cons b t => rw [hdrop] at hzero; cases hzero; exact ⟨t, rfl⟩
  have hlen := lt_length_of_drop ht
  have hmem : 0 ∈ B.data.drop cur := by rw [ht]; exact List.mem_cons_self
  have htext : cString (B.data.drop cur) = [] := by rw [ht]; rfl
  unfold getField
  rw [getString_inside fun _ => hmem, if_pos hlen, Read.next, if_pos hlen, htext]
  dsimp only [List.length_nil]
  rw [toNat_emod (by omega) (by omega), skipRead]
  refine Prod.ext rfl ?_
  dsimp only
  omega

/-- A `STRING` that starts with another byte is not empty. -/
theorem getField_string_ne {iSize : ℤ} {b : UInt8} (hb : b ≠ 0)
    (hhead : (B.data.drop cur).head? = some b) :
    (getField e N B .string iSize cur).1 ≠ fieldDefault N .string := by
  obtain ⟨t, ht⟩ : ∃ t, B.data.drop cur = b :: t := by
    cases hdrop : B.data.drop cur with
    | nil => rw [hdrop] at hhead; cases hhead
    | cons c t => rw [hdrop] at hhead; cases hhead; exact ⟨t, rfl⟩
  have hlen := lt_length_of_drop ht
  have hfrom : B.from cur = b :: (t ++ B.after) := by
    unfold ParseBuffer.from
    rw [List.drop_append_of_le_length hlen.le, ht, List.cons_append]
  have htext : cString (B.from cur) = b :: cString (t ++ B.after) := by
    rw [hfrom]
    exact List.takeWhile_cons_of_pos (decide_eq_true hb)
  have hvalue : (getField e N B .string iSize cur).1
      = some (.string (b :: cString (t ++ B.after))) := by
    rw [← htext]
    unfold getField getString
    rw [if_neg (not_le.mpr hlen)]
  rw [hvalue]
  intro h
  cases h

/-- A skipped field moves the cursor by its width. -/
theorem getField_skip {iSize : ℤ} (hcur : cur + iSize.toNat < 2 ^ 64) :
    getField e N B .skip iSize cur = (fieldDefault N .skip, cur + iSize.toNat) := by
  unfold getField
  dsimp only
  by_cases hpos : iSize > 0
  · rw [if_pos hpos, skipRead, Nat.mod_eq_of_lt hcur]
    rfl
  · rw [if_neg hpos, Int.toNat_eq_zero.mpr (not_lt.mp hpos)]
    rfl

/-- A field that asks for nothing, or for more than is left, has its default, and leaves the
cursor where it is. -/
theorem getField_idle {f : Field} (hstring : f.1 ≠ .string) (hskip : f.1 ≠ .skip)
    (hbyte : f.1 = .byte → 0 ≤ f.2.toInt) (hcur : cur + f.width < 2 ^ 64)
    (h : f.width = 0 ∨ B.data.length < cur + f.width) :
    getField e N B f.1 f.2.toInt cur = (fieldDefault N f.1, cur) := by
  obtain ⟨emType, iSize⟩ := f
  unfold Field.width at hcur h
  dsimp only at hstring hskip hbyte hcur h ⊢
  induction emType using numberField_cases with
  | hnumber emType hty =>
    have hpos : fieldWidth emType iSize.toInt ≠ 0 := by
      cases emType with
      | string | byte | struct | skip | other => exact hty.elim
      | _ => exact Nat.succ_ne_zero _
    exact getField_number_short hty hcur (h.resolve_left hpos)
  | hstring => exact absurd rfl hstring
  | hbyte =>
    have h₀ : 0 ≤ iSize.toInt := hbyte rfl
    change cur + iSize.toInt.toNat < 2 ^ 64 at hcur
    change iSize.toInt.toNat = 0 ∨ B.data.length < cur + iSize.toInt.toNat at h
    by_cases hlen : B.data.length < cur + iSize.toInt.toNat
    · exact getField_byte_short h₀ hcur hlen
    · have hzero := h.resolve_right hlen
      unfold getField getByte
      rw [toNat_emod h₀ iSize.toInt_lt, Nat.mod_eq_of_lt hcur, if_neg hlen, hzero, List.take_zero]
      rfl
  | hskip => exact absurd rfl hskip
  | hstruct => rfl
  | hother => rfl

end OneField

/-! ## The fields at the cut and behind it -/

section Cut

variable {e : Endian} {N : LuaNumber ν} {B full : ParseBuffer} {cur offset curFull : ℕ}

/-- The width of the fields together. -/
def fieldsWidth (fs : List Field) : ℕ := (fs.map Field.width).sum

theorem fieldsWidth_cons (f : Field) (fs : List Field) :
    fieldsWidth (f :: fs) = f.width + fieldsWidth fs := List.sum_cons

theorem fieldsWidth_append (fs gs : List Field) :
    fieldsWidth (fs ++ gs) = fieldsWidth fs + fieldsWidth gs := by
  unfold fieldsWidth
  rw [List.map_append, List.sum_append]

/-- The width of a struct is that of its fields. -/
theorem structWidth_eq {d : StructAttr} : structWidth d = fieldsWidth (fields d) := by
  induction d with
  | nil => rfl
  | bad => rfl
  | cons strName emType iSize bTable objChild rest ihc ihr =>
    unfold structWidth fields
    rw [fieldsWidth_append, ihr]
    by_cases hty : emType = .struct
    · rw [if_pos hty, if_pos hty, ihc]
    · rw [if_neg hty, if_neg hty]
      rfl

/-- The sizes are those of fields that something fits in. -/
def SizesFit (fs : List Field) : Prop :=
  ∀ f ∈ fs, (f.1 = .string → 0 < f.2.toInt) ∧ (f.1 = .byte → 0 ≤ f.2.toInt)

theorem FieldsFit.sizes {fs : List Field} {b : List UInt8} (h : FieldsFit fs b) :
    SizesFit fs := by
  induction fs generalizing b with
  | nil => exact fun f hf => absurd hf List.not_mem_nil
  | cons f fs ih =>
    obtain ⟨hnul, hbyte, hrest⟩ := h
    refine List.forall_mem_cons.mpr ⟨⟨fun hty => ?_, hbyte⟩, ih hrest⟩
    by_contra hneg
    have hmem := hnul hty
    have hzero : f.width = 0 := by
      unfold Field.width
      rw [hty]
      exact Int.toNat_eq_zero.mpr (not_lt.mp hneg)
    rw [hzero, List.take_zero] at hmem
    exact absurd hmem List.not_mem_nil

/-- A field that is not whole and has its default: what matters is where it leaves the
cursor. -/
theorem prefixPlusDefaults_cons {f : Field} {fs : List Field} {cur' : ℕ}
    (hcut : B.data.length < offset + f.width)
    (hr : getField e N B f.1 f.2.toInt cur = (fieldDefault N f.1, cur'))
    (hcur' : f.1 = .string ∨ f.1 = .skip ∨ cur' = cur) :
    PrefixPlusDefaults e N B full (f :: fs) offset cur curFull
      ↔ PrefixPlusDefaults e N B full fs (offset + f.width) cur'
          (getField e N full f.1 f.2.toInt curFull).2 := by
  have htaken : taken f.1 cur (fieldDefault N f.1, cur') = 0 := by
    obtain ⟨emType, iSize⟩ := f
    dsimp only at hcur' ⊢
    cases emType with
    | string | struct | skip | other => rfl
    | _ =>
      obtain h | h | h := hcur'
      · cases h
      · cases h
      · rw [h]
        exact Nat.sub_self cur
  rw [PrefixPlusDefaults, hr]
  dsimp only
  rw [htaken]
  refine ⟨fun h => h.2.2.2, fun h => ⟨fun hle => ?_, fun _ => rfl, fun hlt => ?_, h⟩⟩
  · omega
  · exact absurd hlt (lt_irrefl 0)

/-- **Behind the message** every field has its default. -/
theorem prefixPlusDefaults_past {fs : List Field} (hsizes : SizesFit fs)
    (hpast : B.data.length ≤ cur) (hcur : cur ≤ offset)
    (hcut : ∀ f ∈ fs.head?, B.data.length < offset + f.width)
    (hwidth : offset + fieldsWidth fs < 2 ^ 64) :
    PrefixPlusDefaults e N B full fs offset cur curFull := by
  induction fs generalizing offset cur curFull with
  | nil => trivial
  | cons f fs ih =>
    obtain ⟨⟨hstring, hbyte⟩, hrest⟩ := List.forall_mem_cons.mp hsizes
    have hf := hcut f rfl
    rw [fieldsWidth_cons] at hwidth
    have hnext : ∀ {cur'}, B.data.length ≤ cur' → cur' ≤ offset + f.width →
        PrefixPlusDefaults e N B full fs (offset + f.width) cur'
          (getField e N full f.1 f.2.toInt curFull).2 := by
      intro cur' hpast' hcur'
      exact ih hrest hpast' hcur' (fun g _ => by omega) (by omega)
    by_cases hty : f.1 = .string
    · have hw : f.width = f.2.toInt.toNat := by rw [Field.width, hty]; rfl
      have hr : getField e N B f.1 f.2.toInt cur
          = (fieldDefault N f.1, cur + (f.2.toInt.toNat - 1)) := by
        rw [hty]
        exact getField_string_past (hstring hty) (by omega) hpast
      exact (prefixPlusDefaults_cons hf hr (.inl hty)).mpr (hnext (by omega) (by omega))
    · by_cases hskip : f.1 = .skip
      · have hw : f.width = f.2.toInt.toNat := by rw [Field.width, hskip]; rfl
        have hr : getField e N B f.1 f.2.toInt cur
            = (fieldDefault N f.1, cur + f.2.toInt.toNat) := by
          rw [hskip]
          exact getField_skip (by omega)
        exact (prefixPlusDefaults_cons hf hr (.inr (.inl hskip))).mpr
          (hnext (by omega) (by omega))
      · have hr : getField e N B f.1 f.2.toInt cur = (fieldDefault N f.1, cur) :=
          getField_idle hty hskip hbyte (by omega) (by omega)
        exact (prefixPlusDefaults_cons hf hr (.inr (.inr rfl))).mpr (hnext hpast (by omega))

theorem noneTaken_nil (fs : List Field) : NoneTaken fs [] := by
  cases fs with
  | nil => trivial
  | cons f fs => exact .inl rfl

theorem noneTaken_tested {f : Field} {fs : List Field} {bytes : List UInt8}
    (hstring : f.1 ≠ .string) (hskip : f.1 ≠ .skip) (hbytes : bytes ≠ []) :
    NoneTaken (f :: fs) bytes
      ↔ (f.width = 0 ∨ bytes.length < f.width) ∧ NoneTaken fs bytes := by
  rw [NoneTaken, or_iff_right hbytes]
  obtain ⟨emType, iSize⟩ := f
  cases emType with
  | string => exact absurd rfl hstring
  | skip => exact absurd rfl hskip
  | _ => exact Iff.rfl

/-- A number or a `BYTE` that takes bytes which are left of another field. -/
theorem taken_pos_of_le {f : Field} (hstring : f.1 ≠ .string) (hskip : f.1 ≠ .skip)
    (hbyte : f.1 = .byte → 0 ≤ f.2.toInt) (hpos : f.width ≠ 0)
    (hlen : cur + f.width ≤ B.data.length) :
    taken f.1 cur (getField e N B f.1 f.2.toInt cur) = f.width := by
  rw [getField_region hlen (fun h => absurd h hstring) hbyte]
  obtain ⟨emType, iSize⟩ := f
  dsimp only at hstring hskip ⊢
  cases emType with
  | string => exact absurd rfl hstring
  | skip => exact absurd rfl hskip
  | struct | other => exact absurd rfl hpos
  | _ => exact Nat.add_sub_cancel_left cur _

/-- **From the field at the cut on**: every field has its default, and none is made of bytes
of another, if and only if none takes one of the bytes that are left. -/
theorem prefixPlusDefaults_iff_noneTaken {fs : List Field} (hsizes : SizesFit fs)
    (hcur : cur ≤ offset) (hcut : ∀ f ∈ fs.head?, B.data.length < offset + f.width)
    (hwidth : offset + fieldsWidth fs < 2 ^ 64) :
    PrefixPlusDefaults e N B full fs offset cur curFull ↔ NoneTaken fs (B.data.drop cur) := by
  induction fs generalizing offset cur curFull with
  | nil => exact iff_of_true trivial trivial
  | cons f fs ih =>
    by_cases hpast : B.data.length ≤ cur
    · rw [List.drop_of_length_le hpast]
      exact iff_of_true (prefixPlusDefaults_past hsizes hpast hcur hcut hwidth) (noneTaken_nil _)
    · obtain ⟨⟨hstring, hbyte⟩, hrest⟩ := List.forall_mem_cons.mp hsizes
      have hf := hcut f rfl
      have hne : B.data.drop cur ≠ [] := by
        rw [Ne, List.drop_eq_nil_iff]
        exact hpast
      rw [fieldsWidth_cons] at hwidth
      have hnext : ∀ {cur'}, cur' ≤ offset + f.width →
          (PrefixPlusDefaults e N B full fs (offset + f.width) cur'
              (getField e N full f.1 f.2.toInt curFull).2
            ↔ NoneTaken fs (B.data.drop cur')) :=
        fun hcur' => ih hrest hcur' (fun g _ => by omega) (by omega)
      by_cases hty : f.1 = .string
      · have hw : f.width = f.2.toInt.toNat := by rw [Field.width, hty]; rfl
        rw [NoneTaken, or_iff_right hne, hty]
        dsimp only
        by_cases hzero : (B.data.drop cur).head? = some 0
        · have hr : getField e N B f.1 f.2.toInt cur = (fieldDefault N f.1, cur + f.width) := by
            rw [hty, hw]
            exact getField_string_zero (hstring hty) (by omega) hzero
          rw [prefixPlusDefaults_cons hf hr (.inl hty), hnext (by omega), ← List.drop_drop]
          exact ⟨fun h => ⟨hzero, h⟩, fun h => h.2⟩
        · refine iff_of_false (fun h => ?_) fun h => hzero h.1
          obtain ⟨b, t, hb⟩ := List.exists_cons_of_ne_nil hne
          have hhead : (B.data.drop cur).head? = some b := by rw [hb]; rfl
          have hval := h.2.1 hf
          rw [hty] at hval
          refine getField_string_ne (fun hb₀ => hzero ?_) hhead hval
          rw [hhead, hb₀]
      · by_cases hskip : f.1 = .skip
        · have hw : f.width = f.2.toInt.toNat := by rw [Field.width, hskip]; rfl
          have hr : getField e N B f.1 f.2.toInt cur = (fieldDefault N f.1, cur + f.width) := by
            rw [hskip, hw]
            exact getField_skip (by omega)
          rw [prefixPlusDefaults_cons hf hr (.inr (.inl hskip)), hnext (by omega), NoneTaken,
            or_iff_right hne, hskip, ← List.drop_drop]
        · rw [noneTaken_tested hty hskip hne, List.length_drop]
          by_cases hidle : f.width = 0 ∨ B.data.length < cur + f.width
          · have hr : getField e N B f.1 f.2.toInt cur = (fieldDefault N f.1, cur) :=
              getField_idle hty hskip hbyte (by omega) hidle
            rw [prefixPlusDefaults_cons hf hr (.inr (.inr rfl)), hnext (by omega)]
            exact (and_iff_right (by omega)).symm
          · refine iff_of_false (fun h => ?_) fun h => hidle (by omega)
            obtain ⟨hpos, hlen⟩ := not_or.mp hidle
            have htaken := h.2.2.1
            rw [taken_pos_of_le hty hskip hbyte hpos (not_lt.mp hlen)] at htaken
            omega

/-- What a field that lies in the message is made of lies in its own bytes. -/
theorem taken_le {f : Field} {bytes : List UInt8} (hbytes : bytes.length = f.width)
    (hnul : f.1 = .string → 0 ∈ bytes) :
    taken f.1 cur (fieldValue e N f.1 bytes, cur + f.width) ≤ f.width := by
  obtain ⟨emType, iSize⟩ := f
  dsimp only at hnul ⊢
  cases emType with
  | string =>
    show (cString bytes).length ≤ _
    rw [← hbytes]
    exact length_cString_le bytes
  | struct | skip | other => exact Nat.zero_le _
  | _ => exact (Nat.add_sub_cancel_left cur _).le

/-- **Along the fields that are whole**, and at the cut. -/
theorem prefixPlusDefaults_iff_cutClean {fs : List Field} {k : ℕ}
    (hB : B.data = full.data.take k) (hfit : FieldsFit fs (full.data.drop offset))
    (hoffset : offset ≤ B.data.length) (hwidth : offset + fieldsWidth fs ≤ full.data.length) :
    PrefixPlusDefaults e N B full fs offset offset offset
      ↔ CutClean fs (B.data.drop offset) := by
  have hlt := full.length_lt
  induction fs generalizing offset with
  | nil => exact iff_of_true trivial trivial
  | cons f fs ih =>
    have hsizes := hfit.sizes
    rw [CutClean]
    by_cases hwhole : f.width ≤ (B.data.drop offset).length
    · rw [if_pos hwhole]
      rw [List.length_drop] at hwhole
      rw [fieldsWidth_cons] at hwidth
      obtain ⟨hnul, hbyte, hrest⟩ := hfit
      have hregion : (B.data.drop offset).take f.width
          = (full.data.drop offset).take f.width := by
        rw [hB, List.length_take] at hwhole
        rw [hB, List.drop_take, List.take_take, min_eq_left (by omega)]
      have hr : getField e N B f.1 f.2.toInt offset
          = (fieldValue e N f.1 ((full.data.drop offset).take f.width), offset + f.width) := by
        rw [← hregion]
        exact getField_region (by omega) (fun h => hregion ▸ hnul h) hbyte
      have hrFull : getField e N full f.1 f.2.toInt offset
          = (fieldValue e N f.1 ((full.data.drop offset).take f.width), offset + f.width) :=
        getField_region (by omega) hnul hbyte
      have hlen : ((full.data.drop offset).take f.width).length = f.width := by
        rw [List.length_take, List.length_drop]
        omega
      rw [List.drop_drop] at hrest
      have hnext : PrefixPlusDefaults e N B full fs (offset + f.width) (offset + f.width)
          (offset + f.width) ↔ CutClean fs (B.data.drop (offset + f.width)) :=
        ih hrest (by omega) (by omega)
      rw [List.drop_drop, ← hnext, PrefixPlusDefaults, hr, hrFull]
      refine ⟨fun h => h.2.2.2, fun h => ⟨fun _ => rfl, fun _ => by omega, fun _ => ?_, h⟩⟩
      exact ⟨le_rfl, Nat.add_le_add_left (taken_le hlen hnul) offset⟩
    · rw [if_neg hwhole]
      rw [List.length_drop, not_le] at hwhole
      refine prefixPlusDefaults_iff_noneTaken hsizes le_rfl (fun g hg => ?_) (by omega)
      obtain rfl : f = g := Option.some.inj hg
      omega

end Cut

/-! ## Full encodings -/

section Full

variable {e : Endian} {N : LuaNumber ν}

theorem StructOk.proper {d : StructAttr} {v : LuaTable ν} {bOk : Bool} (h : StructOk d v bOk) :
    Proper d := by
  induction d generalizing v bOk with
  | nil => trivial
  | bad => exact h.elim
  | cons strName emType iSize bTable objChild rest ihc ihr =>
    obtain ⟨hfield, hrest⟩ := h
    refine ⟨fun hty => ?_, ihr hrest⟩
    rw [if_pos hty] at hfield
    obtain ⟨hb, t, -, hchild⟩ := hfield
    exact ⟨hb, ihc hchild⟩

/-- The bytes of a field fit it. -/
theorem fieldBytes_fit {emType : DataType} {iSize : ℤ} {x : LuaVal ν} {bOk : Bool}
    (h : FieldOk emType iSize x bOk) :
    (emType = .string → 0 ∈ fieldBytes e N emType iSize x) ∧ (emType = .byte → 0 ≤ iSize) := by
  constructor
  · rintro rfl
    exact List.mem_append_right _ List.mem_cons_self
  · rintro rfl
    obtain ⟨s, -, hs⟩ := h
    omega

/-- The bytes of a struct fit its fields, whatever fields follow. -/
theorem fieldsFit_structBytes {d : StructAttr} {v : LuaTable ν} {bOk : Bool}
    (h : StructOk d v bOk) (hnul : AllFields NulFree d v) {fs : List Field} {more : List UInt8}
    (hmore : FieldsFit fs more) : FieldsFit (fields d ++ fs) (structBytes e N d v ++ more) := by
  induction d generalizing v bOk fs more with
  | nil => exact hmore
  | bad => exact h.elim
  | cons strName emType iSize bTable objChild rest ihc ihr =>
    obtain ⟨hfield, hrest⟩ := h
    obtain ⟨hnul, hnulrest⟩ := hnul
    have hbehind := ihr hrest hnulrest hmore
    unfold fields structBytes
    rw [List.append_assoc, List.append_assoc]
    by_cases hty : emType = .struct
    · rw [if_pos hty] at hfield hnul
      obtain ⟨-, t, ht, hchild⟩ := hfield
      rw [if_pos hty, if_pos hty, ht]
      exact ihc hchild (hnul t ht) hbehind
    · rw [if_neg hty] at hfield hnul
      rw [if_neg hty, if_neg hty]
      have hlen : (fieldBytes e N emType iSize.toInt (v strName)).length
          = Field.width (emType, iSize) := (length_fieldBytes hfield).2.mpr hnul
      obtain ⟨hstring, hbyte⟩ := fieldBytes_fit (e := e) (N := N) hfield
      rw [List.singleton_append, FieldsFit, ← hlen, List.take_left, List.drop_left]
      exact ⟨hstring, hbyte, hbehind⟩

/-- **What `setStruct` writes is a full encoding**, if no string has a NUL in it. -/
theorem fullEncoding_iff {d : StructAttr} {v : LuaTable ν} {b : List UInt8}
    (h : setStruct e N v d [] = (true, b)) : FullEncoding d b ↔ AllFields NulFree d v := by
  obtain ⟨hok, rfl⟩ := setStruct_eq_true h
  have hlen := (length_structBytes (e := e) (N := N) hok).2
  refine ⟨fun hfull => hlen.mp hfull.2.1, fun hnul => ⟨hok.proper, hlen.mpr hnul, ?_⟩⟩
  have hfit : FieldsFit (fields d ++ []) (structBytes e N d v ++ []) :=
    fieldsFit_structBytes hok hnul trivial
  rwa [List.append_nil, List.append_nil] at hfit

end Full

/-! ## The result -/

section Result

variable {e : Endian} {N : LuaNumber ν}

/-- **Truncated messages decode to a prefix plus defaults** exactly where the cut is clean.
What is decoded is the table of the values of the fields. -/
theorem truncated_iff {d : StructAttr} {B full : ParseBuffer} {k : ℕ}
    (hfull : FullEncoding d full.data) (hB : B.data = full.data.take k) :
    (∃ cur, getStruct e N B d 0
        = some ((fill d (fun _ => .nil) (getFields e N B (fields d) 0).1).1, cur))
      ∧ (PrefixPlusDefaults e N B full (fields d) 0 0 0 ↔ CutClean (fields d) B.data) := by
  obtain ⟨hproper, hlen, hfit⟩ := hfull
  have hiff : PrefixPlusDefaults e N B full (fields d) 0 0 0
      ↔ CutClean (fields d) (B.data.drop 0) :=
    prefixPlusDefaults_iff_cutClean hB hfit (Nat.zero_le _)
      (by rw [Nat.zero_add, ← structWidth_eq, hlen])
  exact ⟨⟨_, getStruct_eq_fill hproper 0⟩, hiff⟩

/-- A short number and a byte of padding are there, and the string is cut off. -/
theorem truncated_iff_nested :
    (∃ cur, getStruct .little plainNumbers ⟨[255, 254, 0], [9], by decide⟩ nested 0
        = some ((fill nested (fun _ => .nil)
          (getFields .little plainNumbers ⟨[255, 254, 0], [9], by decide⟩ (fields nested) 0).1).1,
            cur))
      ∧ (PrefixPlusDefaults .little plainNumbers ⟨[255, 254, 0], [9], by decide⟩
          ⟨[255, 254, 0, 104, 105, 0, 0], [], by decide⟩ (fields nested) 0 0 0
        ↔ CutClean (fields nested) [255, 254, 0]) := by
  have hset : setStruct .little plainNumbers nestedVal nested []
      = (true, [255, 254, 0, 104, 105, 0, 0]) := by decide +kernel
  have hnul : AllFields NulFree nested nestedVal := by
    refine ⟨?_, ?_, ⟨?_, trivial⟩⟩
    · exact fun h => nomatch h
    · exact fun h => nomatch h
    · rintro t ht
      obtain rfl : (fun _ => .string [104, 105]) = t := LuaVal.table.inj ht
      exact ⟨fun _ => by decide, trivial⟩
  exact truncated_iff (k := 3) ((fullEncoding_iff hset).mpr hnul) rfl

/-- A number of four bytes, and one of one byte. -/
def longAndByte : StructAttr :=
  .cons [110] .uint32 0 false .nil (.cons [98] .uint8 0 false .nil .nil)

/-- Cut off in the first number, the message `1 2 3` is read as 0 and 1: the second number
is made of the first byte of the first. -/
theorem truncated_takes :
    FullEncoding longAndByte [1, 2, 3, 4, 5]
      ∧ getFields .little plainNumbers ⟨[1, 2, 3], [], by decide⟩ (fields longAndByte) 0
        = ([some (.number (.integer 0)), some (.number (.integer 1))], 1)
      ∧ ¬ PrefixPlusDefaults .little plainNumbers ⟨[1, 2, 3], [], by decide⟩
          ⟨[1, 2, 3, 4, 5], [], by decide⟩ (fields longAndByte) 0 0 0 := by
  refine ⟨⟨?_, rfl, ?_⟩, rfl, fun h => ?_⟩
  · exact ⟨nofun, nofun, trivial⟩
  · exact ⟨nofun, nofun, nofun, nofun, trivial⟩
  · -- the byte should be 0, as it is not in the message
    have hdefault : some (LuaVal.number (PlainNumber.integer 1)) = some (.number (.integer 0)) :=
      h.2.2.2.2.1 (by decide)
    cases hdefault

end Result

end LuaBinary
