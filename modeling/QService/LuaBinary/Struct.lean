import QService.LuaBinary.Binary

/-!
# `setStruct` and `getStruct`

A struct descriptor is a Lua table with an entry for every field: its name, its
type, its size and, for a struct, the descriptor of that. `setStruct` writes the
fields of a value table by it, `getStruct` reads them into a new table. Both are
one loop over the entries with a case for every type; they share no code.

The first part is the two loops, as they are. The second says what one field
comes to: the bytes that are written for a value (`fieldBytes`), when they are
(`FieldOk`), and the value that is read from them (`readBack`).
-/

open ByteOrder

/-- `DataType`. -/
inductive DataType
  | sint8
  | uint8
  | bool
  | sint16
  | uint16
  | sint32
  | uint32
  | sint64
  | uint64
  | float
  | double
  | string
  | byte
  | struct
  | skip
  /-- A number that is none of these. -/
  | other
  deriving DecidableEq, Repr

/-- A struct descriptor, entry by entry. -/
inductive StructAttr
  | nil
  /-- An entry that is not a table, or has fewer than two places. -/
  | bad
  /-- An entry, as `getStructAttr` takes it apart. The size is 0 if it is missing, and
  the descriptor of the struct is an empty table; `bTable` is false if there is
  something else in its place. -/
  | cons (strName : List UInt8) (emType : DataType) (iSize : Int32) (bTable : Bool)
      (objChild rest : StructAttr)
  deriving DecidableEq, Repr

namespace LuaBinary

variable {ν : Type*} (e : Endian) (N : LuaNumber ν)

/-! ## The code -/

/-- A case of the switch of `setStruct`, except for structs: whether it went well,
and the write buffer. -/
def setField (emType : DataType) (iSize : ℤ) (objFieldVal : LuaVal ν) (bOk : Bool)
    (buf : List UInt8) : Bool × List UInt8 :=
  match emType with
  | .sint8 => (true, setSint8 e (getLuaInt N .short objFieldVal) buf)
  | .uint8 => (true, setUint8 e (getLuaInt N .unsignedShort objFieldVal) buf)
  | .bool => (true, setBool (getLuaInt N .unsignedShort objFieldVal != 0) buf)
  | .sint16 => (true, setSint16 e (getLuaInt N .short objFieldVal) buf)
  | .uint16 => (true, setUint16 e (getLuaInt N .unsignedShort objFieldVal) buf)
  | .sint32 => (true, setSint32 e (getLuaInt N .int objFieldVal) buf)
  | .uint32 => (true, setUint32 e (getLuaInt N .unsignedInt objFieldVal) buf)
  | .sint64 => (true, setSint64 e (CInt.print (getLuaInt N .int64 objFieldVal)) buf)
  | .uint64 => (true, setUint64 e (CInt.print (getLuaInt N .uint64 objFieldVal)) buf)
  | .float => (true, setFloat e (getLuaFloat N objFieldVal) buf)
  | .double => (true, setDouble e (getLuaDouble N objFieldVal) buf)
  | .string =>
    match objFieldVal with
    | .string s =>
      if (s.length : ℤ) ≥ iSize then (false, buf)
      else (true, skipWrite (iSize - (s.length + 1)).toNat (setString s buf))
    | _ => (false, buf)
  | .byte =>
    match objFieldVal with
    | .string s =>
      if (s.length : ℤ) > iSize then (false, buf)
      else (true, skipWrite (iSize - s.length).toNat (setByte s s.length buf))
    | _ => (false, buf)
  | .struct => (false, buf)
  -- a size that is not positive leaves `bOk` as the field before has set it
  | .skip => if iSize > 0 then (true, skipWrite iSize.toNat buf) else (bOk, buf)
  | .other => (false, buf)

/-- The loop of `setStruct`. -/
def setLoop : StructAttr → LuaTable ν → Bool → List UInt8 → Bool × List UInt8
  | .nil, _, _, buf => (true, buf)
  | .bad, _, _, buf => (false, buf)
  | .cons strName emType iSize bTable objChild rest, objVal, bOk, buf =>
    let r :=
      if emType = .struct then
        match objVal strName with
        | .table t => if bTable then setLoop objChild t false buf else (false, buf)
        | _ => (false, buf)
      else setField e N emType iSize.toInt (objVal strName) bOk buf
    if r.1 then setLoop rest objVal r.1 r.2 else r

/-- `setStruct`. -/
def setStruct (objVal : LuaTable ν) (objAttr : StructAttr) (buf : List UInt8) :
    Bool × List UInt8 := setLoop e N objAttr objVal false buf

/-- Push an integer. -/
def pushInteger (r : ℤ × ℕ) : Option (LuaVal ν) × ℕ := (some (.number (N.ofInteger r.1)), r.2)

/-- A case of the switch of `getStruct`, except for structs: what is assigned, and
the cursor. -/
def getField (B : ParseBuffer) (emType : DataType) (iSize : ℤ) (cur : ℕ) :
    Option (LuaVal ν) × ℕ :=
  match emType with
  | .sint8 => pushInteger N (getSint8 e B cur)
  | .uint8 => pushInteger N (getUint8 e B cur)
  | .bool =>
    let (bVal, cur) := getBool e B cur
    (some (.boolean bVal), cur)
  | .sint16 => pushInteger N (getSint16 e B cur)
  | .uint16 => pushInteger N (getUint16 e B cur)
  | .sint32 => pushInteger N (getSint32 e B cur)
  | .uint32 => pushInteger N (getUint32 e B cur)
  | .sint64 =>
    let (pszVal, cur) := getSint64 e B cur
    (some (.string pszVal), cur)
  | .uint64 =>
    let (pszVal, cur) := getUint64 e B cur
    (some (.string pszVal), cur)
  | .float =>
    let (fVal, cur) := getFloat e B cur
    (some (.number (N.ofFloat fVal)), cur)
  | .double =>
    let (dVal, cur) := getDouble e B cur
    (some (.number (N.ofDouble dVal)), cur)
  | .string =>
    let (strVal, cur) := getString B cur
    (some (.string strVal), skipRead ((iSize - (strVal.length + 1)) % 2 ^ 32).toNat cur)
  | .byte =>
    let (strVal, cur) := getByte B (iSize % 2 ^ 32).toNat cur
    (some (.string strVal), cur)
  | .struct => (none, cur)
  | .skip => (none, if iSize > 0 then skipRead iSize.toNat cur else cur)
  | .other => (none, cur)

/-- An assignment to a field of the table. -/
def assign (objVal : LuaTable ν) (strName : List UInt8) (x : Option (LuaVal ν)) : LuaTable ν :=
  match x with
  | some x => Function.update objVal strName x
  | none => objVal

/-- The loop of `getStruct`, or `none` where the assertion fails that a descriptor is a
table. -/
def getLoop (B : ParseBuffer) : StructAttr → LuaTable ν → ℕ → Option (LuaTable ν × ℕ)
  | .nil, objVal, cur => some (objVal, cur)
  | .bad, objVal, cur => some (objVal, cur)
  | .cons strName emType iSize bTable objChild rest, objVal, cur =>
    if emType = .struct then
      if bTable then
        match getLoop B objChild (fun _ => .nil) cur with
        | some (t, cur) => getLoop B rest (assign objVal strName (some (.table t))) cur
        | none => none
      else none
    else
      let (x, cur) := getField e N B emType iSize.toInt cur
      getLoop B rest (assign objVal strName x) cur

/-- `getStruct`. -/
def getStruct (B : ParseBuffer) (objAttr : StructAttr) (cur : ℕ) : Option (LuaTable ν × ℕ) :=
  getLoop e N B objAttr (fun _ => .nil) cur

/-! ## One field -/

/-- The integer fields that fit a Lua number: the type of the value, and the type that
is stored. -/
def intTypes : DataType → Option (CInt × CInt)
  | .sint8 => some (.short, .char)
  | .uint8 => some (.unsignedShort, .unsignedChar)
  | .sint16 => some (.short, .short)
  | .uint16 => some (.unsignedShort, .unsignedShort)
  | .sint32 => some (.int, .int)
  | .uint32 => some (.unsignedInt, .unsignedInt)
  | _ => none

/-- The string in a field. -/
def fieldString : LuaVal ν → List UInt8
  | .string s => s
  | _ => []

/-- The bytes that are written for a field. -/
def fieldBytes (emType : DataType) (iSize : ℤ) (x : LuaVal ν) : List UInt8 :=
  match emType with
  | .sint64 => wireBytes .int64 (getLuaInt N .int64 x)
  | .uint64 => wireBytes .uint64 (getLuaInt N .uint64 x)
  | .bool => [if getLuaInt N .unsignedShort x != 0 then 1 else 0]
  | .float => store e 4 (getLuaFloat N x).toNat
  | .double => store e 8 (getLuaDouble N x).toNat
  | .string =>
    cString (fieldString x) ++ 0 :: List.replicate (iSize - ((fieldString x).length + 1)).toNat 0
  | .byte => fieldString x ++ List.replicate (iSize - (fieldString x).length).toNat 0
  | .skip => List.replicate iSize.toNat 0
  | emType =>
    match intTypes emType with
    | some (V, T) => wireBytes T (getLuaInt N V x)
    | none => []

/-- A field is written. -/
def FieldOk (emType : DataType) (iSize : ℤ) (x : LuaVal ν) (bOk : Bool) : Prop :=
  match emType with
  | .string => ∃ s, x = .string s ∧ s.length < iSize
  | .byte => ∃ s, x = .string s ∧ s.length ≤ iSize
  | .skip => 0 < iSize ∨ bOk = true
  | .struct => False
  | .other => False
  | _ => True

/-- The value that is read from the bytes of a field. -/
def readBack (emType : DataType) (iSize : ℤ) (x : LuaVal ν) : Option (LuaVal ν) :=
  match emType with
  | .sint64 => some (.string (CInt.print (getLuaInt N .int64 x)))
  | .uint64 => some (.string (CInt.print (getLuaInt N .uint64 x)))
  | .bool => some (.boolean (getLuaInt N .unsignedShort x != 0))
  | .float => some (.number (N.ofFloat (getLuaFloat N x)))
  | .double => some (.number (N.ofDouble (getLuaDouble N x)))
  | .string => some (.string (fieldString x))
  | .byte =>
    some (.string (fieldString x ++ List.replicate (iSize - (fieldString x).length).toNat 0))
  | emType =>
    match intTypes emType with
    | some (V, T) => some (.number (N.ofInteger (T.cast (getLuaInt N V x))))
    | none => none

section Field

variable {e N} {emType : DataType} {iSize : ℤ} {x : LuaVal ν} {bOk : Bool}

/-- A 64-bit integer goes through its text unchanged. -/
theorem setText64_print (e : Endian) {T : CInt} (hT : T.bytes = 8) {z : ℤ} (hz : T.Fits z)
    (buf : List UInt8) : setText64 e T (CInt.print z) buf = buf ++ wireBytes T z := by
  have hdec := CInt.isDecimal_print z
  have hlt : T.toBits z < 256 ^ 8 := by
    have h₀ := T.toBits_lt z
    rwa [hT] at h₀
  unfold setText64 wireBytes setVal
  rw [cString_of_notMem (CInt.zero_notMem_of_isDecimal hdec), CInt.read_of_isDecimal hdec hz, hT,
    store_ntohl64 e hlt]

/-- **A field that can be written is.** -/
theorem setField_of_ok (h : FieldOk emType iSize x bOk) (buf : List UInt8) :
    setField e N emType iSize x bOk buf = (true, buf ++ fieldBytes e N emType iSize x) := by
  cases emType with
  | sint8 | uint8 =>
    refine Prod.ext rfl ?_
    show buf ++ store e 1 _ = buf ++ _
    rw [store_one]
    rfl
  | bool | float | double => rfl
  | sint16 | uint16 | sint32 | uint32 =>
    refine Prod.ext rfl ?_
    show buf ++ store e _ (ntoh e _ _) = buf ++ _
    rw [store_ntoh]
    rfl
  | sint64 => exact Prod.ext rfl (setText64_print e rfl (fits_getLuaInt N .int64 x) buf)
  | uint64 => exact Prod.ext rfl (setText64_print e rfl (fits_getLuaInt N .uint64 x) buf)
  | string =>
    obtain ⟨s, rfl, hs⟩ := h
    unfold setField
    dsimp only
    rw [if_neg (not_le.mpr hs)]
    refine Prod.ext rfl ?_
    simp [skipWrite, setString, setVal, fieldBytes, fieldString]
  | byte =>
    obtain ⟨s, rfl, hs⟩ := h
    unfold setField
    dsimp only
    rw [if_neg (not_lt.mpr hs)]
    refine Prod.ext rfl ?_
    simp [skipWrite, setByte, setVal, fieldBytes, fieldString]
  | struct | other => exact h.elim
  | skip =>
    unfold setField
    dsimp only
    split
    · rfl
    · rename_i hsize
      rw [h.resolve_left hsize]
      refine Prod.ext rfl ?_
      rw [fieldBytes, Int.toNat_eq_zero.mpr (not_lt.mp hsize)]
      exact (List.append_nil _).symm

/-- **A field that cannot be written is refused**, and nothing is written. -/
theorem setField_of_not_ok (h : ¬ FieldOk emType iSize x bOk) (buf : List UInt8) :
    setField e N emType iSize x bOk buf = (false, buf) := by
  cases emType with
  | string =>
    cases x with
    | string s =>
      unfold setField
      dsimp only
      rw [if_pos (not_lt.mp fun hs => h ⟨s, rfl, hs⟩)]
    | _ => rfl
  | byte =>
    cases x with
    | string s =>
      unfold setField
      dsimp only
      rw [if_pos (not_le.mp fun hs => h ⟨s, rfl, hs⟩)]
    | _ => rfl
  | struct | other => rfl
  | skip =>
    have hno := not_or.mp h
    unfold setField
    dsimp only
    rw [if_neg hno.1, Bool.eq_false_iff.mpr hno.2]
  | _ => exact absurd trivial h

/-- A string is read up to its zero, and the rest of its room is skipped. -/
theorem getField_string_at {B : ParseBuffer} {cur : ℕ} {size : Int32} {s : List UInt8}
    (hs : s.length < size.toInt) (hs₀ : 0 ∉ s)
    (hB : B.At cur (fieldBytes e N .string size.toInt (.string s))) :
    getField e N B .string size.toInt cur
      = (readBack N .string size.toInt (.string s),
        cur + (fieldBytes e N .string size.toInt (.string s)).length) := by
  have hlt := size.toInt_lt
  have hmod := hB.cur_mod
  have hbytes : fieldBytes e N .string size.toInt (.string s)
      = s ++ 0 :: List.replicate (size.toInt - (s.length + 1)).toNat 0 := by
    show cString s ++ _ = _
    rw [cString_of_notMem hs₀]
    rfl
  have hlen : (s ++ 0 :: List.replicate (size.toInt - (s.length + 1)).toNat 0).length
      = s.length + 1 + (size.toInt - (s.length + 1)).toNat := by
    simp
    omega
  have hsize : ((size.toInt - (s.length + 1)) % 2 ^ 32).toNat
      = (size.toInt - (s.length + 1)).toNat := by
    rw [Int.emod_eq_of_lt (by omega) (by omega)]
  rw [hbytes] at hB hmod ⊢
  rw [hlen] at hmod ⊢
  unfold getField
  rw [getString_at hs₀ hB]
  dsimp only
  rw [hsize, skipRead, Nat.add_assoc cur, hmod]
  rfl

/-- All the room of a byte field is read. -/
theorem getField_byte_at {B : ParseBuffer} {cur : ℕ} {size : Int32} {s : List UInt8}
    (hs : s.length ≤ size.toInt)
    (hB : B.At cur (fieldBytes e N .byte size.toInt (.string s))) :
    getField e N B .byte size.toInt cur
      = (readBack N .byte size.toInt (.string s),
        cur + (fieldBytes e N .byte size.toInt (.string s)).length) := by
  have hlt := size.toInt_lt
  have hlen : (fieldBytes e N .byte size.toInt (.string s)).length
      = (size.toInt % 2 ^ 32).toNat := by
    show (s ++ List.replicate (size.toInt - s.length).toNat 0).length = _
    rw [Int.emod_eq_of_lt (by omega) (by omega), List.length_append, List.length_replicate]
    omega
  unfold getField
  rw [← hlen, getByte_at hB]
  rfl

/-- A skipped field moves the cursor. -/
theorem getField_skip_at {B : ParseBuffer} {cur : ℕ} {iSize : ℤ}
    (hB : B.At cur (fieldBytes e N .skip iSize x)) :
    getField e N B .skip iSize cur
      = (readBack N .skip iSize x, cur + (fieldBytes e N .skip iSize x).length) := by
  have hmod := hB.cur_mod
  have hlen : (fieldBytes e N .skip iSize x).length = iSize.toNat := List.length_replicate
  rw [hlen] at hmod ⊢
  unfold getField
  refine Prod.ext rfl ?_
  dsimp only
  split
  · exact hmod
  · omega

/-- **What is written for a field is read back.** -/
theorem getField_at {B : ParseBuffer} {cur : ℕ} {size : Int32}
    (h : FieldOk emType size.toInt x bOk) (hnul : emType = .string → 0 ∉ fieldString x)
    (hB : B.At cur (fieldBytes e N emType size.toInt x)) :
    getField e N B emType size.toInt cur
      = (readBack N emType size.toInt x, cur + (fieldBytes e N emType size.toInt x).length) := by
  cases emType with
  | sint8 => exact congrArg (pushInteger N) (readNumber_one_at .char rfl hB)
  | uint8 => exact congrArg (pushInteger N) (readNumber_one_at .unsignedChar rfl hB)
  | bool =>
    unfold getField
    rw [getBool_at hB]
    rfl
  | sint16 => exact congrArg (pushInteger N) (getInt_at .short hB)
  | uint16 => exact congrArg (pushInteger N) (getInt_at .unsignedShort hB)
  | sint32 => exact congrArg (pushInteger N) (getInt_at .int hB)
  | uint32 => exact congrArg (pushInteger N) (getInt_at .unsignedInt hB)
  | sint64 =>
    unfold getField getSint64
    rw [getText64_at .int64 rfl hB, CInt.cast_of_fits (fits_getLuaInt N .int64 x)]
    rfl
  | uint64 =>
    unfold getField getUint64
    rw [getText64_at .uint64 rfl hB, CInt.cast_of_fits (fits_getLuaInt N .uint64 x)]
    rfl
  | float =>
    unfold getField
    rw [getFloat_at hB, fieldBytes, length_store]
    rfl
  | double =>
    unfold getField
    rw [getDouble_at hB, fieldBytes, length_store]
    rfl
  | string =>
    obtain ⟨s, rfl, hs⟩ := h
    exact getField_string_at hs (hnul rfl) hB
  | byte =>
    obtain ⟨s, rfl, hs⟩ := h
    exact getField_byte_at hs hB
  | struct | other => exact h.elim
  | skip => exact getField_skip_at hB

end Field

end LuaBinary
