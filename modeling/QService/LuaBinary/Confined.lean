import QService.LuaBinary.Sequence
import QService.LuaBinary.StructCodec

/-!
# What a read depends on

A parse buffer is a piece of the network buffer: other data follow it, and it
has no NUL of its own. So a reader should depend on the bytes of its message
only, whatever is behind them.

A number and a `BYTE` are tested against the length of the message. The test is
on a sum of `size_t`, so it says nothing once the sum wraps; `skipRead` can bring
the cursor that far. A `STRING` is tested at its first byte only and goes on to
the next NUL, wherever that is. Where neither happens (`Read.Inside`) two runs
over different memories are one run, and only there (`confined_iff`).
-/

open ByteOrder

namespace LuaBinary

/-! ## Calls -/

/-- A getter of one value, or `skipRead`. -/
inductive Read
  | sint8
  | uint8
  | bool
  | sint16
  | uint16
  | sint32
  | uint32
  | sint64
  | uint64
  | double
  | float
  | string
  | byte (iLens : UInt32)
  | skip (iLens : UInt32)
  deriving DecidableEq, Repr

namespace Read

/-- The getter. -/
def get (e : Endian) (B : ParseBuffer) (cur : ℕ) : Read → Got × ℕ
  | sint8 => (getSint8 e B cur).map .int id
  | uint8 => (getUint8 e B cur).map .int id
  | bool => (getBool e B cur).map .bool id
  | sint16 => (getSint16 e B cur).map .int id
  | uint16 => (getUint16 e B cur).map .int id
  | sint32 => (getSint32 e B cur).map .int id
  | uint32 => (getUint32 e B cur).map .int id
  | sint64 => (getSint64 e B cur).map .text id
  | uint64 => (getUint64 e B cur).map .text id
  | double => (getDouble e B cur).map .double id
  | float => (getFloat e B cur).map .float id
  | string => (getString B cur).map .text id
  | byte iLens => (getByte B iLens.toNat cur).map .text id
  | skip iLens => (.nothing, skipRead iLens.toNat cur)

/-- The bytes that a getter asks for. A string asks for none in advance. -/
def room : Read → ℕ
  | sint8 | uint8 | bool => 1
  | sint16 | uint16 => 2
  | sint32 | uint32 | float => 4
  | sint64 | uint64 | double => 8
  | string => 0
  | byte iLens | skip iLens => iLens.toNat

/-- The getter is one of a number. -/
def IsNumber : Read → Prop
  | string | byte _ | skip _ => False
  | _ => True

/-- What the getter of a number makes of the number that is loaded. -/
def ofNumber (e : Endian) : Read → ℕ → Got
  | sint8, val => .int (CInt.char.cast val)
  | uint8, val => .int (CInt.unsignedChar.cast val)
  | bool, val => .bool (val != 0)
  | sint16, val => .int (CInt.short.cast (ntoh e 2 val))
  | uint16, val => .int (CInt.unsignedShort.cast (ntoh e 2 val))
  | sint32, val => .int (CInt.int.cast (ntoh e 4 val))
  | uint32, val => .int (CInt.unsignedInt.cast (ntoh e 4 val))
  | sint64, val => .text (CInt.print (CInt.int64.cast (ntohl64 e val)))
  | uint64, val => .text (CInt.print (CInt.uint64.cast (ntohl64 e val)))
  | double, val => .double (BitVec.ofNat 64 val)
  | float, val => .float (BitVec.ofNat 32 val)
  | string, _ | byte _, _ | skip _, _ => .nothing

/-- **The read stays inside the message**: a string has its NUL there, and a number or a
block that passes the test on its length lies there. -/
def Inside (data : List UInt8) (cur : ℕ) : Read → Prop
  | string => cur < data.length → 0 ∈ data.drop cur
  | skip _ => True
  | r => (cur + r.room) % 2 ^ 64 ≤ data.length → cur + r.room ≤ data.length

/-- Where a read inside the message leaves the cursor. -/
def next (data : List UInt8) (cur : ℕ) : Read → ℕ
  | string =>
    if cur < data.length then cur + ((cString (data.drop cur)).length + 1) else cur
  | skip iLens => skipRead iLens.toNat cur
  | r => if (cur + r.room) % 2 ^ 64 > data.length then cur else (cur + r.room) % 2 ^ 64

end Read

/-- The getter that `getStruct` calls for a field. -/
def fieldRead (emType : DataType) (iSize : ℤ) : Option Read :=
  match emType with
  | .sint8 => some .sint8
  | .uint8 => some .uint8
  | .bool => some .bool
  | .sint16 => some .sint16
  | .uint16 => some .uint16
  | .sint32 => some .sint32
  | .uint32 => some .uint32
  | .sint64 => some .sint64
  | .uint64 => some .uint64
  | .float => some .float
  | .double => some .double
  | .string => some .string
  | .byte => some (.byte (UInt32.ofNat (iSize % 2 ^ 32).toNat))
  | .skip => if iSize > 0 then some (.skip (UInt32.ofNat iSize.toNat)) else none
  | .struct => none
  | .other => none

/-- The length of the text at the cursor. -/
def textLength (data : List UInt8) (cur : ℕ) : ℕ :=
  if cur < data.length then (cString (data.drop cur)).length else 0

/-- Where a field that is read inside the message leaves the cursor. -/
def fieldNext (data : List UInt8) (emType : DataType) (iSize : ℤ) (cur : ℕ) : ℕ :=
  match emType with
  | .string =>
    skipRead ((iSize - (textLength data cur + 1)) % 2 ^ 32).toNat (Read.next data cur .string)
  | emType =>
    match fieldRead emType iSize with
    | some r => r.next data cur
    | none => cur

/-- Where a struct that is read inside the message leaves the cursor, or `none` where the
assertion of `getStruct` fails. -/
def structNext (data : List UInt8) : StructAttr → ℕ → Option ℕ
  | .nil, cur => some cur
  | .bad, cur => some cur
  | .cons _ emType iSize bTable objChild rest, cur =>
    if emType = .struct then
      if bTable then (structNext data objChild cur).bind (structNext data rest) else none
    else structNext data rest (fieldNext data emType iSize.toInt cur)

/-- Every field of the struct is read inside the message. -/
def StructInside (data : List UInt8) : StructAttr → ℕ → Prop
  | .nil, _ => True
  | .bad, _ => True
  | .cons _ emType iSize bTable objChild rest, cur =>
    if emType = .struct then
      bTable = true → StructInside data objChild cur
        ∧ ∀ cur', structNext data objChild cur = some cur' → StructInside data rest cur'
    else (∀ r, fieldRead emType iSize.toInt = some r → r.Inside data cur)
      ∧ StructInside data rest (fieldNext data emType iSize.toInt cur)

/-- A call of a getter, of `skipRead` or of `getStruct`. -/
inductive Call
  | read (r : Read)
  | struct (objAttr : StructAttr)

/-- What the calls return, one after the other. A failed assertion ends the program. -/
def calls {ν : Type*} (e : Endian) (N : LuaNumber ν) (B : ParseBuffer) :
    List Call → ℕ → List (Got ⊕ Option (LuaTable ν))
  | [], _ => []
  | .read r :: cs, cur =>
    let (val, cur) := r.get e B cur
    .inl val :: calls e N B cs cur
  | .struct objAttr :: cs, cur =>
    match getStruct e N B objAttr cur with
    | some (objVal, cur) => .inr (some objVal) :: calls e N B cs cur
    | none => [.inr none]

/-- Every read of the calls is inside the message. -/
def Confined (data : List UInt8) : List Call → ℕ → Prop
  | [], _ => True
  | .read r :: cs, cur => r.Inside data cur ∧ Confined data cs (r.next data cur)
  | .struct objAttr :: cs, cur =>
    StructInside data objAttr cur
      ∧ ∀ cur', structNext data objAttr cur = some cur' → Confined data cs cur'

/-- The message with other memory behind it. -/
def ParseBuffer.followedBy (B : ParseBuffer) (after : List UInt8) : ParseBuffer :=
  { B with after := after }

/-! ## Reads inside the message -/

section Inside

variable {ν : Type*} {e : Endian} {N : LuaNumber ν} {B : ParseBuffer} {cur n : ℕ}

/-- Memory inside the message is the message's. -/
theorem take_from (h : cur + n ≤ B.data.length) :
    (B.from cur).take n = (B.data.drop cur).take n := by
  unfold ParseBuffer.from
  rw [List.drop_append_of_le_length (by omega),
    List.take_append_of_le_length (by rw [List.length_drop]; omega)]

theorem readNumber_inside
    (h : (cur + n) % 2 ^ 64 ≤ B.data.length → cur + n ≤ B.data.length) :
    readNumber e B n cur
      = if (cur + n) % 2 ^ 64 > B.data.length then (0, cur)
        else (load e ((B.data.drop cur).take n), (cur + n) % 2 ^ 64) := by
  unfold readNumber
  by_cases htest : (cur + n) % 2 ^ 64 > B.data.length
  · rw [if_pos htest, if_pos htest]
  · rw [if_neg htest, if_neg htest, take_from (h (not_lt.mp htest))]

theorem getByte_inside
    (h : (cur + n) % 2 ^ 64 ≤ B.data.length → cur + n ≤ B.data.length) :
    getByte B n cur
      = if (cur + n) % 2 ^ 64 > B.data.length then ([], cur)
        else ((B.data.drop cur).take n, (cur + n) % 2 ^ 64) := by
  unfold getByte
  by_cases htest : (cur + n) % 2 ^ 64 > B.data.length
  · rw [if_pos htest, if_pos htest]
  · rw [if_neg htest, if_neg htest, take_from (h (not_lt.mp htest))]

theorem getString_inside (h : cur < B.data.length → 0 ∈ B.data.drop cur) :
    getString B cur
      = (if cur < B.data.length then cString (B.data.drop cur) else [],
        Read.next B.data cur .string) := by
  unfold getString Read.next
  by_cases hcur : cur < B.data.length
  · have hlen := length_cString_lt (h hcur)
    have hlt := B.length_lt
    rw [List.length_drop] at hlen
    rw [if_neg (not_le.mpr hcur), if_pos hcur, if_pos hcur]
    unfold ParseBuffer.from
    rw [List.drop_append_of_le_length hcur.le, cString_append_of_mem (h hcur)]
    dsimp only
    rw [Nat.mod_eq_of_lt (by omega)]
  · rw [if_pos (not_lt.mp hcur), if_neg hcur, if_neg hcur]

/-- What is behind the message does not matter for a number, -/
theorem readNumber_followedBy
    (h : (cur + n) % 2 ^ 64 ≤ B.data.length → cur + n ≤ B.data.length) (after : List UInt8) :
    readNumber e (B.followedBy after) n cur = readNumber e B n cur :=
  (readNumber_inside (B := B.followedBy after) h).trans (readNumber_inside h).symm

/-- a block, -/
theorem getByte_followedBy
    (h : (cur + n) % 2 ^ 64 ≤ B.data.length → cur + n ≤ B.data.length) (after : List UInt8) :
    getByte (B.followedBy after) n cur = getByte B n cur :=
  (getByte_inside (B := B.followedBy after) h).trans (getByte_inside h).symm

/-- or a string. -/
theorem getString_followedBy (h : cur < B.data.length → 0 ∈ B.data.drop cur)
    (after : List UInt8) : getString (B.followedBy after) cur = getString B cur :=
  (getString_inside (B := B.followedBy after) h).trans (getString_inside h).symm

/-- The cursor after a number. -/
theorem readNumber_snd :
    (readNumber e B n cur).2
      = if (cur + n) % 2 ^ 64 > B.data.length then cur else (cur + n) % 2 ^ 64 := by
  unfold readNumber
  split <;> rfl

/-- The cursor after a block. -/
theorem getByte_snd :
    (getByte B n cur).2
      = if (cur + n) % 2 ^ 64 > B.data.length then cur else (cur + n) % 2 ^ 64 := by
  unfold getByte
  split <;> rfl

/-- The getters of numbers are one. -/
theorem Read.get_number {r : Read} (hr : r.IsNumber) :
    r.get e B cur = (readNumber e B r.room cur).map (r.ofNumber e) id := by
  cases r with
  | string | byte | skip => exact hr.elim
  | _ => rfl

theorem Read.inside_number {r : Read} (hr : r.IsNumber) {data : List UInt8} :
    r.Inside data cur
      ↔ ((cur + r.room) % 2 ^ 64 ≤ data.length → cur + r.room ≤ data.length) := by
  cases r with
  | string | byte | skip => exact hr.elim
  | _ => exact Iff.rfl

theorem Read.inside_byte {iLens : UInt32} {data : List UInt8} :
    (Read.byte iLens).Inside data cur
      ↔ ((cur + iLens.toNat) % 2 ^ 64 ≤ data.length → cur + iLens.toNat ≤ data.length) := Iff.rfl

theorem Read.next_byte (iLens : UInt32) (data : List UInt8) :
    (Read.byte iLens).next data cur
      = if (cur + iLens.toNat) % 2 ^ 64 > data.length then cur
        else (cur + iLens.toNat) % 2 ^ 64 := rfl

theorem Read.next_number {r : Read} (hr : r.IsNumber) (data : List UInt8) :
    r.next data cur
      = if (cur + r.room) % 2 ^ 64 > data.length then cur else (cur + r.room) % 2 ^ 64 := by
  cases r with
  | string | byte | skip => exact hr.elim
  | _ => rfl

/-- A getter is one of a number, or one of the others. -/
theorem Read.number_cases {p : Read → Prop} (hnumber : ∀ r, IsNumber r → p r) (hstring : p .string)
    (hbyte : ∀ iLens, p (.byte iLens)) (hskip : ∀ iLens, p (.skip iLens)) (r : Read) : p r := by
  cases r with
  | string => exact hstring
  | byte iLens => exact hbyte iLens
  | skip iLens => exact hskip iLens
  | _ => exact hnumber _ trivial

/-- **A read inside the message** returns the same with any memory behind it, -/
theorem Read.get_followedBy {r : Read} (h : r.Inside B.data cur) (after : List UInt8) :
    r.get e (B.followedBy after) cur = r.get e B cur := by
  induction r using Read.number_cases with
  | hnumber r hr =>
    rw [get_number hr, get_number hr, readNumber_followedBy ((inside_number hr).mp h)]
  | hstring => exact congrArg (Prod.map Got.text id) (getString_followedBy h after)
  | hbyte iLens => exact congrArg (Prod.map Got.text id) (getByte_followedBy h after)
  | hskip iLens => rfl

/-- and leaves the cursor where the message says. -/
theorem Read.get_snd {r : Read} (h : r.Inside B.data cur) :
    (r.get e B cur).2 = r.next B.data cur := by
  induction r using Read.number_cases with
  | hnumber r hr =>
    rw [get_number hr, next_number hr]
    exact readNumber_snd
  | hstring => exact congrArg Prod.snd (getString_inside h)
  | hbyte iLens => exact getByte_snd
  | hskip iLens => rfl

/-! ### Structs -/

/-- What `getStruct` makes of the number that is loaded for a field. -/
def fieldOfNumber (e : Endian) (N : LuaNumber ν) (emType : DataType) (val : ℕ) :
    Option (LuaVal ν) :=
  match emType with
  | .sint8 => some (.number (N.ofInteger (CInt.char.cast val)))
  | .uint8 => some (.number (N.ofInteger (CInt.unsignedChar.cast val)))
  | .bool => some (.boolean (val != 0))
  | .sint16 => some (.number (N.ofInteger (CInt.short.cast (ntoh e CInt.short.bytes val))))
  | .uint16 =>
    some (.number (N.ofInteger (CInt.unsignedShort.cast (ntoh e CInt.unsignedShort.bytes val))))
  | .sint32 => some (.number (N.ofInteger (CInt.int.cast (ntoh e CInt.int.bytes val))))
  | .uint32 =>
    some (.number (N.ofInteger (CInt.unsignedInt.cast (ntoh e CInt.unsignedInt.bytes val))))
  | .sint64 => some (.string (CInt.print (CInt.int64.cast (ntohl64 e val))))
  | .uint64 => some (.string (CInt.print (CInt.uint64.cast (ntohl64 e val))))
  | .float => some (.number (N.ofFloat (BitVec.ofNat 32 val)))
  | .double => some (.number (N.ofDouble (BitVec.ofNat 64 val)))
  | _ => none

/-- A field has the width of a number, or it is a string, a block, or no value at all. -/
def IsNumberField : DataType → Prop
  | .string | .byte | .struct | .skip | .other => False
  | _ => True

/-- An integer of two or four bytes. -/
theorem pushInteger_getInt (T : CInt) :
    pushInteger N (getInt e B T cur)
      = (readNumber e B T.bytes cur).map
          (fun val => some (.number (N.ofInteger (T.cast (ntoh e T.bytes val))))) id := by
  unfold getInt
  generalize readNumber e B T.bytes cur = r
  rfl

/-- An integer of eight bytes. -/
theorem getText64_eq (T : CInt) :
    getText64 e B T cur
      = (readNumber e B 8 cur).map (fun val => CInt.print (T.cast (ntohl64 e val))) id := by
  unfold getText64
  generalize readNumber e B 8 cur = r
  rfl

/-- The cases of the switch for numbers are one. -/
theorem getField_number {emType : DataType} (h : IsNumberField emType) (iSize : ℤ) :
    getField e N B emType iSize cur
      = (readNumber e B (fieldWidth emType iSize) cur).map (fieldOfNumber e N emType) id := by
  cases emType with
  | string | byte | struct | skip | other => exact h.elim
  | sint16 => exact pushInteger_getInt .short
  | uint16 => exact pushInteger_getInt .unsignedShort
  | sint32 => exact pushInteger_getInt .int
  | uint32 => exact pushInteger_getInt .unsignedInt
  | sint64 =>
    unfold getField
    rw [getSint64, getText64_eq]
    rfl
  | uint64 =>
    unfold getField
    rw [getUint64, getText64_eq]
    rfl
  | sint8 =>
    show pushInteger N (getSint8 e B cur) = (readNumber e B 1 cur).map _ id
    unfold getSint8 pushInteger fieldOfNumber
    obtain ⟨val, cur'⟩ := readNumber e B 1 cur
    dsimp only [Prod.map, id]
  | _ => rfl

theorem fieldRead_number {emType : DataType} (h : IsNumberField emType) (iSize : ℤ) :
    ∃ r, fieldRead emType iSize = some r ∧ r.IsNumber ∧ r.room = fieldWidth emType iSize := by
  cases emType with
  | string | byte | struct | skip | other => exact h.elim
  | _ => exact ⟨_, rfl, trivial, rfl⟩

theorem fieldNext_of_ne {emType : DataType} (h : emType ≠ .string) (data : List UInt8)
    (iSize : ℤ) :
    fieldNext data emType iSize cur
      = match fieldRead emType iSize with
        | some r => r.next data cur
        | none => cur := by
  cases emType with
  | string => exact absurd rfl h
  | _ => rfl

/-- A size that is read as an `unsigned int`. -/
theorem toNat_ofNat_emod (z : ℤ) :
    (UInt32.ofNat (z % 2 ^ 32).toNat).toNat = (z % 2 ^ 32).toNat := by
  rw [UInt32.toNat_ofNat', Nat.mod_eq_of_lt (by omega)]

theorem numberField_cases {p : DataType → Prop}
    (hnumber : ∀ emType, IsNumberField emType → p emType)
    (hstring : p .string) (hbyte : p .byte) (hskip : p .skip) (hstruct : p .struct)
    (hother : p .other) (emType : DataType) : p emType := by
  cases emType with
  | string => exact hstring
  | byte => exact hbyte
  | skip => exact hskip
  | struct => exact hstruct
  | other => exact hother
  | _ => exact hnumber _ trivial

/-- **A field that is read inside the message** is read the same with any memory behind it,
and leaves the cursor where the message says. -/
theorem getField_inside {emType : DataType} {iSize : Int32}
    (h : ∀ r, fieldRead emType iSize.toInt = some r → r.Inside B.data cur) (after : List UInt8) :
    getField e N (B.followedBy after) emType iSize.toInt cur
        = getField e N B emType iSize.toInt cur
      ∧ (getField e N B emType iSize.toInt cur).2 = fieldNext B.data emType iSize.toInt cur := by
  induction emType using numberField_cases with
  | hnumber emType hty =>
    obtain ⟨r, hr, hnum, hroom⟩ := fieldRead_number hty iSize.toInt
    have hread := (Read.inside_number hnum).mp (h r hr)
    have hne : emType ≠ .string := by
      rintro rfl
      exact hty
    rw [hroom] at hread
    refine ⟨?_, ?_⟩
    · rw [getField_number hty, getField_number hty, readNumber_followedBy hread]
    · rw [getField_number hty, fieldNext_of_ne hne, hr]
      dsimp only
      rw [Read.next_number hnum, hroom]
      exact readNumber_snd
  | hstring =>
    have hread := h .string rfl
    refine ⟨?_, ?_⟩
    · unfold getField
      rw [getString_followedBy hread]
    · unfold getField fieldNext textLength
      rw [getString_inside hread]
      dsimp only
      by_cases hcur : cur < B.data.length
      · rw [if_pos hcur, if_pos hcur]
      · rw [if_neg hcur, if_neg hcur]
        rfl
  | hbyte =>
    have hread := Read.inside_byte.mp (h _ rfl)
    rw [toNat_ofNat_emod] at hread
    refine ⟨?_, ?_⟩
    · unfold getField
      rw [getByte_followedBy hread]
    · show (getByte B (iSize.toInt % 2 ^ 32).toNat cur).2 = Read.next B.data cur (.byte _)
      rw [getByte_snd, Read.next_byte, toNat_ofNat_emod]
  | hskip =>
    refine ⟨rfl, ?_⟩
    have hlt := iSize.toInt_lt
    unfold getField fieldNext fieldRead
    dsimp only
    split
    · rename_i hsize
      dsimp only
      rw [Read.next, UInt32.toNat_ofNat', Nat.mod_eq_of_lt (by omega)]
    · rfl
  | hstruct => exact ⟨rfl, rfl⟩
  | hother => exact ⟨rfl, rfl⟩

/-- **A struct that is read inside the message.** -/
theorem getLoop_inside {d : StructAttr} (acc : LuaTable ν) (h : StructInside B.data d cur)
    (after : List UInt8) :
    getLoop e N (B.followedBy after) d acc cur = getLoop e N B d acc cur
      ∧ ∀ t cur', getLoop e N B d acc cur = some (t, cur')
          → structNext B.data d cur = some cur' := by
  induction d generalizing acc cur with
  | nil | bad =>
    refine ⟨rfl, fun t cur' hrun => ?_⟩
    cases hrun
    rfl
  | cons strName emType iSize bTable objChild rest ihc ihr =>
    unfold StructInside at h
    unfold getLoop structNext
    by_cases hty : emType = .struct
    · rw [if_pos hty] at h
      rw [if_pos hty, if_pos hty, if_pos hty]
      by_cases hb : bTable = true
      · obtain ⟨hchild, hrest⟩ := h hb
        obtain ⟨hsame, hnext⟩ := ihc (fun _ => .nil) hchild
        rw [if_pos hb, if_pos hb, if_pos hb, hsame]
        cases hrun : getLoop e N B objChild (fun _ => .nil) cur with
        | none => exact ⟨rfl, fun t cur' hrun => by cases hrun⟩
        | some p =>
          obtain ⟨t, cur'⟩ := p
          have hcur := hnext t cur' hrun
          rw [hcur, Option.bind_some]
          exact ihr _ (hrest cur' hcur)
      · rw [if_neg hb, if_neg hb]
        exact ⟨rfl, fun t cur' hrun => by cases hrun⟩
    · rw [if_neg hty] at h
      obtain ⟨hsame, hnext⟩ := getField_inside (e := e) (N := N) h.1 after
      rw [if_neg hty, if_neg hty, if_neg hty, hsame, ← hnext]
      rw [← hnext] at h
      exact ihr _ h.2

end Inside

/-! ## Reads that leave the message -/

section Outside

variable {e : Endian} {B : ParseBuffer} {cur n : ℕ}

/-- Memory of one byte only. -/
theorem getElem?_take_from {m i : ℕ} {c : UInt8} (hi : i < n) (hlen : B.data.length ≤ cur + i)
    (hm : cur + i < B.data.length + m) :
    (((B.followedBy (List.replicate m c)).from cur).take n)[i]? = some c := by
  show (((B.data ++ List.replicate m c).drop cur).take n)[i]? = some c
  rw [List.getElem?_take_of_lt hi, List.getElem?_drop, List.getElem?_append_right hlen,
    List.getElem?_replicate, if_pos (by omega)]

/-- A number that is read is the bytes at the cursor. -/
theorem load_inj {bs bs' : List UInt8} (hlen : bs.length = bs'.length)
    (h : load e bs = load e bs') : bs = bs' := by
  cases e with
  | little =>
    have hbytes : leBytes bs.length (ofLE bs) = leBytes bs'.length (ofLE bs') :=
      congrArg₂ leBytes hlen h
    rwa [leBytes_ofLE, leBytes_ofLE] at hbytes
  | big =>
    have hbytes : beBytes bs.length (ofBE bs) = beBytes bs'.length (ofBE bs') :=
      congrArg₂ beBytes hlen h
    rwa [beBytes_ofBE, beBytes_ofBE] at hbytes

theorem load_lt (bs : List UInt8) : load e bs < 256 ^ bs.length := by
  cases e with
  | little => exact ofLE_lt bs
  | big => exact ofBE_lt bs

/-- A floating-point number is all the bits that are loaded. -/
theorem ofNat_load_inj {w n : ℕ} {bs bs' : List UInt8} (hw : 2 ^ w = 256 ^ n)
    (hbs : bs.length = n) (hbs' : bs'.length = n)
    (h : BitVec.ofNat w (load e bs) = BitVec.ofNat w (load e bs')) : bs = bs' := by
  have hlt := load_lt (e := e) bs
  have hlt' := load_lt (e := e) bs'
  have hnat := congrArg BitVec.toNat h
  rw [hbs, ← hw] at hlt
  rw [hbs', ← hw] at hlt'
  rw [BitVec.toNat_ofNat, BitVec.toNat_ofNat, Nat.mod_eq_of_lt hlt, Nat.mod_eq_of_lt hlt'] at hnat
  exact load_inj (hbs.trans hbs'.symm) hnat

theorem cast_inj {T : CInt} {n m : ℕ} (hn : n < T.modulus) (hm : m < T.modulus)
    (h : T.cast n = T.cast m) : n = m := by
  have hbits : T.toBits n = T.toBits m := by
    rw [← T.toBits_cast n, h, T.toBits_cast]
  unfold CInt.toBits at hbits
  rw [Int.emod_eq_of_lt (by omega) (by omega), Int.emod_eq_of_lt (by omega) (by omega)] at hbits
  exact hbits

theorem print_inj {T : CInt} {y z : ℤ} (hy : T.Fits y) (hz : T.Fits z)
    (h : CInt.print y = CInt.print z) : y = z := by
  rw [← CInt.read_of_isDecimal (CInt.isDecimal_print y) hy, h,
    CInt.read_of_isDecimal (CInt.isDecimal_print z) hz]

theorem cast_ofBE_inj {T : CInt} {bs bs' : List UInt8} (hbs : bs.length = T.bytes)
    (hbs' : bs'.length = T.bytes) (h : T.cast (ofBE bs) = T.cast (ofBE bs')) : bs = bs' := by
  have hn : ofBE bs < T.modulus := by
    have hlt := ofBE_lt bs
    rwa [hbs] at hlt
  have hm : ofBE bs' < T.modulus := by
    have hlt := ofBE_lt bs'
    rwa [hbs'] at hlt
  have hbytes : beBytes bs.length (ofBE bs) = beBytes bs'.length (ofBE bs') :=
    congrArg₂ beBytes (hbs.trans hbs'.symm) (cast_inj hn hm h)
  rwa [beBytes_ofBE, beBytes_ofBE] at hbytes

/-- **The getter of a number returns all its bytes**, except for `getBool`. -/
theorem Read.ofNumber_inj {r : Read} (hr : r.IsNumber) (hbool : r ≠ .bool) {bs bs' : List UInt8}
    (hbs : bs.length = r.room) (hbs' : bs'.length = r.room)
    (h : r.ofNumber e (load e bs) = r.ofNumber e (load e bs')) : bs = bs' := by
  -- the integers of one, of two or four, and of eight bytes
  have hone : ∀ T : CInt, T.bytes = 1 → bs.length = 1 → bs'.length = 1 →
      T.cast (load e bs) = T.cast (load e bs') → bs = bs' := by
    intro T hT h₁ h₁' hcast
    rw [load_of_length_one e h₁, load_of_length_one e h₁'] at hcast
    exact cast_ofBE_inj (h₁.trans hT.symm) (h₁'.trans hT.symm) hcast
  have hint : ∀ T : CInt, bs.length = T.bytes → bs'.length = T.bytes →
      T.cast (ntoh e T.bytes (load e bs)) = T.cast (ntoh e T.bytes (load e bs')) → bs = bs' := by
    intro T h₁ h₁' hcast
    have hload := ntoh_load e bs
    have hload' := ntoh_load e bs'
    rw [h₁] at hload
    rw [h₁'] at hload'
    rw [hload, hload'] at hcast
    exact cast_ofBE_inj h₁ h₁' hcast
  have htext : ∀ T : CInt, T.bytes = 8 → bs.length = 8 → bs'.length = 8 →
      CInt.print (T.cast (ntohl64 e (load e bs))) = CInt.print (T.cast (ntohl64 e (load e bs')))
      → bs = bs' := by
    intro T hT h₁ h₁' hprint
    rw [ntohl64_load e h₁, ntohl64_load e h₁'] at hprint
    exact cast_ofBE_inj (h₁.trans hT.symm) (h₁'.trans hT.symm)
      (print_inj (T.fits_cast _) (T.fits_cast _) hprint)
  cases r with
  | string | byte | skip => exact hr.elim
  | bool => exact absurd rfl hbool
  | sint8 => exact hone .char rfl hbs hbs' (Got.int.inj h)
  | uint8 => exact hone .unsignedChar rfl hbs hbs' (Got.int.inj h)
  | sint16 => exact hint .short hbs hbs' (Got.int.inj h)
  | uint16 => exact hint .unsignedShort hbs hbs' (Got.int.inj h)
  | sint32 => exact hint .int hbs hbs' (Got.int.inj h)
  | uint32 => exact hint .unsignedInt hbs hbs' (Got.int.inj h)
  | sint64 => exact htext .int64 rfl hbs hbs' (Got.text.inj h)
  | uint64 => exact htext .uint64 rfl hbs hbs' (Got.text.inj h)
  | double => exact ofNat_load_inj (n := 8) (by norm_num) hbs hbs' (Got.double.inj h)
  | float => exact ofNat_load_inj (n := 4) (by norm_num) hbs hbs' (Got.float.inj h)

/-- Two memories behind the message that differ in every byte. -/
def zeros (m : ℕ) : List UInt8 := List.replicate m 0

@[inherit_doc zeros]
def ones (m : ℕ) : List UInt8 := List.replicate m 255

/-- A read that passes the test and does not lie in the message reaches what is behind it. -/
theorem take_from_ne {m : ℕ} (hcur : cur < 2 ^ 64) (hn : n < 2 ^ 64)
    (htest : (cur + n) % 2 ^ 64 ≤ B.data.length) (hout : ¬ cur + n ≤ B.data.length)
    (hm : 2 ^ 65 ≤ m) :
    ((B.followedBy (zeros m)).from cur).take n ≠ ((B.followedBy (ones m)).from cur).take n := by
  have hlt := B.length_lt
  intro heq
  have hzero : (((B.followedBy (zeros m)).from cur).take n)[n - 1]? = some 0 :=
    getElem?_take_from (by omega) (by omega) (by omega)
  have hone : (((B.followedBy (ones m)).from cur).take n)[n - 1]? = some 255 :=
    getElem?_take_from (by omega) (by omega) (by omega)
  rw [heq, hone] at hzero
  cases hzero

theorem length_take_from {m : ℕ} {c : UInt8} (h : cur + n ≤ B.data.length + m) :
    (((B.followedBy (List.replicate m c)).from cur).take n).length = n := by
  show (((B.data ++ List.replicate m c).drop cur).take n).length = n
  rw [List.length_take, List.length_drop, List.length_append, List.length_replicate]
  omega

theorem Read.room_lt (r : Read) : r.room < 2 ^ 64 := by
  cases r with
  | byte iLens | skip iLens => exact iLens.toNat_lt.trans (by norm_num)
  | _ => unfold room; norm_num

/-- **A read that leaves the message** returns what the memory behind it says. -/
theorem Read.get_outside {r : Read} (hcur : cur < 2 ^ 64) (h : ¬ r.Inside B.data cur) {m : ℕ}
    (hm : 2 ^ 65 ≤ m) :
    (r.get e (B.followedBy (zeros m)) cur).1 ≠ (r.get e (B.followedBy (ones m)) cur).1 := by
  have hroom := r.room_lt
  have hlt := B.length_lt
  induction r using Read.number_cases with
  | hnumber r hr =>
    rw [inside_number hr, Classical.not_imp] at h
    have hne := take_from_ne hcur hroom h.1 h.2 hm
    have hget : ∀ after, (r.get e (B.followedBy after) cur).1
        = r.ofNumber e (load e (((B.followedBy after).from cur).take r.room)) := by
      intro after
      have htest : ¬ (cur + r.room) % 2 ^ 64 > (B.followedBy after).data.length := not_lt.mpr h.1
      rw [get_number hr, readNumber, if_neg htest]
      rfl
    rw [hget, hget]
    by_cases hbool : r = .bool
    · subst hbool
      rw [show room .bool = 1 from rfl] at h
      have hlast : cur = 2 ^ 64 - 1 := by omega
      have hone : ∀ c, (((B.followedBy (List.replicate m c)).from cur).take 1) = [c] := by
        intro c
        have hc : (((B.followedBy (List.replicate m c)).from cur).take 1)[0]? = some c :=
          getElem?_take_from one_pos (by omega) (by omega)
        have hlen : (((B.followedBy (List.replicate m c)).from cur).take 1).length = 1 :=
          length_take_from (by omega)
        obtain ⟨c', hc'⟩ := List.length_eq_one_iff.mp hlen
        rw [hc'] at hc ⊢
        cases hc
        rfl
      show Got.bool (load e (((B.followedBy (List.replicate m 0)).from cur).take 1) != 0)
        ≠ .bool (load e (((B.followedBy (List.replicate m 255)).from cur).take 1) != 0)
      rw [hone, hone]
      cases e <;> decide
    · intro heq
      exact hne (ofNumber_inj hr hbool (length_take_from (by omega))
        (length_take_from (by omega)) heq)
  | hstring =>
    obtain ⟨hlen, hnul⟩ := Classical.not_imp.mp h
    have hget : ∀ after, (string.get e (B.followedBy after) cur).1
        = .text (B.data.drop cur ++ cString after) := by
      intro after
      have htest : ¬ cur ≥ (B.followedBy after).data.length := not_le.mpr hlen
      show Got.text (getString (B.followedBy after) cur).1 = _
      rw [getString, if_neg htest]
      show Got.text (cString ((B.data ++ after).drop cur)) = _
      rw [List.drop_append_of_le_length hlen.le, cString_append_of_notMem hnul]
    rw [hget, hget]
    intro heq
    have htext := List.append_cancel_left (Got.text.inj heq)
    obtain ⟨k, rfl⟩ : ∃ k, m = k + 1 := ⟨m - 1, by omega⟩
    cases htext
  | hbyte iLens =>
    rw [inside_byte, Classical.not_imp] at h
    have hne := take_from_ne hcur hroom h.1 h.2 hm
    have hget : ∀ after, ((byte iLens).get e (B.followedBy after) cur).1
        = .text (((B.followedBy after).from cur).take iLens.toNat) := by
      intro after
      have htest : ¬ (cur + iLens.toNat) % 2 ^ 64 > (B.followedBy after).data.length :=
        not_lt.mpr h.1
      show Got.text (getByte (B.followedBy after) iLens.toNat cur).1 = _
      rw [getByte, if_neg htest]
    rw [hget, hget]
    exact fun heq => hne (Got.text.inj heq)
  | hskip iLens => exact absurd trivial h

theorem Read.next_lt {r : Read} {data : List UInt8} (hdata : data.length < 2 ^ 64)
    (hcur : cur < 2 ^ 64) (h : r.Inside data cur) : r.next data cur < 2 ^ 64 := by
  induction r using Read.number_cases with
  | hnumber r hr =>
    rw [next_number hr]
    split <;> omega
  | hstring =>
    unfold next
    dsimp only
    split
    · rename_i hlen
      have htext := length_cString_lt (h hlen)
      rw [List.length_drop] at htext
      omega
    · exact hcur
  | hbyte iLens =>
    rw [next_byte]
    split <;> omega
  | hskip iLens => exact Nat.mod_lt _ (by norm_num)

end Outside

/-! ## Sequences of calls -/

section Calls

variable {ν : Type*} {e : Endian} {N : LuaNumber ν} {B : ParseBuffer} {cur : ℕ}

/-- Calls that are confined return the same with any memory behind the message. -/
theorem calls_followedBy {cs : List Call} (h : Confined B.data cs cur) (after : List UInt8) :
    calls e N (B.followedBy after) cs cur = calls e N B cs cur := by
  induction cs generalizing cur with
  | nil => rfl
  | cons c cs ih =>
    cases c with
    | read r =>
      obtain ⟨hread, hrest⟩ := h
      unfold calls
      rw [Read.get_followedBy hread after]
      dsimp only
      rw [Read.get_snd hread, ih hrest]
    | struct objAttr =>
      obtain ⟨hstruct, hrest⟩ := h
      obtain ⟨hsame, hnext⟩ := getLoop_inside (e := e) (N := N) (fun _ => .nil) hstruct after
      unfold calls getStruct
      rw [hsame]
      cases hrun : getLoop e N B objAttr (fun _ => .nil) cur with
      | none => rfl
      | some p =>
        obtain ⟨t, cur'⟩ := p
        dsimp only
        rw [ih (hrest cur' (hnext t cur' hrun))]

/-- Getters that return the same with any memory behind the message are confined. -/
theorem confined_of_same {reads : List Read} (hcur : cur < 2 ^ 64)
    (h : ∀ after after', calls e N (B.followedBy after) (reads.map .read) cur
      = calls e N (B.followedBy after') (reads.map .read) cur) :
    Confined B.data (reads.map .read) cur := by
  induction reads generalizing cur with
  | nil => trivial
  | cons r reads ih =>
    have hvalue : ∀ after after', (r.get e (B.followedBy after) cur).1
        = (r.get e (B.followedBy after') cur).1 :=
      fun after after' => Sum.inl.inj (List.cons.inj (h after after')).1
    have hread : r.Inside B.data cur := by
      by_contra hout
      exact Read.get_outside hcur hout le_rfl (hvalue _ _)
    refine ⟨hread, ih (Read.next_lt B.length_lt hcur hread) fun after after' => ?_⟩
    have hrest : ∀ after, (r.get e (B.followedBy after) cur).2 = r.next B.data cur := by
      intro after
      rw [Read.get_followedBy hread, Read.get_snd hread]
    have htail : calls e N (B.followedBy after) (reads.map .read)
          (r.get e (B.followedBy after) cur).2
        = calls e N (B.followedBy after') (reads.map .read) (r.get e (B.followedBy after') cur).2 :=
      (List.cons.inj (h after after')).2
    rwa [hrest, hrest] at htail

/-- **Reads are confined to the message** wherever every read of the run is inside it: then
the calls return the same whatever memory is behind. For getters and `skipRead` that is
the only case. -/
theorem confined_iff (e : Endian) (N : LuaNumber ν) (B : ParseBuffer) (cs : List Call) :
    (Confined B.data cs 0 →
      ∀ after after', calls e N (B.followedBy after) cs 0 = calls e N (B.followedBy after') cs 0)
    ∧ ∀ reads : List Read, cs = reads.map .read →
      ((∀ after after',
          calls e N (B.followedBy after) cs 0 = calls e N (B.followedBy after') cs 0)
        ↔ Confined B.data cs 0) := by
  have hsame : Confined B.data cs 0 → ∀ after after',
      calls e N (B.followedBy after) cs 0 = calls e N (B.followedBy after') cs 0 := by
    intro h after after'
    rw [calls_followedBy h, calls_followedBy h]
  refine ⟨hsame, ?_⟩
  rintro reads rfl
  exact ⟨confined_of_same (by norm_num), hsame⟩

/-- A string without a NUL goes on behind the message: "a" is read as "a" if a NUL follows
it, and as "ab" if a "b" does. -/
theorem not_confined :
    ¬ ∀ (B : ParseBuffer) (cs : List Call) (after after' : List UInt8),
      calls .little plainNumbers (B.followedBy after) cs 0
        = calls .little plainNumbers (B.followedBy after') cs 0 := by
  intro h
  have hread : [Sum.inl (Got.text [97])] = [Sum.inl (Got.text [97, 98])] :=
    h ⟨[97], [], by decide⟩ [.read .string] [0] [98, 0]
  cases hread

end Calls

end LuaBinary
