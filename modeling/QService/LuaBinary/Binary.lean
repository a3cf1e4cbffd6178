import QService.CInt
import QService.Host
import QService.QString

/-!
# `CLuaBinary`: typed writes and reads

A `CLuaBinary` appends values to a write buffer and reads them from a parse
buffer behind a cursor. Integers go over the wire in network order, 64-bit
integers come from and go to Lua as decimal text, floating-point numbers are
copied as they are in memory.

The build is the 64-bit one, with 64-bit `size_t` and `lua_Integer`, and there is
always memory for the write buffer. Lua's numbers are a parameter, with the
conversions that LuaBridge makes and what the program relies on: the integers
that a `double` holds exactly, and the values of `float` and `double`, survive
the way through Lua (`LuaNumber`).
-/

open ByteOrder

/-! ## Lua values -/

/-- Lua's numbers, as far as the code sees them. -/
structure LuaNumber (ν : Type*) where
  /-- `luaL_checkinteger`. -/
  toInteger : ν → ℤ
  /-- `lua_pushinteger`. -/
  ofInteger : ℤ → ν
  /-- `luaL_checknumber`, converted to a `float`. -/
  toFloat : ν → BitVec 32
  /-- `lua_pushnumber` of a `float`. -/
  ofFloat : BitVec 32 → ν
  /-- `luaL_checknumber`. -/
  toDouble : ν → BitVec 64
  /-- `lua_pushnumber`. -/
  ofDouble : BitVec 64 → ν
  /-- The `float` that a stream reads from a text. -/
  readFloat : List UInt8 → BitVec 32
  /-- The `double` that a stream reads from a text. -/
  readDouble : List UInt8 → BitVec 64
  toInteger_ofInteger : ∀ z, -2 ^ 53 ≤ z → z ≤ 2 ^ 53 → toInteger (ofInteger z) = z
  toFloat_ofFloat : ∀ p, toFloat (ofFloat p) = p
  toDouble_ofDouble : ∀ p, toDouble (ofDouble p) = p

/-- A Lua value. A table is seen through its string keys. -/
inductive LuaVal (ν : Type*)
  | nil
  | boolean (b : Bool)
  | number (x : ν)
  | string (s : List UInt8)
  | table (t : List UInt8 → LuaVal ν)
  /-- A function, a thread or userdata. -/
  | other

/-- A Lua table. -/
abbrev LuaTable (ν : Type*) := List UInt8 → LuaVal ν

section Numbers

variable {ν : Type*} (N : LuaNumber ν)

/-- `getLuaNumber`: a number is cast, a string is read by a stream, and anything
else is 0. -/
def getLuaNumber {α : Type*} (cast : ν → α) (toNumber : List UInt8 → α) (zero : α) :
    LuaVal ν → α
  | .number x => cast x
  | .string s => toNumber (cString s)
  | _ => zero

/-- `getLuaNumber` for an integer type. -/
def getLuaInt (T : CInt) : LuaVal ν → ℤ :=
  getLuaNumber (fun x => T.cast (N.toInteger x)) T.read 0

/-- `getLuaNumber<float>`. -/
def getLuaFloat : LuaVal ν → BitVec 32 := getLuaNumber N.toFloat N.readFloat 0

/-- `getLuaNumber<double>`. -/
def getLuaDouble : LuaVal ν → BitVec 64 := getLuaNumber N.toDouble N.readDouble 0

theorem fits_getLuaInt (T : CInt) (v : LuaVal ν) : T.Fits (getLuaInt N T v) := by
  unfold getLuaInt getLuaNumber
  split
  · exact T.fits_cast _
  · exact T.fits_read _
  · exact T.fits_zero

/-- A number that `lua_pushinteger` has made is cast back. -/
theorem getLuaInt_ofInteger {T : CInt} {z : ℤ} (h : T.Fits z) (h₁ : -2 ^ 53 ≤ z)
    (h₂ : z ≤ 2 ^ 53) : getLuaInt N T (.number (N.ofInteger z)) = z := by
  show T.cast (N.toInteger (N.ofInteger z)) = z
  rw [N.toInteger_ofInteger z h₁ h₂, CInt.cast_of_fits h]

/-- A decimal text of a value is read. -/
theorem getLuaInt_decimal {T : CInt} {s : List UInt8} {z : ℤ} (h : CInt.IsDecimal s z)
    (hz : T.Fits z) : getLuaInt N T (.string s) = z := by
  show T.read (cString s) = z
  rw [cString_of_notMem (CInt.zero_notMem_of_isDecimal h), CInt.read_of_isDecimal h hz]

end Numbers

namespace LuaBinary

/-! ## Writing -/

/-- `setVal`: append to the write buffer. -/
def setVal (buf bytes : List UInt8) : List UInt8 := buf ++ bytes

/-- `skipWrite`. -/
def skipWrite (iLens : ℕ) (buf : List UInt8) : List UInt8 := setVal buf (List.replicate iLens 0)

section Writes

variable (e : Endian)

/-- The common form of `setSint16`, `setUint16`, `setSint32` and `setUint32`. -/
def setInt (T : CInt) (val : ℤ) (buf : List UInt8) : List UInt8 :=
  setVal buf (store e T.bytes (ntoh e T.bytes (T.toBits val)))

/-- `setSint8`. -/
def setSint8 (sVal : ℤ) (buf : List UInt8) : List UInt8 :=
  setVal buf (store e 1 (CInt.char.toBits sVal))

/-- `setUint8`. -/
def setUint8 (usVal : ℤ) (buf : List UInt8) : List UInt8 :=
  setVal buf (store e 1 (CInt.unsignedChar.toBits usVal))

/-- `setBool`. -/
def setBool (bVal : Bool) (buf : List UInt8) : List UInt8 := setVal buf [if bVal then 1 else 0]

/-- `setSint16`. -/
def setSint16 : ℤ → List UInt8 → List UInt8 := setInt e .short

/-- `setUint16`. -/
def setUint16 : ℤ → List UInt8 → List UInt8 := setInt e .unsignedShort

/-- `setSint32`. -/
def setSint32 : ℤ → List UInt8 → List UInt8 := setInt e .int

/-- `setUint32`. -/
def setUint32 : ℤ → List UInt8 → List UInt8 := setInt e .unsignedInt

/-- The common form of `setSint64` and `setUint64`: the text goes through a stream. -/
def setText64 (T : CInt) (pszVal : List UInt8) (buf : List UInt8) : List UInt8 :=
  setVal buf (store e 8 (ntohl64 e (T.toBits (T.read (cString pszVal)))))

/-- `setSint64`. -/
def setSint64 : List UInt8 → List UInt8 → List UInt8 := setText64 e .int64

/-- `setUint64`. -/
def setUint64 : List UInt8 → List UInt8 → List UInt8 := setText64 e .uint64

/-- `setDouble`. -/
def setDouble (dVal : BitVec 64) (buf : List UInt8) : List UInt8 :=
  setVal buf (store e 8 dVal.toNat)

/-- `setFloat`. -/
def setFloat (fVal : BitVec 32) (buf : List UInt8) : List UInt8 :=
  setVal buf (store e 4 fVal.toNat)

/-- `setString`. -/
def setString (pszVal buf : List UInt8) : List UInt8 := skipWrite 1 (setVal buf (cString pszVal))

/-- `setByte`. -/
def setByte (pszVal : List UInt8) (iLens : ℕ) (buf : List UInt8) : List UInt8 :=
  setVal buf (pszVal.take iLens)

end Writes

/-! ## Reading -/

/-- The parse buffer: its bytes, and the memory behind it. -/
structure ParseBuffer where
  data : List UInt8
  after : List UInt8
  length_lt : data.length < 2 ^ 64

/-- The memory from the cursor on. -/
def ParseBuffer.from (B : ParseBuffer) (cur : ℕ) : List UInt8 := (B.data ++ B.after).drop cur

/-- `skipRead`. The cursor is a `size_t`. -/
def skipRead (iLens cur : ℕ) : ℕ := (cur + iLens) % 2 ^ 64

section Reads

variable (e : Endian) (B : ParseBuffer)

/-- `readNumber` of `n` bytes: 0, and no move, when there are fewer. -/
def readNumber (n cur : ℕ) : ℕ × ℕ :=
  if (cur + n) % 2 ^ 64 > B.data.length then (0, cur)
  else (load e ((B.from cur).take n), (cur + n) % 2 ^ 64)

/-- The common form of `getSint16`, `getUint16`, `getSint32` and `getUint32`. -/
def getInt (T : CInt) (cur : ℕ) : ℤ × ℕ :=
  let (val, cur) := readNumber e B T.bytes cur
  (T.cast (ntoh e T.bytes val), cur)

/-- `getSint8`. -/
def getSint8 (cur : ℕ) : ℤ × ℕ :=
  let (val, cur) := readNumber e B 1 cur
  (CInt.char.cast val, cur)

/-- `getUint8`. -/
def getUint8 (cur : ℕ) : ℤ × ℕ :=
  let (val, cur) := readNumber e B 1 cur
  (CInt.unsignedChar.cast val, cur)

/-- `getBool`. -/
def getBool (cur : ℕ) : Bool × ℕ :=
  let (val, cur) := readNumber e B 1 cur
  (val != 0, cur)

/-- `getSint16`. -/
def getSint16 : ℕ → ℤ × ℕ := getInt e B .short

/-- `getUint16`. -/
def getUint16 : ℕ → ℤ × ℕ := getInt e B .unsignedShort

/-- `getSint32`. -/
def getSint32 : ℕ → ℤ × ℕ := getInt e B .int

/-- `getUint32`. -/
def getUint32 : ℕ → ℤ × ℕ := getInt e B .unsignedInt

/-- The common form of `getSint64` and `getUint64`. -/
def getText64 (T : CInt) (cur : ℕ) : List UInt8 × ℕ :=
  let (val, cur) := readNumber e B 8 cur
  (CInt.print (T.cast (ntohl64 e val)), cur)

/-- `getSint64`. -/
def getSint64 : ℕ → List UInt8 × ℕ := getText64 e B .int64

/-- `getUint64`. -/
def getUint64 : ℕ → List UInt8 × ℕ := getText64 e B .uint64

/-- `getDouble`. -/
def getDouble (cur : ℕ) : BitVec 64 × ℕ :=
  let (val, cur) := readNumber e B 8 cur
  (BitVec.ofNat 64 val, cur)

/-- `getFloat`. -/
def getFloat (cur : ℕ) : BitVec 32 × ℕ :=
  let (val, cur) := readNumber e B 4 cur
  (BitVec.ofNat 32 val, cur)

/-- `getString`: up to the next NUL, wherever that is. -/
def getString (cur : ℕ) : List UInt8 × ℕ :=
  if cur ≥ B.data.length then ([], cur)
  else
    let strVal := cString (B.from cur)
    (strVal, (cur + (strVal.length + 1)) % 2 ^ 64)

/-- `getByte`. -/
def getByte (iLens cur : ℕ) : List UInt8 × ℕ :=
  if (cur + iLens) % 2 ^ 64 > B.data.length then ([], cur)
  else ((B.from cur).take iLens, (cur + iLens) % 2 ^ 64)

end Reads

/-! ## What is written is read -/

/-- The bytes stand at the cursor of the parse buffer. -/
def ParseBuffer.At (B : ParseBuffer) (cur : ℕ) (bytes : List UInt8) : Prop :=
  ∃ pre post, B.data = pre ++ bytes ++ post ∧ pre.length = cur

namespace ParseBuffer

variable {B : ParseBuffer} {cur : ℕ} {bytes : List UInt8}

theorem At.le (h : B.At cur bytes) : cur + bytes.length ≤ B.data.length := by
  obtain ⟨pre, post, hdata, rfl⟩ := h
  rw [hdata]
  simp only [List.length_append]
  omega

theorem At.from_eq (h : B.At cur bytes) : ∃ post, B.from cur = bytes ++ post := by
  obtain ⟨pre, post, hdata, rfl⟩ := h
  refine ⟨post ++ B.after, ?_⟩
  unfold ParseBuffer.from
  rw [hdata, List.append_assoc, List.append_assoc, List.drop_left]

theorem At.left {bs₁ bs₂ : List UInt8} (h : B.At cur (bs₁ ++ bs₂)) : B.At cur bs₁ := by
  obtain ⟨pre, post, hdata, hcur⟩ := h
  exact ⟨pre, bs₂ ++ post, by rw [hdata]; simp, hcur⟩

theorem At.right {bs₁ bs₂ : List UInt8} (h : B.At cur (bs₁ ++ bs₂)) :
    B.At (cur + bs₁.length) bs₂ := by
  obtain ⟨pre, post, hdata, hcur⟩ := h
  exact ⟨pre ++ bs₁, post, by rw [hdata]; simp, by rw [List.length_append, hcur]⟩

/-- The cursor does not wrap inside the buffer. -/
theorem At.cur_mod (h : B.At cur bytes) :
    (cur + bytes.length) % 2 ^ 64 = cur + bytes.length :=
  Nat.mod_eq_of_lt (h.le.trans_lt B.length_lt)

end ParseBuffer

section RoundTrip

variable {e : Endian} {B : ParseBuffer} {cur : ℕ} {bytes : List UInt8}

/-- **`readNumber` reads the bytes at the cursor.** -/
theorem readNumber_at (h : B.At cur bytes) {n : ℕ} (hn : bytes.length = n) :
    readNumber e B n cur = (load e bytes, cur + n) := by
  have hle := h.le
  have hmod := h.cur_mod
  obtain ⟨post, hpost⟩ := h.from_eq
  rw [hn] at hle hmod
  unfold readNumber
  rw [hmod, if_neg (by omega), hpost, ← hn, List.take_left]

/-- The bytes of an integer on the wire. -/
def wireBytes (T : CInt) (z : ℤ) : List UInt8 := beBytes T.bytes (T.toBits z)

@[simp] theorem length_wireBytes (T : CInt) (z : ℤ) : (wireBytes T z).length = T.bytes :=
  length_beBytes _ _

theorem cast_ofBE_wireBytes (T : CInt) (z : ℤ) : T.cast (ofBE (wireBytes T z)) = T.cast z := by
  rw [wireBytes, ofBE_beBytes, Nat.mod_eq_of_lt (T.toBits_lt z), T.cast_toBits]

/-- **Integers in network order.** -/
theorem getInt_at (T : CInt) {val : ℤ} (h : B.At cur (wireBytes T val)) :
    getInt e B T cur = (T.cast val, cur + T.bytes) := by
  have hload := ntoh_load e (wireBytes T val)
  rw [length_wireBytes] at hload
  unfold getInt
  rw [readNumber_at h (length_wireBytes T val)]
  dsimp only
  rw [hload, cast_ofBE_wireBytes]

theorem store_one (e : Endian) (n : ℕ) : store e 1 n = beBytes 1 n := by
  cases e <;> rfl

theorem load_of_length_one (e : Endian) {bs : List UInt8} (h : bs.length = 1) :
    load e bs = ofBE bs := by
  obtain ⟨b, rfl⟩ := List.length_eq_one_iff.mp h
  cases e <;> rfl

/-- **Integers of one byte.** -/
theorem readNumber_one_at (T : CInt) (hT : T.bytes = 1) {val : ℤ}
    (h : B.At cur (wireBytes T val)) :
    (T.cast (readNumber e B 1 cur).1, (readNumber e B 1 cur).2) = (T.cast val, cur + 1) := by
  have hlen : (wireBytes T val).length = 1 := (length_wireBytes T val).trans hT
  rw [readNumber_at h hlen, load_of_length_one e hlen]
  dsimp only
  rw [cast_ofBE_wireBytes]

/-- **Storing a 64-bit integer through `ntohl64` writes its big-endian bytes.** -/
theorem store_ntohl64 (e : Endian) {n : ℕ} (hn : n < 256 ^ 8) :
    store e 8 (ntohl64 e n) = beBytes 8 n := by
  have hload : ntohl64 e n = ofBE (store e 8 n) := by
    rw [← ntohl64_load e (length_store e 8 n), load_store, Nat.mod_eq_of_lt hn]
  rw [hload]
  cases e with
  | little =>
    show leBytes 8 (ofLE (leBytes 8 n).reverse) = (leBytes 8 n).reverse
    have h := leBytes_ofLE (leBytes 8 n).reverse
    rwa [List.length_reverse, length_leBytes] at h
  | big =>
    have h := beBytes_ofBE (beBytes 8 n)
    rwa [length_beBytes] at h

/-- **64-bit integers as text.** -/
theorem getText64_at (T : CInt) (hT : T.bytes = 8) {val : ℤ} (h : B.At cur (wireBytes T val)) :
    getText64 e B T cur = (CInt.print (T.cast val), cur + 8) := by
  have hlen : (wireBytes T val).length = 8 := (length_wireBytes T val).trans hT
  unfold getText64
  rw [readNumber_at h hlen]
  dsimp only
  rw [ntohl64_load e hlen, cast_ofBE_wireBytes]

theorem getBool_at {b : Bool} (h : B.At cur [if b then 1 else 0]) :
    getBool e B cur = (b, cur + 1) := by
  unfold getBool
  rw [readNumber_at (n := 1) h rfl]
  cases b <;> cases e <;> rfl

theorem getDouble_at {p : BitVec 64} (h : B.At cur (store e 8 p.toNat)) :
    getDouble e B cur = (p, cur + 8) := by
  have hlt : p.toNat < 256 ^ 8 := p.isLt
  unfold getDouble
  rw [readNumber_at h (length_store _ _ _)]
  dsimp only
  rw [load_store, Nat.mod_eq_of_lt hlt, BitVec.ofNat_toNat, BitVec.setWidth_eq]

theorem getFloat_at {p : BitVec 32} (h : B.At cur (store e 4 p.toNat)) :
    getFloat e B cur = (p, cur + 4) := by
  have hlt : p.toNat < 256 ^ 4 := p.isLt
  unfold getFloat
  rw [readNumber_at h (length_store _ _ _)]
  dsimp only
  rw [load_store, Nat.mod_eq_of_lt hlt, BitVec.ofNat_toNat, BitVec.setWidth_eq]

/-- **A string is read up to its NUL.** -/
theorem getString_at {s t : List UInt8} (hs : 0 ∉ s) (h : B.At cur (s ++ 0 :: t)) :
    getString B cur = (s, cur + (s.length + 1)) := by
  have hle := h.le
  obtain ⟨post, hpost⟩ := h.from_eq
  have hlt := B.length_lt
  rw [List.length_append, List.length_cons] at hle
  unfold getString
  rw [if_neg (by omega), hpost, List.append_assoc, List.cons_append, cString_append_zero hs]
  dsimp only
  rw [Nat.mod_eq_of_lt (by omega)]

theorem getByte_at (h : B.At cur bytes) :
    getByte B bytes.length cur = (bytes, cur + bytes.length) := by
  have hle := h.le
  have hmod := h.cur_mod
  obtain ⟨post, hpost⟩ := h.from_eq
  unfold getByte
  rw [hmod, if_neg (by omega), hpost, List.take_left]

end RoundTrip

end LuaBinary
