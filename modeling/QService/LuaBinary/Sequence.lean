import QService.BufferMgr
import QService.LuaBinary.Binary

/-!
# Sequences of typed writes and reads

A user of `CLuaBinary` writes values one after the other, takes the buffer,
and reads it with the getters that match, in the same order. `Item` is one
such value with its setter and its getter; `Item.Ok` says what the setter's
parameter can hold.

The writes go to a `Buffer`, which may move between any two of them. Each
getter is right where its item's bytes stand at the cursor (`Item.get_at`),
and leaves the cursor behind them, so a sequence is read back by induction
(`items_roundTrip`).
-/

open ByteOrder

namespace LuaBinary

/-- A typed write. A 64-bit integer is given as a text, next to the number it
stands for. -/
inductive Item
  | sint8 (sVal : ℤ)
  | uint8 (usVal : ℤ)
  | bool (bVal : Bool)
  | sint16 (sVal : ℤ)
  | uint16 (usVal : ℤ)
  | sint32 (iVal : ℤ)
  | uint32 (uiVal : ℤ)
  | sint64 (pszVal : List UInt8) (iVal : ℤ)
  | uint64 (pszVal : List UInt8) (uiVal : ℤ)
  | double (dVal : BitVec 64)
  | float (fVal : BitVec 32)
  | string (pszVal : List UInt8)
  | byte (pszVal : List UInt8)
  | skip (iLens : ℕ)
  deriving DecidableEq, Repr

/-- What a getter returns. -/
inductive Got
  | int (z : ℤ)
  | bool (b : Bool)
  | text (s : List UInt8)
  | double (p : BitVec 64)
  | float (p : BitVec 32)
  | nothing
  deriving DecidableEq, Repr

namespace Item

/-- The item can be written: integers in the range of their type, 64-bit integers
as a decimal text of a number in range, strings without a NUL, and lengths
that an `unsigned int` holds. -/
def Ok : Item → Prop
  | sint8 z => CInt.char.Fits z
  | uint8 z => CInt.unsignedChar.Fits z
  | sint16 z => CInt.short.Fits z
  | uint16 z => CInt.unsignedShort.Fits z
  | sint32 z => CInt.int.Fits z
  | uint32 z => CInt.unsignedInt.Fits z
  | sint64 s z => CInt.IsDecimal s z ∧ CInt.int64.Fits z
  | uint64 s z => CInt.IsDecimal s z ∧ CInt.uint64.Fits z
  | string s => 0 ∉ s
  | byte s => s.length < 2 ^ 32
  | skip n => n < 2 ^ 32
  | _ => True

/-- What the matching getter should return: a 64-bit integer in canonical form. -/
def value : Item → Got
  | sint8 z => .int z
  | uint8 z => .int z
  | bool b => .bool b
  | sint16 z => .int z
  | uint16 z => .int z
  | sint32 z => .int z
  | uint32 z => .int z
  | sint64 _ z => .text (CInt.print z)
  | uint64 _ z => .text (CInt.print z)
  | double p => .double p
  | float p => .float p
  | string s => .text s
  | byte s => .text s
  | skip _ => .nothing

/-- The setter of the item, on the contents of the write buffer. -/
def set (e : Endian) : Item → List UInt8 → List UInt8
  | sint8 z => setSint8 e z
  | uint8 z => setUint8 e z
  | bool b => setBool b
  | sint16 z => setSint16 e z
  | uint16 z => setUint16 e z
  | sint32 z => setSint32 e z
  | uint32 z => setUint32 e z
  | sint64 s _ => setSint64 e s
  | uint64 s _ => setUint64 e s
  | double p => setDouble e p
  | float p => setFloat e p
  | string s => setString s
  | byte s => setByte s s.length
  | skip n => skipWrite n

/-- The calls of `pushBuff` that the setter makes: one, but for a string its
characters and then a zero, and for a skip of nothing none. -/
def pushes (e : Endian) : Item → List (Option (List UInt8) × ℕ)
  | string s => [(some (cString s), (cString s).length), (none, 1)]
  | skip n => if n = 0 then [] else [(none, n)]
  | item => [(some (item.set e []), (item.set e []).length)]

/-- The setter of the item, on the write buffer. -/
def write (heap : List UInt8 → ℕ → UInt8) (e : Endian) (B : Buffer) (item : Item) : Buffer :=
  (item.pushes e).foldl (fun B p => B.pushBuff heap p.1 p.2) B

/-- The getter that matches the item. -/
def get (e : Endian) (P : ParseBuffer) (cur : ℕ) : Item → Got × ℕ
  | sint8 _ => (getSint8 e P cur).map .int id
  | uint8 _ => (getUint8 e P cur).map .int id
  | bool _ => (getBool e P cur).map .bool id
  | sint16 _ => (getSint16 e P cur).map .int id
  | uint16 _ => (getUint16 e P cur).map .int id
  | sint32 _ => (getSint32 e P cur).map .int id
  | uint32 _ => (getUint32 e P cur).map .int id
  | sint64 _ _ => (getSint64 e P cur).map .text id
  | uint64 _ _ => (getUint64 e P cur).map .text id
  | double _ => (getDouble e P cur).map .double id
  | float _ => (getFloat e P cur).map .float id
  | string _ => (getString P cur).map .text id
  | byte s => (getByte P s.length cur).map .text id
  | skip n => (.nothing, skipRead n cur)

/-- The bytes of the item. -/
def bytes (e : Endian) (item : Item) : List UInt8 := item.set e []

/-- Every setter appends. -/
theorem set_eq (e : Endian) (item : Item) (buf : List UInt8) :
    item.set e buf = buf ++ item.bytes e := by
  cases item with
  | string s => exact List.append_assoc _ _ _
  | _ => rfl

/-- **The setter on the buffer is the setter on its contents**, whether the block
moves or not. -/
theorem contents_write (heap : List UInt8 → ℕ → UInt8) (e : Endian) (B : Buffer) (item : Item) :
    (write heap e B item).contents = item.set e B.contents := by
  have hone : ∀ bytes : List UInt8,
      ([(some bytes, bytes.length)].foldl (fun B p => B.pushBuff heap p.1 p.2) B).contents
        = B.contents ++ bytes := by
    intro bytes
    show (B.pushBuff heap (some bytes) bytes.length).contents = _
    rw [Buffer.contents_pushBuff, Buffer.pushed, List.take_length]
  unfold write
  cases item with
  | string s =>
    show ((B.pushBuff heap (some (cString s)) (cString s).length).pushBuff heap none 1).contents
      = B.contents ++ cString s ++ [0]
    rw [Buffer.contents_pushBuff, Buffer.contents_pushBuff, Buffer.pushed, Buffer.pushed,
      List.take_length]
    rfl
  | skip n =>
    show ((if n = 0 then [] else [(none, n)]).foldl (fun B p => B.pushBuff heap p.1 p.2) B).contents
      = B.contents ++ List.replicate n 0
    by_cases hn : n = 0
    · rw [if_pos hn, hn]
      exact (List.append_nil _).symm
    · rw [if_neg hn]
      exact B.contents_pushBuff heap none n
  | _ => exact hone _

/-! ## One item -/

/-- The bytes of an integer item are those of its number in network order. -/
theorem setInt_nil (e : Endian) (T : CInt) (z : ℤ) : setInt e T z [] = wireBytes T z := by
  show store e T.bytes (ntoh e T.bytes (T.toBits z)) = _
  rw [store_ntoh, wireBytes]

theorem setText64_nil (e : Endian) {T : CInt} (hT : T.bytes = 8) {s : List UInt8} {z : ℤ}
    (hs : CInt.IsDecimal s z) (hz : T.Fits z) : setText64 e T s [] = wireBytes T z := by
  have hlt := T.toBits_lt z
  show store e 8 (ntohl64 e (T.toBits (T.read (cString s)))) = _
  rw [cString_of_notMem (CInt.zero_notMem_of_isDecimal hs), CInt.read_of_isDecimal hs hz,
    wireBytes, hT]
  exact store_ntohl64 e (hT ▸ hlt)

/-- The getter of an integer of two or four bytes. -/
theorem getInt_wire {e : Endian} {P : ParseBuffer} {cur : ℕ} (T : CInt) {z : ℤ} (hz : T.Fits z)
    (h : P.At cur (setInt e T z [])) :
    (getInt e P T cur).map Got.int id = (.int z, cur + (setInt e T z []).length) := by
  rw [setInt_nil] at h ⊢
  rw [getInt_at T h, CInt.cast_of_fits hz, length_wireBytes]
  rfl

/-- The getter of an integer of one byte. -/
theorem getByte_wire {e : Endian} {P : ParseBuffer} {cur : ℕ} {T : CInt} (hT : T.bytes = 1)
    {z : ℤ} (hz : T.Fits z) (h : P.At cur (store e 1 (T.toBits z))) :
    (Got.int (T.cast (readNumber e P 1 cur).1), (readNumber e P 1 cur).2)
      = (.int z, cur + (store e 1 (T.toBits z)).length) := by
  have hwire : store e 1 (T.toBits z) = wireBytes T z := by
    rw [store_one, wireBytes, hT]
  rw [hwire] at h ⊢
  have hread := readNumber_one_at (e := e) T hT h
  rw [CInt.cast_of_fits hz] at hread
  rw [(Prod.mk.inj hread).1, (Prod.mk.inj hread).2, length_wireBytes, hT]

/-- The getter of an integer of eight bytes, which comes as a text. -/
theorem getText64_wire {e : Endian} {P : ParseBuffer} {cur : ℕ} {T : CInt} (hT : T.bytes = 8)
    {s : List UInt8} {z : ℤ} (hs : CInt.IsDecimal s z ∧ T.Fits z)
    (h : P.At cur (setText64 e T s [])) :
    (getText64 e P T cur).map Got.text id
      = (.text (CInt.print z), cur + (setText64 e T s []).length) := by
  rw [setText64_nil e hT hs.1 hs.2] at h ⊢
  rw [getText64_at T hT h, CInt.cast_of_fits hs.2, length_wireBytes, hT]
  rfl

/-- **The getter reads the item where its bytes stand at the cursor**, and leaves
the cursor behind them. -/
theorem get_at {e : Endian} {P : ParseBuffer} {cur : ℕ} {item : Item} (hok : item.Ok)
    (h : P.At cur (item.bytes e)) :
    item.get e P cur = (item.value, cur + (item.bytes e).length) := by
  cases item with
  | sint8 z => exact getByte_wire (T := .char) rfl hok h
  | uint8 z => exact getByte_wire (T := .unsignedChar) rfl hok h
  | bool b =>
    show (getBool e P cur).map Got.bool id = _
    rw [getBool_at h]
    rfl
  | sint16 z => exact getInt_wire .short hok h
  | uint16 z => exact getInt_wire .unsignedShort hok h
  | sint32 z => exact getInt_wire .int hok h
  | uint32 z => exact getInt_wire .unsignedInt hok h
  | sint64 s z => exact getText64_wire (T := .int64) rfl hok h
  | uint64 s z => exact getText64_wire (T := .uint64) rfl hok h
  | double p =>
    show (getDouble e P cur).map Got.double id = _
    rw [getDouble_at h]
    show _ = (_, cur + (store e 8 p.toNat).length)
    rw [length_store]
    rfl
  | float p =>
    show (getFloat e P cur).map Got.float id = _
    rw [getFloat_at h]
    show _ = (_, cur + (store e 4 p.toNat).length)
    rw [length_store]
    rfl
  | string s =>
    have hbytes : (Item.string s).bytes e = s ++ [0] := by
      show [] ++ cString s ++ [0] = _
      rw [cString_of_notMem hok, List.nil_append]
    rw [hbytes] at h ⊢
    show (getString P cur).map Got.text id = _
    rw [getString_at hok h, List.length_append]
    rfl
  | byte s =>
    have hbytes : (Item.byte s).bytes e = s := List.take_length
    rw [hbytes] at h ⊢
    show (getByte P s.length cur).map Got.text id = _
    rw [getByte_at h]
    rfl
  | skip n =>
    have hmod := h.cur_mod
    have hlen : ((Item.skip n).bytes e).length = n := List.length_replicate
    rw [hlen] at hmod ⊢
    show (Got.nothing, (cur + n) % 2 ^ 64) = _
    rw [hmod]
    rfl

end Item

/-! ## A sequence -/

/-- The items are read one after the other. -/
def getItems (e : Endian) (P : ParseBuffer) : List Item → ℕ → List Got × ℕ
  | [], cur => ([], cur)
  | item :: items, cur =>
    let (val, cur) := item.get e P cur
    let (vals, cur) := getItems e P items cur
    (val :: vals, cur)

/-- The contents of the buffer after the items are written. -/
theorem contents_writes (heap : List UInt8 → ℕ → UInt8) (e : Endian) (items : List Item)
    (B : Buffer) :
    (items.foldl (Item.write heap e) B).contents = B.contents ++ items.flatMap (Item.bytes e) := by
  induction items generalizing B with
  | nil => exact (List.append_nil _).symm
  | cons item items ih =>
    rw [List.foldl_cons, ih, Item.contents_write, Item.set_eq, List.append_assoc,
      List.flatMap_cons]

/-- The items are read back where their bytes stand at the cursor. -/
theorem getItems_at {e : Endian} {P : ParseBuffer} {cur : ℕ} {items : List Item}
    (hok : ∀ item ∈ items, item.Ok) (h : P.At cur (items.flatMap (Item.bytes e))) :
    getItems e P items cur
      = (items.map Item.value, cur + (items.flatMap (Item.bytes e)).length) := by
  induction items generalizing cur with
  | nil => rfl
  | cons item items ih =>
    rw [List.flatMap_cons] at h
    have hitem := Item.get_at (hok item List.mem_cons_self) h.left
    have hrest := ih (fun i hi => hok i (List.mem_cons_of_mem _ hi)) h.right
    unfold getItems
    rw [hitem]
    dsimp only
    rw [hrest, List.flatMap_cons, List.length_append, add_assoc]
    rfl

/-- **What is written is read back.** Any sequence of typed writes to a buffer that
was reset, read from what `getBuffer` gives by the getters that match, returns
exactly the values written, in order, the 64-bit integers as canonical decimal
texts, and ends with the cursor at the number of bytes written. -/
theorem items_roundTrip (heap : List UInt8 → ℕ → UInt8) (e : Endian) (B : Buffer)
    (items : List Item) (hok : ∀ item ∈ items, item.Ok) (P : ParseBuffer)
    (hP : P.data = (items.foldl (Item.write heap e) B.reSet).contents) :
    getItems e P items 0 = (items.map Item.value, P.data.length) := by
  rw [contents_writes, Buffer.contents_reSet, List.nil_append] at hP
  have hat : P.At 0 (items.flatMap (Item.bytes e)) := ⟨[], [], by simp [hP], rfl⟩
  rw [getItems_at hok hat, hP, Nat.zero_add]

/-- A negative byte, a text with leading zeros, a string, a block with a NUL in
it and a skip, in a buffer that grows from one byte. -/
theorem items_roundTrip_mixed :
    let items : List Item := [.sint8 (-2), .sint64 [45, 48, 55] (-7), .string [104, 105],
      .byte [0, 1], .skip 2, .bool true]
    let P : ParseBuffer :=
      ⟨[254, 255, 255, 255, 255, 255, 255, 255, 249, 104, 105, 0, 0, 1, 0, 0, 1], [9], by decide⟩
    getItems .little P items 0
      = ([.int (-2), .text [45, 55], .text [104, 105], .text [0, 1], .nothing, .bool true], 17) := by
  intro items P
  refine items_roundTrip (fun _ _ => 7) .little ⟨[3], 1, le_rfl⟩ items ?_ P (by decide)
  have hdec : CInt.IsDecimal [45, 48, 55] (-7) :=
    ⟨[48, 55], List.cons_ne_nil _ _, by decide +kernel, .inr ⟨rfl, by decide⟩⟩
  simp only [items, List.forall_mem_cons, List.not_mem_nil, false_imp_iff, implies_true, and_true]
  refine ⟨?_, ⟨hdec, ?_⟩, ?_, ?_, ?_, trivial⟩
  · show CInt.char.min ≤ -2 ∧ -2 ≤ CInt.char.max
    decide
  · show CInt.int64.min ≤ -7 ∧ -7 ≤ CInt.int64.max
    decide
  · show (0 : UInt8) ∉ [104, 105]
    decide
  · show [0, 1].length < 2 ^ 32
    decide
  · show 2 < 2 ^ 32
    decide

end LuaBinary
