import QService.Host
import QService.Framing

/-!
# The WebSocket frame parser

`CWebSockParser` reads the frames a client sends: two bytes of flags, opcode
and length, two or eight more length bytes for the long forms, four mask
bytes, and the payload xored with the mask. `parsePack` unmasks the payload
in place, in the read buffer, so it also gives the buffer back.

`Frame` is a client frame as the protocol writes it. `parsePack_frame` says
that a complete frame is read back to its parts with only its own payload
bytes changed, and `parsePack_part` that a proper part of a frame is left
alone, byte for byte: this is why a payload is unmasked once however often
the parser is entered.
-/

/-- `enum WebSockOpCode`, with the values it does not name. -/
inductive WebSockOpCode
  | continuation
  | textFrame
  | binaryFrame
  | close
  | ping
  | pong
  | other (code : UInt8)
  deriving DecidableEq, Repr

namespace WebSockOpCode

/-- The conversion of `pHead[0] & 0xF` to the enumeration. -/
def ofByte (b : UInt8) : WebSockOpCode :=
  if b = 0x00 then continuation
  else if b = 0x01 then textFrame
  else if b = 0x02 then binaryFrame
  else if b = 0x08 then close
  else if b = 0x09 then ping
  else if b = 0x0A then pong
  else other b

/-- The value of an opcode. -/
def toByte : WebSockOpCode → UInt8
  | continuation => 0x00
  | textFrame => 0x01
  | binaryFrame => 0x02
  | close => 0x08
  | ping => 0x09
  | pong => 0x0A
  | other code => code

/-- The opcode is one a frame head can carry. -/
def Valid (op : WebSockOpCode) : Prop := op.toByte < 16 ∧ ofByte op.toByte = op

instance (op : WebSockOpCode) : Decidable op.Valid :=
  inferInstanceAs (Decidable (_ ∧ _))

theorem valid_textFrame : textFrame.Valid := by decide

theorem valid_continuation : continuation.Valid := by decide

end WebSockOpCode

namespace WebSockParser

open ByteOrder EventBuffer

/-- `struct WebSockFram`. -/
structure WebSockFram where
  cFin : UInt8
  cRsv1 : UInt8
  cRsv2 : UInt8
  cRsv3 : UInt8
  emOpCode : WebSockOpCode
  cMask : UInt8
  ucPayloadLen : UInt8
  uiDataLens : ℕ
  acMaskKey : List UInt8
  deriving DecidableEq, Repr

/-- How `parseHead` ends: without enough bytes, with `m_bClose` set, or with
`m_iHeadLens` and the head. -/
inductive HeadResult
  | wait
  | close
  | head (headLens : ℕ) (fram : WebSockFram)
  deriving DecidableEq, Repr

/-- How `parsePack` ends: without a whole frame, with `m_bClose` set, or with
the head, `getParsedLens`, `getMsg` and the buffer in which the payload is
unmasked. -/
inductive PackResult
  | wait
  | close
  | pack (fram : WebSockFram) (parsedLens : ℕ) (msg : List UInt8) (buf : List UInt8)
  deriving DecidableEq, Repr

/-- `CWebSockParser::parseHead` on a little-endian host. -/
def parseHead (w : Width) (buf : List UInt8) : HeadResult :=
  match readBuffer buf 6 with
  | none => .wait
  | some pHead =>
    let b₀ := pHead.getD 0 0
    let b₁ := pHead.getD 1 0
    let fram : WebSockFram :=
      { cFin := (b₀ &&& 0x80) >>> 7
        cRsv1 := (b₀ &&& 0x40) >>> 6
        cRsv2 := (b₀ &&& 0x20) >>> 5
        cRsv3 := (b₀ &&& 0x10) >>> 4
        emOpCode := .ofByte (b₀ &&& 0xF)
        cMask := (b₁ &&& 0x80) >>> 7
        ucPayloadLen := b₁ &&& 0x7F
        uiDataLens := 0
        acMaskKey := [] }
    if fram.cMask ≠ 1 ∨ fram.cRsv1 ≠ 0 ∨ fram.cRsv2 ≠ 0 ∨ fram.cRsv3 ≠ 0 then .close
    else if fram.ucPayloadLen ≤ 125 then
      .head 6 { fram with
        acMaskKey := (pHead.drop 2).take 4
        uiDataLens := fram.ucPayloadLen.toNat }
    else if fram.ucPayloadLen = 126 then
      if buf.length < 8 then .wait
      else
        match readBuffer buf 8 with
        | none => .wait
        | some pHead =>
          .head 8 { fram with
            acMaskKey := (pHead.drop 4).take 4
            uiDataLens := ntoh .little 2 (load .little ((pHead.drop 2).take 2)) }
    else if fram.ucPayloadLen = 127 then
      if buf.length < 14 then .wait
      else
        match readBuffer buf 14 with
        | none => .wait
        | some pHead =>
          .head 14 { fram with
            acMaskKey := (pHead.drop 10).take 4
            uiDataLens := ntohl64 .little (load .little ((pHead.drop 2).take 8)) % w.modulus }
    else .close

/-- The loop that xors a payload with its mask key. -/
def unmask (key payload : List UInt8) : List UInt8 :=
  payload.mapIdx fun i b => b ^^^ key.getD (i % 4) 0

/-- `CWebSockParser::parsePack`. `size_t` sums wrap. -/
def parsePack (w : Width) (buf : List UInt8) : PackResult :=
  if buf.length < 6 then .wait
  else
    match parseHead w buf with
    | .wait => .wait
    | .close => .close
    | .head headLens fram =>
      let needReadLens := (headLens + fram.uiDataLens) % w.modulus
      if buf.length < needReadLens then .wait
      else if fram.uiDataLens > 0 then
        match readBuffer buf needReadLens with
        | none => .wait
        | some _ =>
          let msg := unmask fram.acMaskKey ((buf.drop headLens).take fram.uiDataLens)
          .pack fram needReadLens msg
            (buf.take headLens ++ msg ++ buf.drop (headLens + fram.uiDataLens))
      else .pack fram needReadLens [] buf

/-- `CWebSockParser::createHead`: the `iOutLens` bytes it returns. -/
def createHead (bFin : Bool) (emCode : WebSockOpCode) (iDataLens : ℕ) : List UInt8 :=
  let b₀ := emCode.toByte ||| 0x80
  let b₀ := if bFin then b₀ else b₀ &&& 0x7f
  if iDataLens ≤ 125 then [b₀, UInt8.ofNat iDataLens]
  else if iDataLens ≤ 0xFFFF then b₀ :: 126 :: store .little 2 (ntoh .little 2 iDataLens)
  else b₀ :: 127 :: store .little 8 (ntohl64 .little iDataLens)

/-! ## Client frames -/

/-- A frame a client sends: its payload is the message, before masking. -/
structure Frame where
  fin : Bool
  opCode : WebSockOpCode
  valid : opCode.Valid
  maskKey : List UInt8
  maskKey_length : maskKey.length = 4
  payload : List UInt8

namespace Frame

/-- The first byte of a frame. -/
def flags (f : Frame) : UInt8 := (if f.fin then 0x80 else 0) ||| f.opCode.toByte

/-- The length of a payload in minimal form, with the mask bit. -/
def lenBytes (n : ℕ) : List UInt8 :=
  if n ≤ 125 then [0x80 ||| UInt8.ofNat n]
  else if n ≤ 0xFFFF then 0xFE :: beBytes 2 n
  else 0xFF :: beBytes 8 n

/-- The head of a frame: flags and opcode, length, mask key. -/
def head (f : Frame) : List UInt8 :=
  f.flags :: (lenBytes f.payload.length ++ f.maskKey)

/-- The bytes of a frame on the wire. Masking is its own inverse. -/
def bytes (f : Frame) : List UInt8 := f.head ++ unmask f.maskKey f.payload

end Frame

/-- Client frames as a frame code. -/
def code : FrameCode Frame UInt8 where
  enc := Frame.bytes
  enc_ne_nil _ := List.cons_ne_nil _ _

@[simp] theorem length_unmask (key payload : List UInt8) :
    (unmask key payload).length = payload.length := List.length_mapIdx

/-- Masking twice with one key changes nothing. -/
theorem unmask_unmask (key payload : List UInt8) :
    unmask key (unmask key payload) = payload := by
  refine List.ext_getElem (by simp) (fun i h₁ h₂ => ?_)
  simp only [unmask, List.getElem_mapIdx]
  rw [UInt8.xor_assoc, UInt8.xor_self, UInt8.xor_zero]

/-- A head that is given was there in full. -/
theorem parseHead_headLens (w : Width) {buf : List UInt8} {headLens : ℕ}
    {fram : WebSockFram} (h : parseHead w buf = .head headLens fram) :
    6 ≤ headLens ∧ headLens ≤ 14 ∧ headLens ≤ buf.length := by
  unfold parseHead at h
  split at h
  · cases h
  · rename_i pHead hread
    have hlen := (readBuffer_eq_some hread).2.1
    dsimp only at h
    split_ifs at h
    · cases h
      omega
    · split at h <;> cases h
      omega
    · split at h <;> cases h
      omega

/-- A frame that is given has bytes to drop, and unmasking it in place adds
none. -/
theorem parsePack_parsedLens (w : Width) {buf : List UInt8} {fram : WebSockFram}
    {parsedLens : ℕ} {msg buf' : List UInt8}
    (h : parsePack w buf = .pack fram parsedLens msg buf') :
    0 < parsedLens ∧ 0 < buf.length ∧ buf'.length ≤ buf.length := by
  unfold parsePack at h
  split_ifs at h with h₆
  cases hhead : parseHead w buf with
  | wait =>
    rw [hhead] at h
    cases h
  | close =>
    rw [hhead] at h
    cases h
  | head headLens fram =>
    obtain ⟨hlo, hhi, hle⟩ := parseHead_headLens w hhead
    have hm := w.two_pow_le_modulus
    rw [hhead] at h
    dsimp only at h
    split_ifs at h with hneed hdata
    · split at h
      · cases h
      · rename_i hread
        cases h
        refine ⟨Nat.pos_of_ne_zero (readBuffer_eq_some hread).1, by omega, ?_⟩
        simp only [List.length_append, List.length_take, List.length_drop, length_unmask]
        omega
    · cases h
      rw [show fram.uiDataLens = 0 by omega, Nat.add_zero,
        Nat.mod_eq_of_lt (show headLens < w.modulus by omega)]
      exact ⟨by omega, by omega, le_rfl⟩

/-! ## Reading a head -/

/-- The first byte of a frame, taken apart. -/
theorem flags_bits : ∀ n < 16, ∀ fin : Bool,
    (((if fin then 0x80 else 0) ||| UInt8.ofNat n) &&& 0x80) >>> 7 = (if fin then 1 else 0)
      ∧ (((if fin then 0x80 else 0) ||| UInt8.ofNat n) &&& 0x40) >>> 6 = 0
      ∧ (((if fin then 0x80 else 0) ||| UInt8.ofNat n) &&& 0x20) >>> 5 = 0
      ∧ (((if fin then 0x80 else 0) ||| UInt8.ofNat n) &&& 0x10) >>> 4 = 0
      ∧ ((if fin then 0x80 else 0) ||| UInt8.ofNat n) &&& 0xF = UInt8.ofNat n := by
  decide

/-- The second byte of a frame with a short payload, taken apart. -/
theorem lens_bits : ∀ n < 126,
    ((0x80 ||| UInt8.ofNat n) &&& 0x80) >>> 7 = (1 : UInt8)
      ∧ ((0x80 ||| UInt8.ofNat n) &&& 0x7F) = UInt8.ofNat n := by
  decide

/-- The head fields that the first two bytes fix. -/
def baseFram (b₀ b₁ : UInt8) (key : List UInt8) (n : ℕ) : WebSockFram :=
  { cFin := (b₀ &&& 0x80) >>> 7
    cRsv1 := (b₀ &&& 0x40) >>> 6
    cRsv2 := (b₀ &&& 0x20) >>> 5
    cRsv3 := (b₀ &&& 0x10) >>> 4
    emOpCode := .ofByte (b₀ &&& 0xF)
    cMask := (b₁ &&& 0x80) >>> 7
    ucPayloadLen := b₁ &&& 0x7F
    uiDataLens := n
    acMaskKey := key }

/-- **The three shapes of a head**, by the length bits of the second byte. -/
theorem parseHead_cons (w : Width) (b₀ b₁ : UInt8) (t : List UInt8) (ht : 4 ≤ t.length)
    (hmask : (b₁ &&& 0x80) >>> 7 = 1) (hr₁ : (b₀ &&& 0x40) >>> 6 = 0)
    (hr₂ : (b₀ &&& 0x20) >>> 5 = 0) (hr₃ : (b₀ &&& 0x10) >>> 4 = 0) :
    parseHead w (b₀ :: b₁ :: t)
      = if b₁ &&& 0x7F ≤ 125 then
          .head 6 (baseFram b₀ b₁ (t.take 4) (b₁ &&& 0x7F).toNat)
        else if b₁ &&& 0x7F = 126 then
          if t.length < 6 then .wait
          else .head 8 (baseFram b₀ b₁ ((t.drop 2).take 4) (ofBE (t.take 2)))
        else if b₁ &&& 0x7F = 127 then
          if t.length < 12 then .wait
          else .head 14 (baseFram b₀ b₁ ((t.drop 8).take 4) (ofBE (t.take 8) % w.modulus))
        else .close := by
  unfold parseHead
  rw [readBuffer_of_le (by omega) (by simp; omega)]
  dsimp only [List.take_succ_cons, List.getD_cons_zero, List.getD_cons_succ]
  rw [if_neg (by simp [hmask, hr₁, hr₂, hr₃])]
  refine if_congr Iff.rfl ?_ (if_congr Iff.rfl ?_ (if_congr Iff.rfl ?_ rfl))
  · simp [baseFram]
  · by_cases h6 : t.length < 6
    · rw [if_pos (by simp; omega), if_pos h6]
    · rw [if_neg (by simp; omega), if_neg h6, readBuffer_of_le (by omega) (by simp; omega)]
      have hval := ntoh_load .little (t.take 2)
      rw [List.length_take, min_eq_left (by omega)] at hval
      show HeadResult.head 8 (baseFram b₀ b₁ (((t.take 6).drop 2).take 4)
        (ntoh .little 2 (load .little ((t.take 6).take 2)))) = _
      rw [List.take_take, List.drop_take, List.take_take]
      exact congrArg (fun n => HeadResult.head 8 (baseFram b₀ b₁ ((t.drop 2).take 4) n)) hval
  · by_cases h12 : t.length < 12
    · rw [if_pos (by simp; omega), if_pos h12]
    · rw [if_neg (by simp; omega), if_neg h12, readBuffer_of_le (by omega) (by simp; omega)]
      have hval : ntohl64 .little (load .little (t.take 8)) = ofBE (t.take 8) :=
        ntohl64_load .little (by rw [List.length_take]; omega)
      show HeadResult.head 14 (baseFram b₀ b₁ (((t.take 12).drop 8).take 4)
        (ntohl64 .little (load .little ((t.take 12).take 8)) % w.modulus)) = _
      rw [List.take_take, List.drop_take, List.take_take]
      exact congrArg (fun n => HeadResult.head 14
        (baseFram b₀ b₁ ((t.drop 8).take 4) (n % w.modulus))) hval

namespace Frame

variable (f : Frame)

/-- The second byte of a frame. -/
def lenFlag (n : ℕ) : UInt8 :=
  if n ≤ 125 then 0x80 ||| UInt8.ofNat n else if n ≤ 0xFFFF then 0xFE else 0xFF

/-- The head the parser makes of a frame. -/
def fram : WebSockFram :=
  baseFram f.flags (lenFlag f.payload.length) f.maskKey f.payload.length

/-- The flags of a frame, taken apart. -/
theorem flags_spec : (f.flags &&& 0x80) >>> 7 = (if f.fin then 1 else 0)
    ∧ (f.flags &&& 0x40) >>> 6 = 0 ∧ (f.flags &&& 0x20) >>> 5 = 0
    ∧ (f.flags &&& 0x10) >>> 4 = 0 ∧ WebSockOpCode.ofByte (f.flags &&& 0xF) = f.opCode := by
  have hb := flags_bits f.opCode.toByte.toNat (UInt8.lt_iff_toNat_lt.mp f.valid.1) f.fin
  rw [UInt8.ofNat_toNat] at hb
  obtain ⟨h₁, h₂, h₃, h₄, h₅⟩ := hb
  refine ⟨h₁, h₂, h₃, h₄, ?_⟩
  rw [flags, h₅, f.valid.2]

@[simp] theorem fram_cFin : f.fram.cFin = (if f.fin then 1 else 0) := f.flags_spec.1

@[simp] theorem fram_emOpCode : f.fram.emOpCode = f.opCode := f.flags_spec.2.2.2.2

@[simp] theorem fram_uiDataLens : f.fram.uiDataLens = f.payload.length := rfl

@[simp] theorem fram_acMaskKey : f.fram.acMaskKey = f.maskKey := rfl

theorem length_head : f.head.length
    = if f.payload.length ≤ 125 then 6 else if f.payload.length ≤ 0xFFFF then 8 else 14 := by
  unfold head lenBytes
  split_ifs <;> simp [f.maskKey_length]

theorem six_le_length_head : 6 ≤ f.head.length := by
  rw [length_head]
  split_ifs <;> omega

theorem length_bytes : f.bytes.length = f.head.length + f.payload.length := by
  rw [bytes, List.length_append, length_unmask]

/-- **`parseHead` reads the head of a frame back**, whatever follows it. -/
theorem parseHead_head (w : Width) (tail : List UInt8) (h : f.payload.length < w.modulus) :
    parseHead w (f.head ++ tail) = .head f.head.length f.fram := by
  obtain ⟨-, hr₁, hr₂, hr₃, -⟩ := f.flags_spec
  have hkey := f.maskKey_length
  have hm := w.modulus_le
  rw [length_head]
  unfold head lenBytes fram lenFlag
  by_cases h₁ : f.payload.length ≤ 125
  · obtain ⟨hmask, hl⟩ := lens_bits f.payload.length (by omega)
    have hnat : (UInt8.ofNat f.payload.length).toNat = f.payload.length := by
      rw [UInt8.toNat_ofNat']
      omega
    simp only [if_pos h₁]
    rw [List.singleton_append, List.cons_append, List.cons_append,
      parseHead_cons w _ _ _ (by simp [hkey]) hmask hr₁ hr₂ hr₃, hl,
      if_pos (UInt8.le_iff_toNat_le.mpr (by rw [hnat]; exact h₁)), hnat,
      List.take_left' hkey]
  · simp only [if_neg h₁]
    by_cases h₂ : f.payload.length ≤ 0xFFFF
    · simp only [if_pos h₂]
      rw [List.cons_append, List.cons_append, List.cons_append,
        parseHead_cons w _ _ _ (by simp [hkey]; omega) (by decide) hr₁ hr₂ hr₃, if_neg (by decide),
        if_pos (by decide), if_neg (by simp [hkey]; omega), List.append_assoc,
        List.take_left' (length_beBytes 2 _), List.drop_left' (length_beBytes 2 _),
        List.take_left' hkey, ofBE_beBytes, Nat.mod_eq_of_lt (by omega)]
    · simp only [if_neg h₂]
      rw [List.cons_append, List.cons_append, List.cons_append,
        parseHead_cons w _ _ _ (by simp [hkey]; omega) (by decide) hr₁ hr₂ hr₃, if_neg (by decide),
        if_neg (by decide), if_pos (by decide), if_neg (by simp [hkey]; omega), List.append_assoc,
        List.take_left' (length_beBytes 8 _), List.drop_left' (length_beBytes 8 _),
        List.take_left' hkey, ofBE_beBytes, Nat.mod_eq_of_lt (show _ < 256 ^ 8 by omega),
        Nat.mod_eq_of_lt h]

/-- **`parseHead` waits for a head it has not got all of**, and refuses nothing. -/
theorem parseHead_part (w : Width) {p : List UInt8} (hp : p <+: f.head)
    (hsix : 6 ≤ p.length) (hshort : p.length < f.head.length) :
    parseHead w p = .wait := by
  obtain ⟨-, hr₁, hr₂, hr₃, -⟩ := f.flags_spec
  obtain ⟨b₀, b₁, t, rfl⟩ : ∃ b₀ b₁ t, p = b₀ :: b₁ :: t := by
    match p, hsix with
    | b₀ :: b₁ :: t, _ => exact ⟨b₀, b₁, t, rfl⟩
  rw [length_head] at hshort
  rw [List.length_cons, List.length_cons] at hsix hshort
  unfold head lenBytes at hp
  obtain ⟨rfl, htail⟩ := List.cons_prefix_cons.mp hp
  split_ifs at htail hshort with h₁ h₂
  · omega
  · obtain ⟨rfl, -⟩ := List.cons_prefix_cons.mp htail
    rw [parseHead_cons w _ _ t (by omega) (by decide) hr₁ hr₂ hr₃, if_neg (by decide),
      if_pos (by decide), if_pos (by omega)]
  · obtain ⟨rfl, -⟩ := List.cons_prefix_cons.mp htail
    rw [parseHead_cons w _ _ t (by omega) (by decide) hr₁ hr₂ hr₃, if_neg (by decide),
      if_neg (by decide), if_pos (by decide), if_pos (by omega)]

/-! ## Reading a frame -/

/-- Once the head is there, only the number of bytes decides. -/
theorem parsePack_head (w : Width) (tail : List UInt8) (h : f.bytes.length < w.modulus) :
    parsePack w (f.head ++ tail)
      = if (f.head ++ tail).length < f.bytes.length then .wait
        else .pack f.fram f.bytes.length (unmask f.maskKey (tail.take f.payload.length))
          (f.head ++ unmask f.maskKey (tail.take f.payload.length)
            ++ tail.drop f.payload.length) := by
  have hlen := f.length_bytes
  have hsix := f.six_le_length_head
  unfold parsePack
  rw [if_neg (by rw [List.length_append]; omega), f.parseHead_head w tail (by omega)]
  dsimp only
  rw [fram_uiDataLens, fram_acMaskKey, ← hlen, Nat.mod_eq_of_lt h]
  by_cases hshort : (f.head ++ tail).length < f.bytes.length
  · rw [if_pos hshort, if_pos hshort]
  · rw [if_neg hshort, if_neg hshort]
    by_cases hz : f.payload.length > 0
    · have hdrop : (f.head ++ tail).drop f.bytes.length = tail.drop f.payload.length := by
        rw [hlen, ← List.drop_drop, List.drop_left]
      rw [if_pos hz, readBuffer_of_le (by omega) (by omega), List.drop_left,
        List.take_left' rfl, hdrop]
    · have hnil : f.payload.length = 0 := by omega
      rw [if_neg hz, hnil, List.take_zero, List.drop_zero]
      show _ = PackResult.pack f.fram f.bytes.length [] (f.head ++ [] ++ tail)
      rw [List.append_nil]

/-- **A complete frame is read back to its parts**: its payload unmasked in
place, what follows it untouched. -/
theorem parsePack_frame (w : Width) (rest : List UInt8) (h : f.bytes.length < w.modulus) :
    parsePack w (f.bytes ++ rest)
      = .pack f.fram f.bytes.length f.payload (f.head ++ f.payload ++ rest) := by
  rw [bytes, List.append_assoc, parsePack_head f w _ h, ← List.append_assoc, ← bytes,
    if_neg (by rw [List.length_append]; omega),
    List.take_left' (length_unmask f.maskKey f.payload),
    List.drop_left' (length_unmask f.maskKey f.payload), unmask_unmask]

/-- **A proper part of a frame is left alone.** -/
theorem parsePack_part (w : Width) {p : List UInt8} (h : f.bytes.length < w.modulus)
    (hp : p <+: f.bytes) (hne : p ≠ f.bytes) : parsePack w p = .wait := by
  have hshort : p.length < f.bytes.length :=
    lt_of_le_of_ne hp.length_le (fun he => hne (hp.eq_of_length he))
  have hhead : f.head <+: f.bytes := List.prefix_append _ _
  by_cases hin : p.length < f.head.length
  · have hp' : p <+: f.head := List.prefix_of_prefix_length_le hp hhead hin.le
    unfold parsePack
    by_cases hsix : p.length < 6
    · rw [if_pos hsix]
    · rw [if_neg hsix, f.parseHead_part w hp' (by omega) hin]
  · obtain ⟨tail, rfl⟩ := List.prefix_of_prefix_length_le hhead hp (by omega)
    rw [f.parsePack_head w tail h, if_pos hshort]

end Frame

end WebSockParser
