import QService.WebSockParser

/-!
# Frame heads as the protocol reads them

`readHead` is the rule of the protocol for the head of a frame, written down
without regard to the code: the reserved bits are zero, a length is in the
shortest of its three forms, a length of eight bytes does not use its highest
bit, and a mask key follows if the frame is masked.

The two directions of a connection meet in it. What `createHead` writes is
read back by it as an unmasked head (`readHead_createHead`), and the frames
that `parsePack` takes apart are those whose head it reads as a masked one
(`readHead_frame`).
-/

namespace ByteOrder

/-- **`ntohl64` and a store write eight bytes in network order.** -/
theorem store_ntohl64 {n : ℕ} (h : n < 256 ^ 8) :
    store .little 8 (ntohl64 .little n) = beBytes 8 n := by
  have hload : ntohl64 .little (load .little (leBytes 8 n)) = ofBE (leBytes 8 n) :=
    ntohl64_load .little (length_leBytes 8 n)
  have hback : load .little (leBytes 8 n) = n := by
    show ofLE (leBytes 8 n) = n
    rw [ofLE_leBytes, Nat.mod_eq_of_lt h]
  have hbytes := leBytes_ofLE (beBytes 8 n)
  rw [length_beBytes] at hbytes
  rw [← hback, hload, hback]
  exact hbytes

end ByteOrder

namespace WebSockParser

open ByteOrder

/-! ## The rule -/

/-- What a frame head says. The mask key is there if the frame is masked. -/
structure FrameHead where
  fin : Bool
  opCode : UInt8
  maskKey : Option (List UInt8)
  lens : ℕ
  deriving DecidableEq, Repr

/-- The length: seven bits, or two or eight more bytes. Only the shortest form
is allowed. -/
def readLens (len7 : UInt8) (rest : List UInt8) : Option (ℕ × List UInt8) :=
  if len7 ≤ 125 then some (len7.toNat, rest)
  else if len7 = 126 then
    if 2 ≤ rest.length ∧ 125 < ofBE (rest.take 2) then some (ofBE (rest.take 2), rest.drop 2)
    else none
  else
    if 8 ≤ rest.length ∧ 0xFFFF < ofBE (rest.take 8) ∧ ofBE (rest.take 8) < 2 ^ 63 then
      some (ofBE (rest.take 8), rest.drop 8)
    else none

/-- The mask key, four bytes. -/
def readMaskKey (masked : Bool) (rest : List UInt8) : Option (Option (List UInt8) × List UInt8) :=
  if masked then
    if 4 ≤ rest.length then some (some (rest.take 4), rest.drop 4) else none
  else some (none, rest)

/-- **The head at the front of some bytes**, and what follows it. -/
def readHead : List UInt8 → Option (FrameHead × List UInt8)
  | b₀ :: b₁ :: rest =>
    if b₀ &&& 0x70 ≠ 0 then none
    else
      (readLens (b₁ &&& 0x7F) rest).bind fun (lens, rest) =>
        (readMaskKey (b₁ &&& 0x80 ≠ 0) rest).map fun (maskKey, rest) =>
          ({ fin := b₀ &&& 0x80 ≠ 0, opCode := b₀ &&& 0xF, maskKey := maskKey, lens := lens }, rest)
  | _ => none

/-! ## The shortest form -/

/-- The seven bits of a length. -/
def len7 (n : ℕ) : UInt8 := if n ≤ 125 then UInt8.ofNat n else if n ≤ 0xFFFF then 126 else 127

/-- The further bytes of a length. -/
def lenExt (n : ℕ) : List UInt8 :=
  if n ≤ 125 then [] else if n ≤ 0xFFFF then beBytes 2 n else beBytes 8 n

/-- **A length in its shortest form is read back.** -/
theorem readLens_append {n : ℕ} (h : n < 2 ^ 63) (rest : List UInt8) :
    readLens (len7 n) (lenExt n ++ rest) = some (n, rest) := by
  unfold readLens len7 lenExt
  by_cases h₁ : n ≤ 125
  · have hnat : (UInt8.ofNat n).toNat = n := by
      rw [UInt8.toNat_ofNat']
      omega
    simp only [if_pos h₁]
    rw [if_pos (UInt8.le_iff_toNat_le.mpr (by rw [hnat]; exact h₁)), hnat]
    rfl
  · simp only [if_neg h₁]
    by_cases h₂ : n ≤ 0xFFFF
    · have hval : ofBE (beBytes 2 n) = n := by
        rw [ofBE_beBytes, Nat.mod_eq_of_lt (by omega)]
      simp only [if_pos h₂]
      rw [if_neg (by decide), if_pos trivial, List.take_left' (length_beBytes 2 n), hval,
        List.drop_left' (length_beBytes 2 n), if_pos ⟨by simp, by omega⟩]
    · have hval : ofBE (beBytes 8 n) = n := by
        rw [ofBE_beBytes, Nat.mod_eq_of_lt (by omega)]
      simp only [if_neg h₂]
      rw [if_neg (by decide), if_neg (by decide), List.take_left' (length_beBytes 8 n), hval,
        List.drop_left' (length_beBytes 8 n), if_pos ⟨by simp, by omega, h⟩]

/-- The second byte of a head, taken apart, without the mask bit and with it. -/
theorem len7_bits (n : ℕ) :
    len7 n &&& 0x7F = len7 n ∧ len7 n &&& 0x80 = 0
      ∧ (0x80 ||| len7 n) &&& 0x7F = len7 n ∧ (0x80 ||| len7 n) &&& 0x80 = 0x80 := by
  have hall : ∀ k < 128, UInt8.ofNat k &&& 0x7F = UInt8.ofNat k ∧ UInt8.ofNat k &&& 0x80 = 0
      ∧ (0x80 ||| UInt8.ofNat k) &&& 0x7F = UInt8.ofNat k
      ∧ (0x80 ||| UInt8.ofNat k) &&& 0x80 = 0x80 := by
    decide
  unfold len7
  split_ifs with h₁
  · exact hall n (by omega)
  · exact hall 126 (by omega)
  · exact hall 127 (by omega)

/-- The first byte of a head, taken apart. -/
theorem head_bits {code : UInt8} (h : code < 16) (fin : Bool) :
    ((if fin then 0x80 else 0) ||| code) &&& 0x70 = 0
      ∧ decide (((if fin then 0x80 else 0) ||| code) &&& 0x80 ≠ 0) = fin
      ∧ ((if fin then 0x80 else 0) ||| code) &&& 0xF = code := by
  have hall : ∀ n < 16, ∀ fin : Bool,
      ((if fin then 0x80 else 0) ||| UInt8.ofNat n) &&& 0x70 = 0
        ∧ decide (((if fin then 0x80 else 0) ||| UInt8.ofNat n) &&& 0x80 ≠ 0) = fin
        ∧ ((if fin then 0x80 else 0) ||| UInt8.ofNat n) &&& 0xF = UInt8.ofNat n := by
    decide
  have := hall code.toNat (UInt8.lt_iff_toNat_lt.mp h) fin
  rwa [UInt8.ofNat_toNat] at this

/-- **A head in the shortest form is read back**: flags and opcode, the length
with or without the mask bit, and the mask key. -/
theorem readHead_cons {code : UInt8} (h : code < 16) (fin : Bool) {n : ℕ} (hn : n < 2 ^ 63)
    (rest : List UInt8) :
    readHead (((if fin then 0x80 else 0) ||| code) :: len7 n :: (lenExt n ++ rest))
        = some (⟨fin, code, none, n⟩, rest)
      ∧ ∀ {key : List UInt8}, key.length = 4 →
        readHead (((if fin then 0x80 else 0) ||| code) :: (0x80 ||| len7 n)
            :: (lenExt n ++ (key ++ rest)))
          = some (⟨fin, code, some key, n⟩, rest) := by
  obtain ⟨hrsv, hfin, hcode⟩ := head_bits h fin
  obtain ⟨hl, hm, hl', hm'⟩ := len7_bits n
  refine ⟨?_, fun {key} hkey => ?_⟩
  · simp only [readHead]
    rw [if_neg (not_not.mpr hrsv), hl, readLens_append hn, hm, hfin, hcode]
    rfl
  · simp only [readHead]
    rw [if_neg (not_not.mpr hrsv), hl', readLens_append hn, hm', hfin, hcode]
    simp only [Option.bind_some, readMaskKey]
    rw [if_pos (by decide), if_pos (by rw [List.length_append]; omega), List.take_left' hkey,
      List.drop_left' hkey]
    rfl

/-! ## The two directions -/

/-- The sixteen opcodes are those a frame head can carry. -/
theorem valid_ofByte {code : UInt8} (h : code < 16) : (WebSockOpCode.ofByte code).Valid
    ∧ (WebSockOpCode.ofByte code).toByte = code := by
  have hall : ∀ n < 16, (WebSockOpCode.ofByte (UInt8.ofNat n)).Valid
      ∧ (WebSockOpCode.ofByte (UInt8.ofNat n)).toByte = UInt8.ofNat n := by
    decide
  have := hall code.toNat (UInt8.lt_iff_toNat_lt.mp h)
  rwa [UInt8.ofNat_toNat] at this

/-- What `createHead` writes. -/
theorem createHead_eq (bFin : Bool) {emCode : WebSockOpCode} (h : emCode.toByte < 16) {n : ℕ}
    (hn : n < 2 ^ 63) :
    createHead bFin emCode n
      = ((if bFin then 0x80 else 0) ||| emCode.toByte) :: len7 n :: lenExt n := by
  have hflags : (if bFin then emCode.toByte ||| 0x80 else (emCode.toByte ||| 0x80) &&& 0x7f)
      = (if bFin then 0x80 else 0) ||| emCode.toByte := by
    have hall : ∀ k < 16, ∀ fin : Bool,
        (if fin then UInt8.ofNat k ||| 0x80 else (UInt8.ofNat k ||| 0x80) &&& 0x7f)
          = (if fin then 0x80 else 0) ||| UInt8.ofNat k := by
      decide
    have := hall emCode.toByte.toNat (UInt8.lt_iff_toNat_lt.mp h) bFin
    rwa [UInt8.ofNat_toNat] at this
  unfold createHead len7 lenExt
  simp only [hflags, store_ntoh, store_ntohl64 (show n < 256 ^ 8 by omega)]
  by_cases h₁ : n ≤ 125
  · simp only [if_pos h₁]
  · by_cases h₂ : n ≤ 0xFFFF
    · simp only [if_neg h₁, if_pos h₂]
    · simp only [if_neg h₁, if_neg h₂]

/-- **The head the server writes is an unmasked head in the shortest form**,
with what it was called with. -/
theorem readHead_createHead (bFin : Bool) {emCode : WebSockOpCode} (h : emCode.toByte < 16) {n : ℕ}
    (hn : n < 2 ^ 63) (rest : List UInt8) :
    readHead (createHead bFin emCode n ++ rest) = some (⟨bFin, emCode.toByte, none, n⟩, rest) := by
  rw [createHead_eq bFin h hn]
  exact (readHead_cons h bFin hn rest).1

/-- **A client frame starts with a masked head in the shortest form.** -/
theorem readHead_frame (f : Frame) (h : f.payload.length < 2 ^ 63) (rest : List UInt8) :
    readHead (f.head ++ rest)
      = some (⟨f.fin, f.opCode.toByte, some f.maskKey, f.payload.length⟩, rest) := by
  have hlens : Frame.lenBytes f.payload.length
      = (0x80 ||| len7 f.payload.length) :: lenExt f.payload.length := by
    unfold Frame.lenBytes len7 lenExt
    split_ifs <;> rfl
  rw [Frame.head, hlens, List.cons_append, List.cons_append, List.cons_append, List.append_assoc]
  exact (readHead_cons f.valid.1 f.fin h rest).2 f.maskKey_length

/-- The frame of a FIN bit, one of the sixteen opcodes, a mask key and a
payload. -/
def Frame.ofCode (fin : Bool) {code : UInt8} (h : code < 16) {key : List UInt8}
    (hkey : key.length = 4) (payload : List UInt8) : Frame :=
  ⟨fin, .ofByte code, (valid_ofByte h).1, key, hkey, payload⟩

/-- **Both directions follow the protocol**: a frame is read back to its
parts, with what follows it untouched, and the head that is written is read
back by the protocol's rule. -/
theorem frames_follow_protocol (fin : Bool) {code : UInt8} (h : code < 16) :
    (∀ {key : List UInt8} (hkey : key.length = 4) (payload rest : List UInt8),
      payload.length < 2 ^ 63 - 14 →
        ∃ fram, parsePack .bits64 ((Frame.ofCode fin h hkey payload).bytes ++ rest)
            = .pack fram (Frame.ofCode fin h hkey payload).bytes.length payload
              ((Frame.ofCode fin h hkey payload).head ++ payload ++ rest)
          ∧ fram.cFin = (if fin then 1 else 0) ∧ fram.emOpCode = .ofByte code)
    ∧ ∀ n < 2 ^ 63, ∀ rest, readHead (createHead fin (.ofByte code) n ++ rest)
        = some (⟨fin, code, none, n⟩, rest) := by
  constructor
  · intro key hkey payload rest hpayload
    have hlen : (Frame.ofCode fin h hkey payload).bytes.length < Width.bits64.modulus := by
      have hhead : (Frame.ofCode fin h hkey payload).head.length ≤ 14 := by
        rw [Frame.length_head]
        split_ifs <;> omega
      rw [Frame.length_bytes]
      show _ + payload.length < 2 ^ 64
      omega
    exact ⟨_, Frame.parsePack_frame _ .bits64 rest hlen, Frame.fram_cFin _, Frame.fram_emOpCode _⟩
  · intro n hn rest
    obtain ⟨hvalid, hcode⟩ := valid_ofByte h
    rw [readHead_createHead fin hvalid.1 hn rest, hcode]

/-- A close frame of two bytes, and the head of one of 70000 bytes. -/
theorem close_frame_follows_protocol :
    (∃ fram, parsePack .bits64 ([0x88, 0x82, 1, 2, 3, 4, 2, 234] ++ [9])
        = .pack fram 8 [3, 232] ([0x88, 0x82, 1, 2, 3, 4] ++ [3, 232] ++ [9])
      ∧ fram.cFin = 1 ∧ fram.emOpCode = .close)
    ∧ readHead (createHead true .close 70000 ++ [9]) = some (⟨true, 8, none, 70000⟩, [9]) := by
  have hspec := frames_follow_protocol true (show (8 : UInt8) < 16 by decide)
  have hbytes (hkey : ([1, 2, 3, 4] : List UInt8).length = 4) :
      (Frame.ofCode true (show (8 : UInt8) < 16 by decide) hkey [3, 232]).bytes
        = [0x88, 0x82, 1, 2, 3, 4, 2, 234] := by
    decide +revert
  have hhead (hkey : ([1, 2, 3, 4] : List UInt8).length = 4) :
      (Frame.ofCode true (show (8 : UInt8) < 16 by decide) hkey [3, 232]).head
        = [0x88, 0x82, 1, 2, 3, 4] := by
    decide +revert
  obtain ⟨fram, hpack, hfin, hopcode⟩ :=
    hspec.1 (show ([1, 2, 3, 4] : List UInt8).length = 4 from rfl) [3, 232] [9] (by decide)
  rw [hbytes, hhead] at hpack
  exact ⟨⟨fram, hpack, hfin, hopcode⟩, hspec.2 70000 (by decide) [9]⟩

end WebSockParser
