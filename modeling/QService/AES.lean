import QService.BufferMgr
import QService.Chunks
import QService.Host

/-!
# `CAESEncode` and `CAESDecode`

A text is encrypted in blocks of 16 bytes. The last block is filled up with the number
of bytes that are missing, and a text of whole blocks gets one more that is filled
only. An object keeps its two blocks and its buffer between calls, so a short piece
is first copied over what an earlier call left, and then filled up.

The decoder gives back all it has decrypted but for as many bytes as the last byte of its
block says. That undoes the encoder whatever both objects have done before
(`decode_of_encode`). It does not look at this number, though: in a text that the encoder
did not make it may be larger than the text, and with no block at all it is that
of an earlier call. `boundedStateless_iff` says for which texts the result is bounded and
a matter of the text and the key only.

The cipher itself is a parameter.
-/

/-- `enum AESKeyType`. -/
inductive AESKeyType
  | keyNone
  | key128
  | key192
  | key256
  deriving DecidableEq, Repr

/-- `KEYLENGTH`. -/
def AESKeyType.keyLength : AESKeyType → ℕ
  | keyNone => 0
  | key128 => 16
  | key192 => 24
  | key256 => 32

namespace AES

open Chunks

/-! ## The code -/

/-- A block of `AES_BlockSize` bytes. -/
structure Block where
  bytes : List UInt8
  length_bytes : bytes.length = 16
  deriving DecidableEq

namespace Block

/-- A block of zeros. -/
def zero : Block := ⟨List.replicate 16 0, rfl⟩

/-- `memcpy` to the start of a block. -/
def memcpy (b : Block) (src : List UInt8) : Block where
  bytes := src.take 16 ++ b.bytes.drop src.length
  length_bytes := by
    have hb := b.length_bytes
    rw [List.length_append, List.length_take, List.length_drop]
    omega

/-- `memset` of a block from a position on. -/
def memset (b : Block) (i : ℕ) (val : UInt8) : Block where
  bytes := b.bytes.take i ++ List.replicate (16 - i) val
  length_bytes := by
    have hb := b.length_bytes
    rw [List.length_append, List.length_take, List.length_replicate]
    omega

/-- The last byte. -/
def last (b : Block) : UInt8 := b.bytes.getD 15 0

end Block

/-- The cipher: round keys, with their number, for both directions, and the encryption and
decryption of a block. -/
structure Rijndael where
  RK : Type
  setupEncrypt : List UInt8 → AESKeyType → RK
  setupDecrypt : List UInt8 → AESKeyType → RK
  encrypt : RK → Block → Block
  decrypt : RK → Block → Block

/-- Decryption undoes encryption with the same key. -/
def Rijndael.Lawful (R : Rijndael) : Prop :=
  ∀ key emKeyType b,
    R.decrypt (R.setupDecrypt key emKeyType) (R.encrypt (R.setupEncrypt key emKeyType) b) = b

/-- A `CAESEncode` or a `CAESDecode`: `m_pRK`, the two blocks and the buffer. -/
structure Object (R : Rijndael) where
  pRK : Option R.RK
  plain : Block
  cipher : Block
  buffer : Buffer

/-- What a call returns: the block behind its pointer, if that is not NULL, and `iOutLes`. -/
structure Result where
  ptr : Option (List UInt8)
  iOutLes : ℕ
  deriving DecidableEq

/-- The bytes that the caller reads there. -/
def Result.bytes (r : Result) : Option (List UInt8) := r.ptr.map (·.take r.iOutLes)

variable {R : Rijndael} (heap : List UInt8 → ℕ → UInt8)

/-- Both constructors. -/
def create : Object R where
  pRK := none
  plain := .zero
  cipher := .zero
  buffer := ⟨(List.range 5120).map (heap []), 0, Nat.zero_le _⟩

/-- `m_pKey`: the text of the key, cut or filled up with zeros. -/
def keyText (pszKey : List UInt8) (emKeyType : AESKeyType) : List UInt8 :=
  (pszKey.take emKeyType.keyLength).rightpad emKeyType.keyLength 0

/-- The common body of both `setKey`, with the set-up of its direction. It returns if it was a
success. -/
def setKey (setup : List UInt8 → AESKeyType → R.RK) (pszKey : List UInt8)
    (emKeyType : AESKeyType) (obj : Object R) : Bool × Object R :=
  if emKeyType = .keyNone then (false, { obj with pRK := none })
  else (true, { obj with pRK := some (setup (keyText pszKey emKeyType) emKeyType) })

/-- `CAESEncode::setKey`. -/
def setEncodeKey (pszKey : List UInt8) (emKeyType : AESKeyType) (obj : Object R) :
    Bool × Object R :=
  setKey R.setupEncrypt pszKey emKeyType obj

/-- `CAESDecode::setKey`. -/
def setDecodeKey (pszKey : List UInt8) (emKeyType : AESKeyType) (obj : Object R) :
    Bool × Object R :=
  setKey R.setupDecrypt pszKey emKeyType obj

/-- A block is encrypted and pushed. -/
def encodeBlock (rk : R.RK) (plain : Block) (obj : Object R) : Object R :=
  let cipher := R.encrypt rk plain
  { obj with
    plain := plain
    cipher := cipher
    buffer := obj.buffer.pushBuff heap (some cipher.bytes) 16 }

/-- A round of the loop of `Encode`, with the bytes it copies. A piece that is too short is
filled up. -/
def encodePiece (rk : R.RK) (obj : Object R) (piece : List UInt8) : Object R :=
  let plain := obj.plain.memcpy piece
  encodeBlock heap rk
    (if piece.length < 16 then plain.memset piece.length (UInt8.ofNat (16 - piece.length))
      else plain) obj

/-- `CAESEncode::Encode`. -/
def encode (pszPlaint : List UInt8) (obj : Object R) : Result × Object R :=
  let obj := { obj with buffer := obj.buffer.reSet }
  match obj.pRK with
  | none => (⟨none, 0⟩, obj)
  | some rk =>
    let obj := (chunks 16 pszPlaint).foldl (encodePiece heap rk) obj
    -- one more block for a text of whole blocks
    let obj := if pszPlaint.length % 16 = 0 then encodeBlock heap rk (obj.plain.memset 0 16) obj
      else obj
    (⟨some obj.buffer.block, obj.buffer.offset⟩, obj)

/-- A round of the loop of `Decode`. -/
def decodePiece (rk : R.RK) (obj : Object R) (piece : List UInt8) : Object R :=
  let cipher := obj.cipher.memcpy piece
  let plain := R.decrypt rk cipher
  { obj with
    plain := plain
    cipher := cipher
    buffer := obj.buffer.pushBuff heap (some plain.bytes) 16 }

/-- `CAESDecode::Decode`. -/
def decode (w : Width) (pszCipher : List UInt8) (obj : Object R) : Result × Object R :=
  let obj := { obj with buffer := obj.buffer.reSet }
  match obj.pRK with
  | none => (⟨none, 0⟩, obj)
  | some rk =>
    if pszCipher.length % 16 ≠ 0 then (⟨none, 0⟩, obj)
    else
      let obj := (chunks 16 pszCipher).foldl (decodePiece heap rk) obj
      (⟨some obj.buffer.block, w.subSize obj.buffer.offset obj.plain.last.toNat⟩, obj)

/-! ## The blocks -/

namespace Block

theorem eq_of_bytes {b c : Block} (h : b.bytes = c.bytes) : b = c := by
  cases b
  cases c
  congr

theorem bytes_memcpy (b : Block) (src : List UInt8) :
    (b.memcpy src).bytes = src.take 16 ++ b.bytes.drop src.length := rfl

theorem bytes_memset (b : Block) (i : ℕ) (val : UInt8) :
    (b.memset i val).bytes = b.bytes.take i ++ List.replicate (16 - i) val := rfl

theorem bytes_memcpy_of_length (b : Block) {src : List UInt8} (h : src.length = 16) :
    (b.memcpy src).bytes = src := by
  have hb := b.length_bytes
  rw [bytes_memcpy, List.take_of_length_le h.le, List.drop_of_length_le (by omega),
    List.append_nil]

/-- A whole block is copied, whatever was there. -/
theorem memcpy_eq (b c : Block) {src : List UInt8} (h : src.length = 16) :
    b.memcpy src = c.memcpy src :=
  eq_of_bytes (by rw [bytes_memcpy_of_length b h, bytes_memcpy_of_length c h])

theorem memcpy_bytes (b c : Block) : b.memcpy c.bytes = c :=
  eq_of_bytes (bytes_memcpy_of_length b c.length_bytes)

end Block

/-- The block that a piece is encrypted as. -/
def padBlock (piece : List UInt8) : Block :=
  (Block.zero.memcpy piece).memset piece.length (UInt8.ofNat (16 - piece.length))

/-- What is copied and then filled up does not depend on what was there. -/
theorem bytes_memset_memcpy (b : Block) {piece : List UInt8} (h : piece.length ≤ 16)
    (val : UInt8) :
    ((b.memcpy piece).memset piece.length val).bytes
      = piece ++ List.replicate (16 - piece.length) val := by
  rw [Block.bytes_memset, Block.bytes_memcpy, List.take_of_length_le h, List.take_left' rfl]

theorem bytes_padBlock {piece : List UInt8} (h : piece.length ≤ 16) :
    (padBlock piece).bytes
      = piece ++ List.replicate (16 - piece.length) (UInt8.ofNat (16 - piece.length)) :=
  bytes_memset_memcpy _ h _

/-- The last byte of a block that is not full is the number of bytes that are missing. -/
theorem last_padBlock {piece : List UInt8} (h : piece.length < 16) :
    (padBlock piece).last.toNat = 16 - piece.length := by
  rw [Block.last, bytes_padBlock h.le, List.getD_eq_getElem?_getD,
    List.getElem?_append_right (by omega), List.getElem?_replicate_of_lt (by omega),
    Option.getD_some, UInt8.toNat_ofNat']
  omega

/-- **Nothing of an earlier call is left in the block.** -/
theorem encodePiece_eq (rk : R.RK) (obj : Object R) {piece : List UInt8} (h : piece.length ≤ 16) :
    encodePiece heap rk obj piece = encodeBlock heap rk (padBlock piece) obj := by
  have hplain : (if piece.length < 16 then
      (obj.plain.memcpy piece).memset piece.length (UInt8.ofNat (16 - piece.length))
        else obj.plain.memcpy piece) = padBlock piece := by
    refine Block.eq_of_bytes ?_
    rw [bytes_padBlock h]
    split_ifs with hlt
    · exact bytes_memset_memcpy _ h _
    · have hlen : piece.length = 16 := by omega
      rw [Block.bytes_memcpy_of_length _ hlen, hlen, Nat.sub_self, List.replicate_zero,
        List.append_nil]
  exact congrArg (encodeBlock heap rk · obj) hplain

/-! ## The loops -/

/-- The pieces that are encrypted: those of the text, and one without bytes behind a text of whole
blocks. -/
def pieces (pszPlaint : List UInt8) : List (List UInt8) :=
  chunks 16 pszPlaint ++ if pszPlaint.length % 16 = 0 then [[]] else []

/-- **All pieces but the last have 16 bytes.** -/
theorem exists_pieces (pszPlaint : List UInt8) :
    ∃ (L : List (List UInt8)) (rest : List UInt8), (∀ c ∈ L, c.length = 16)
      ∧ rest.length = pszPlaint.length % 16 ∧ pszPlaint = L.flatten ++ rest
      ∧ pieces pszPlaint = L ++ [rest] := by
  obtain ⟨L, rest, hL, hrest, hflat, hchunks⟩ :=
    exists_full_chunks (n := 16) (by decide) pszPlaint
  refine ⟨L, rest, hL, hrest, hflat, ?_⟩
  rw [pieces, hchunks, ← hrest, List.append_assoc]
  by_cases h : rest = []
  · rw [if_pos h, if_pos (by rw [h]; rfl), h, List.nil_append]
  · rw [if_neg h, if_neg (by rwa [List.length_eq_zero_iff]), List.append_nil]

theorem length_pieces (pszPlaint : List UInt8) :
    (pieces pszPlaint).length = pszPlaint.length / 16 + 1 := by
  obtain ⟨L, rest, hL, hrest, hflat, hpieces⟩ := exists_pieces pszPlaint
  have hlen : pszPlaint.length = L.length * 16 + rest.length := by
    rw [hflat, List.length_append, length_flatten_of_length hL]
  rw [hpieces, List.length_append, List.length_singleton]
  omega

theorem length_of_mem_pieces {pszPlaint piece : List UInt8} (h : piece ∈ pieces pszPlaint) :
    piece.length ≤ 16 := by
  rw [pieces, List.mem_append] at h
  rcases h with h | h
  · exact (length_of_mem_chunks (by decide) h).1
  · split_ifs at h
    · rw [List.mem_singleton.mp h]
      exact Nat.zero_le 16
    · exact absurd h List.not_mem_nil

/-- What the blocks of a loop leave in the buffer. -/
theorem contents_foldl {L : List (List UInt8)} {f : List UInt8 → Block}
    {step : Object R → List UInt8 → Object R}
    (hstep : ∀ obj, ∀ c ∈ L,
      (step obj c).buffer = obj.buffer.pushBuff heap (some (f c).bytes) 16) (obj : Object R) :
    (L.foldl step obj).buffer.contents
      = obj.buffer.contents ++ L.flatMap fun c => (f c).bytes := by
  induction L generalizing obj with
  | nil => exact (List.append_nil _).symm
  | cons c L ih =>
    have hpush : Buffer.pushed (some (f c).bytes) 16 = (f c).bytes :=
      List.take_of_length_le (f c).length_bytes.le
    rw [List.foldl_cons, ih (fun obj c' hc' => hstep obj c' (List.mem_cons_of_mem c hc')),
      hstep obj c List.mem_cons_self, Buffer.contents_pushBuff, hpush, List.flatMap_cons,
      List.append_assoc]

/-- **What `Encode` returns**: the encrypted blocks of the pieces. -/
theorem encode_eq {obj : Object R} {rk : R.RK} (hrk : obj.pRK = some rk) (pszPlaint : List UInt8) :
    let cipher := (pieces pszPlaint).flatMap fun c => (R.encrypt rk (padBlock c)).bytes
    (encode heap pszPlaint obj).1.bytes = some cipher
      ∧ (encode heap pszPlaint obj).1.iOutLes = cipher.length := by
  intro cipher
  have hfold : ∀ obj : Object R,
      ((pieces pszPlaint).foldl (encodePiece heap rk) obj).buffer.contents
        = obj.buffer.contents ++ cipher :=
    contents_foldl heap fun obj c hc =>
      congrArg Object.buffer (encodePiece_eq heap rk obj (length_of_mem_pieces hc))
  -- the block that is filled only is a round of the loop with nothing to copy
  have hencode : (encode heap pszPlaint obj).1
      = let obj := (pieces pszPlaint).foldl (encodePiece heap rk)
          { obj with buffer := obj.buffer.reSet }
        ⟨some obj.buffer.block, obj.buffer.offset⟩ := by
    rw [encode]
    simp only [hrk]
    by_cases h : pszPlaint.length % 16 = 0
    · rw [pieces, if_pos h, if_pos h, List.foldl_append]
      rfl
    · rw [pieces, if_neg h, if_neg h, List.append_nil]
  have hcontents := hfold { obj with buffer := obj.buffer.reSet }
  rw [Buffer.contents_reSet, List.nil_append] at hcontents
  rw [hencode, ← hcontents]
  exact ⟨rfl, (Buffer.length_contents _).symm⟩

/-- The block that a piece is decrypted to. -/
def plainBlock (rk : R.RK) (piece : List UInt8) : Block := R.decrypt rk (Block.zero.memcpy piece)

theorem decodePiece_eq (rk : R.RK) (obj : Object R) {piece : List UInt8} (h : piece.length = 16) :
    (decodePiece heap rk obj piece).plain = plainBlock rk piece
      ∧ (decodePiece heap rk obj piece).buffer
        = obj.buffer.pushBuff heap (some (plainBlock rk piece).bytes) 16 := by
  rw [plainBlock, Block.memcpy_eq _ obj.cipher h]
  exact ⟨rfl, rfl⟩

/-- The block that the loop of `Decode` leaves is the last one, if there was one. -/
theorem plain_foldl (rk : R.RK) {L : List (List UInt8)} (hL : ∀ c ∈ L, c.length = 16)
    (obj : Object R) :
    (L.foldl (decodePiece heap rk) obj).plain
      = (L.getLast?.map (plainBlock rk)).getD obj.plain := by
  rcases List.eq_nil_or_concat L with rfl | ⟨init, c, rfl⟩
  · rfl
  · rw [List.concat_eq_append] at hL ⊢
    rw [List.foldl_append, List.getLast?_concat]
    exact (decodePiece_eq heap rk _ (hL c List.mem_concat_self)).1

/-- **What `Decode` returns**, of a text of whole blocks: what was decrypted stands behind the
pointer, and the last byte of the last block is subtracted, or that of an earlier call. The block is
left in the object. -/
theorem decode_eq (w : Width) {obj : Object R} {rk : R.RK} (hrk : obj.pRK = some rk)
    {pszCipher : List UInt8} (hlen : 16 ∣ pszCipher.length) :
    ∃ block, (decode heap w pszCipher obj).1
        = ⟨some block, w.subSize pszCipher.length
          (((chunks 16 pszCipher).getLast?.map (plainBlock rk)).getD obj.plain).last.toNat⟩
      ∧ (decode heap w pszCipher obj).2.plain
        = ((chunks 16 pszCipher).getLast?.map (plainBlock rk)).getD obj.plain
      ∧ block.take pszCipher.length
        = (chunks 16 pszCipher).flatMap fun c => (plainBlock rk c).bytes := by
  have hL : ∀ c ∈ chunks 16 pszCipher, c.length = 16 := fun c hc =>
    length_eq_of_mem_chunks (by decide) hlen hc
  obtain ⟨pRK, plain, cipher, buffer⟩ := obj
  obtain rfl : pRK = some rk := hrk
  set obj' := (chunks 16 pszCipher).foldl (decodePiece heap rk)
    ⟨some rk, plain, cipher, buffer.reSet⟩ with hobj'
  have hcontents : obj'.buffer.contents
      = (chunks 16 pszCipher).flatMap fun c => (plainBlock rk c).bytes := by
    rw [hobj', contents_foldl heap fun obj c hc => (decodePiece_eq heap rk obj (hL c hc)).2]
    rfl
  have hoffset : obj'.buffer.offset = pszCipher.length := by
    have hsum : ((chunks 16 pszCipher).map fun c => (plainBlock rk c).bytes.length)
        = (chunks 16 pszCipher).map List.length :=
      List.map_congr_left fun c hc => (Block.length_bytes _).trans (hL c hc).symm
    rw [← Buffer.length_contents, hcontents, List.length_flatMap, hsum, ← List.length_flatten,
      flatten_chunks (by decide)]
  have hplain : obj'.plain = ((chunks 16 pszCipher).getLast?.map (plainBlock rk)).getD plain :=
    plain_foldl heap rk hL _
  have hdecode : decode heap w pszCipher ⟨some rk, plain, cipher, buffer⟩
      = (⟨some obj'.buffer.block, w.subSize obj'.buffer.offset obj'.plain.last.toNat⟩, obj') := by
    rw [decode]
    dsimp only
    rw [if_neg (by rw [not_not]; exact Nat.mod_eq_zero_of_dvd hlen)]
  rw [hdecode]
  refine ⟨obj'.buffer.block, ?_, hplain, ?_⟩
  · rw [hoffset, hplain]
  · rw [← hoffset, ← hcontents]
    rfl

/-! ## The round trip -/

/-- The bytes of a result that is not longer than what stands behind its pointer. -/
theorem bytes_of_le {block : List UInt8} {n k : ℕ} (h : k ≤ n) :
    Result.bytes ⟨some block, k⟩ = some ((block.take n).take k) := by
  rw [List.take_take, Nat.min_eq_left h]
  rfl

/-- **The pieces as blocks are the text and what it is filled up with.** -/
theorem flatMap_padBlock {L : List (List UInt8)} (hL : ∀ c ∈ L, c.length = 16)
    {rest : List UInt8} (hlt : rest.length < 16) :
    (L ++ [rest]).flatMap (fun c => (padBlock c).bytes)
      = L.flatten ++ rest
        ++ List.replicate (16 - rest.length) (UInt8.ofNat (16 - rest.length)) := by
  have hwhole : L.map (fun c => (padBlock c).bytes) = L := by
    refine (List.map_congr_left fun c hc => ?_).trans L.map_id
    rw [bytes_padBlock (hL c hc).le, hL c hc, Nat.sub_self, List.replicate_zero, List.append_nil]
    rfl
  rw [List.flatMap_append, List.flatMap_singleton, bytes_padBlock hlt.le, List.append_assoc,
    List.flatMap_def, hwhole]

theorem plainBlock_encrypt (hR : R.Lawful) (pszKey : List UInt8) (emKeyType : AESKeyType)
    (b : Block) :
    plainBlock (R.setupDecrypt pszKey emKeyType)
      (R.encrypt (R.setupEncrypt pszKey emKeyType) b).bytes = b := by
  rw [plainBlock, Block.memcpy_bytes]
  exact hR _ _ _

/-- **`Decode` undoes `Encode`**, with whatever both objects hold from earlier calls, and the
encrypted text has one more block than the text has whole blocks. -/
theorem decode_of_encode (hR : R.Lawful) (heap' : List UInt8 → ℕ → UInt8) (w : Width)
    {enc dec : Object R} {pszKey : List UInt8} {emKeyType : AESKeyType}
    (henc : enc.pRK = some (R.setupEncrypt (keyText pszKey emKeyType) emKeyType))
    (hdec : dec.pRK = some (R.setupDecrypt (keyText pszKey emKeyType) emKeyType))
    (x : List UInt8) :
    ∃ cipher, (encode heap x enc).1.bytes = some cipher
      ∧ (encode heap x enc).1.iOutLes = (x.length / 16 + 1) * 16
      ∧ cipher.length = (x.length / 16 + 1) * 16
      ∧ (decode heap' w cipher dec).1.bytes = some x
      ∧ (decode heap' w cipher dec).1.iOutLes = x.length := by
  set rk := R.setupEncrypt (keyText pszKey emKeyType) emKeyType
  set rk' := R.setupDecrypt (keyText pszKey emKeyType) emKeyType
  obtain ⟨L, rest, hL, hrest, hflat, hpieces⟩ := exists_pieces x
  have hlt : rest.length < 16 := hrest ▸ Nat.mod_lt _ (by decide)
  have hplain : ∀ piece, plainBlock rk' (R.encrypt rk (padBlock piece)).bytes = padBlock piece :=
    fun piece => plainBlock_encrypt hR _ _ _
  -- the encrypted blocks, which the decoder takes one after the other
  set blocks := (pieces x).map fun c => (R.encrypt rk (padBlock c)).bytes with hblocks
  have hfull : ∀ c ∈ blocks, c.length = 16 := by
    intro c hc
    obtain ⟨piece, -, rfl⟩ := List.mem_map.mp hc
    exact Block.length_bytes _
  have hchunks : chunks 16 blocks.flatten = blocks := chunks_flatten (by decide) hfull
  have hlen : blocks.flatten.length = (x.length / 16 + 1) * 16 := by
    rw [length_flatten_of_length hfull, hblocks, List.length_map, length_pieces]
  obtain ⟨hbytes, hout⟩ := encode_eq heap henc x
  rw [List.flatMap_def, ← hblocks] at hbytes hout
  have hdvd : 16 ∣ blocks.flatten.length := hlen ▸ dvd_mul_left 16 _
  obtain ⟨block, hdecode, -, htake⟩ := decode_eq heap' w hdec hdvd
  refine ⟨blocks.flatten, hbytes, hout.trans hlen, hlen, ?_⟩
  have hlast : blocks.getLast?.map (plainBlock rk') = some (padBlock rest) := by
    rw [hblocks, hpieces, List.map_append, List.map_singleton, List.getLast?_concat,
      Option.map_some, hplain]
  have htext : blocks.flatMap (fun c => (plainBlock rk' c).bytes)
      = x ++ List.replicate (16 - rest.length) (UInt8.ofNat (16 - rest.length)) := by
    rw [hblocks, List.flatMap_map]
    simp only [hplain]
    rw [hpieces, flatMap_padBlock hL hlt, ← hflat]
  rw [hchunks, hlast, Option.getD_some, last_padBlock hlt, hlen,
    Width.subSize_of_le (by omega)] at hdecode
  have hcut : (x.length / 16 + 1) * 16 - (16 - rest.length) = x.length := by omega
  rw [hcut] at hdecode
  rw [hchunks, htext, hlen] at htake
  rw [hdecode]
  refine ⟨?_, rfl⟩
  rw [bytes_of_le (n := (x.length / 16 + 1) * 16) (by omega), htake, List.take_left' rfl]

/-- A cipher that turns the bytes of a block round, whatever the key. -/
def reversal : Rijndael where
  RK := Unit
  setupEncrypt _ _ := ()
  setupDecrypt _ _ := ()
  encrypt _ b := ⟨b.bytes.reverse, (List.length_reverse ..).trans b.length_bytes⟩
  decrypt _ b := ⟨b.bytes.reverse, (List.length_reverse ..).trans b.length_bytes⟩

theorem lawful_reversal : reversal.Lawful := fun _ _ b =>
  Block.eq_of_bytes (List.reverse_reverse b.bytes)

/-- Three bytes, after both objects got their key. -/
theorem decode_of_encode_three :
    ∃ cipher, (encode (R := reversal) (fun _ _ => 0) [1, 2, 3]
          (setEncodeKey [7] .key128 (create fun _ _ => 0)).2).1.bytes = some cipher
      ∧ cipher.length = 16
      ∧ (decode (R := reversal) (fun _ _ => 0) .bits64 cipher
          (setDecodeKey [7] .key128 (create fun _ _ => 0)).2).1.bytes = some [1, 2, 3] := by
  have henc : (setEncodeKey (R := reversal) [7] .key128 (create fun _ _ => 0)).2.pRK
      = some (reversal.setupEncrypt (keyText [7] .key128) .key128) := rfl
  have hdec : (setDecodeKey (R := reversal) [7] .key128 (create fun _ _ => 0)).2.pRK
      = some (reversal.setupDecrypt (keyText [7] .key128) .key128) := rfl
  obtain ⟨cipher, hbytes, -, hlen, hdecode, -⟩ :=
    decode_of_encode (fun _ _ => 0) lawful_reversal (fun _ _ => 0) .bits64 henc hdec [1, 2, 3]
  exact ⟨cipher, hbytes, hlen, hdecode⟩

/-! ## Any text -/

/-- A call of a `CAESDecode`. -/
inductive Call
  | setKey (pszKey : List UInt8) (emKeyType : AESKeyType)
  | decode (pszCipher : List UInt8)

/-- The object after a call. -/
def call (w : Width) (obj : Object R) : Call → Object R
  | .setKey pszKey emKeyType => (setDecodeKey pszKey emKeyType obj).2
  | .decode pszCipher => (decode heap w pszCipher obj).2

/-- The object after a history of calls. -/
def after (R : Rijndael) (w : Width) (history : List Call) : Object R :=
  history.foldl (call heap w) (create heap)

/-- The key that `setKey` sets: the type `keyNone` is no key. -/
def keyOf (pszKey : List UInt8) (emKeyType : AESKeyType) : Option (List UInt8 × AESKeyType) :=
  if emKeyType = .keyNone then none else some (keyText pszKey emKeyType, emKeyType)

/-- The key after a history of calls. -/
def keyAfter (history : List Call) : Option (List UInt8 × AESKeyType) :=
  history.foldl (fun key c => match c with
    | .setKey pszKey emKeyType => keyOf pszKey emKeyType
    | .decode _ => key) none

/-- **What decoding is expected to be**: bounded by the text, and told by the text and the key. -/
def BoundedStateless (R : Rijndael) (w : Width) (key : Option (List UInt8 × AESKeyType))
    (pszCipher : List UInt8) : Prop :=
  ∀ heap history, keyAfter history = key →
    ((decode heap w pszCipher (after heap R w history)).1.ptr = none
        ∨ (decode heap w pszCipher (after heap R w history)).1.iOutLes ≤ pszCipher.length)
      ∧ ∀ heap' history', keyAfter history' = key →
        (decode heap' w pszCipher (after heap' R w history')).1.bytes
            = (decode heap w pszCipher (after heap R w history)).1.bytes
          ∧ (decode heap' w pszCipher (after heap' R w history')).1.iOutLes
            = (decode heap w pszCipher (after heap R w history)).1.iOutLes

/-- The last byte of what a text is decrypted to. -/
def lastPad (R : Rijndael) (key : List UInt8 × AESKeyType) (pszCipher : List UInt8) : ℕ :=
  (plainBlock (R.setupDecrypt key.1 key.2) (pszCipher.drop (pszCipher.length - 16))).last.toNat

/-- Decoding does not change the key. -/
theorem pRK_decode (w : Width) (pszCipher : List UInt8) (obj : Object R) :
    (decode heap w pszCipher obj).2.pRK = obj.pRK := by
  have hfold : ∀ (rk : R.RK) (L : List (List UInt8)) (obj : Object R),
      (L.foldl (decodePiece heap rk) obj).pRK = obj.pRK := by
    intro rk L
    induction L with
    | nil => exact fun _ => rfl
    | cons c L ih => exact fun obj => ih (decodePiece heap rk obj c)
  obtain ⟨pRK, plain, cipher, buffer⟩ := obj
  cases pRK with
  | none => rfl
  | some rk =>
    rw [decode]
    dsimp only
    split_ifs
    · rfl
    · exact hfold rk _ _

/-- **The round keys are those of the key.** -/
theorem pRK_after (w : Width) (history : List Call) :
    (after heap R w history).pRK
      = (keyAfter history).map fun key => R.setupDecrypt key.1 key.2 := by
  unfold after keyAfter
  induction history using List.reverseRecOn with
  | nil => rfl
  | append_singleton history c ih =>
    rw [List.foldl_append, List.foldl_append]
    cases c with
    | setKey pszKey emKeyType =>
      show (setKey R.setupDecrypt pszKey emKeyType _).2.pRK
        = (keyOf pszKey emKeyType).map fun key => R.setupDecrypt key.1 key.2
      unfold setKey keyOf
      split_ifs <;> rfl
    | decode pszCipher => exact (pRK_decode heap w pszCipher _).trans ih

theorem decode_of_none {w : Width} {obj : Object R} (h : obj.pRK = none)
    (pszCipher : List UInt8) : (decode heap w pszCipher obj).1 = ⟨none, 0⟩ := by
  rw [decode, h]

theorem decode_of_not_dvd {w : Width} {obj : Object R} {pszCipher : List UInt8}
    (h : ¬16 ∣ pszCipher.length) : (decode heap w pszCipher obj).1 = ⟨none, 0⟩ := by
  obtain ⟨pRK, plain, cipher, buffer⟩ := obj
  cases pRK with
  | none => rfl
  | some rk =>
    rw [decode]
    dsimp only
    rw [if_pos fun h' => h (Nat.dvd_of_mod_eq_zero h')]

/-- Of a text of whole blocks the last byte decides. -/
theorem decode_of_dvd {w : Width} {obj : Object R} {key : List UInt8 × AESKeyType}
    (hkey : obj.pRK = some (R.setupDecrypt key.1 key.2)) {pszCipher : List UInt8}
    (hlen : 16 ∣ pszCipher.length) (hne : pszCipher ≠ []) :
    ∃ block, (decode heap w pszCipher obj).1
        = ⟨some block, w.subSize pszCipher.length (lastPad R key pszCipher)⟩
      ∧ block.take pszCipher.length = (chunks 16 pszCipher).flatMap fun c =>
        (plainBlock (R.setupDecrypt key.1 key.2) c).bytes := by
  obtain ⟨block, hdecode, -, htake⟩ := decode_eq heap w hkey hlen
  refine ⟨block, ?_, htake⟩
  rw [hdecode, getLast?_chunks (by decide) hlen hne]
  rfl

theorem lt_subSize {w : Width} {a b : ℕ} (hb : b < 256) (h : a < b) : a < w.subSize a b := by
  have hm := w.two_pow_le_modulus
  rw [Width.subSize, if_neg (by omega)]
  omega

/-- **An empty text can come out too long**: an earlier call has left a byte that is not zero. -/
theorem not_boundedStateless_nil (hR : R.Lawful) (w : Width) {key : List UInt8 × AESKeyType}
    {pszKey : List UInt8} {emKeyType : AESKeyType} (hkey : keyOf pszKey emKeyType = some key) :
    ¬BoundedStateless R w (some key) [] := by
  intro h
  -- a block of which all bytes are 255
  let b : Block := Block.zero.memset 0 255
  let c := R.encrypt (R.setupEncrypt key.1 key.2) b
  let history := [Call.setKey pszKey emKeyType, Call.decode c.bytes]
  have hset : ∀ heap, (after heap R w [Call.setKey pszKey emKeyType]).pRK
      = some (R.setupDecrypt key.1 key.2) := by
    intro heap
    rw [pRK_after]
    exact congrArg (Option.map _) hkey
  have hplain : (after (fun _ _ => 0) R w history).plain = b := by
    have hdvd : 16 ∣ c.bytes.length := ⟨1, c.length_bytes⟩
    have hchunks : chunks 16 c.bytes = [c.bytes] := by
      have happend := chunks_append (by decide) c.length_bytes []
      rwa [List.append_nil] at happend
    obtain ⟨block, -, hleft, -⟩ := decode_eq (fun _ _ => 0) w (hset _) hdvd
    rw [hchunks] at hleft
    exact hleft.trans (plainBlock_encrypt hR key.1 key.2 b)
  have hrk : (after (fun _ _ => 0) R w history).pRK = some (R.setupDecrypt key.1 key.2) := by
    rw [pRK_after]
    exact congrArg (Option.map _) hkey
  have hzero : 16 ∣ ([] : List UInt8).length := dvd_zero 16
  obtain ⟨block, hdecode, -, -⟩ := decode_eq (fun _ _ => 0) w hrk hzero
  have hbounded := (h (fun _ _ => 0) history hkey).1
  rw [hdecode] at hbounded
  rcases hbounded with hbounded | hbounded
  · cases hbounded
  · have hlast : ((((chunks 16 []).getLast?.map
        (plainBlock (R.setupDecrypt key.1 key.2))).getD
          (after (fun _ _ => 0) R w history).plain).last).toNat = 255 := by
      show ((after (fun _ _ => 0) R w history).plain.last).toNat = 255
      rw [hplain]
      rfl
    rw [hlast] at hbounded
    have hlt : 0 < w.subSize 0 255 := lt_subSize (by norm_num) (by norm_num)
    exact absurd hbounded (not_le.mpr hlt)

/-- **No cipher saves the empty text**, with an empty key of 128 bits. -/
theorem not_boundedStateless :
    ¬∃ R : Rijndael, R.Lawful ∧ BoundedStateless R .bits64 (keyOf [] .key128) [] := by
  rintro ⟨R, hR, h⟩
  have hkey : keyOf [] .key128 = some (keyText [] .key128, .key128) := rfl
  rw [hkey] at h
  exact not_boundedStateless_nil hR .bits64 hkey h

/-- A number that is larger than the text gives a length that is larger too. -/
theorem not_boundedStateless_of_lt {w : Width} {key : List UInt8 × AESKeyType}
    {pszKey : List UInt8} {emKeyType : AESKeyType} (hkey : keyOf pszKey emKeyType = some key)
    {pszCipher : List UInt8} (hlen : 16 ∣ pszCipher.length) (hne : pszCipher ≠ [])
    (hlt : pszCipher.length < lastPad R key pszCipher) :
    ¬BoundedStateless R w (some key) pszCipher := by
  intro h
  have hrk : (after (fun _ _ => 0) R w [Call.setKey pszKey emKeyType]).pRK
      = some (R.setupDecrypt key.1 key.2) := by
    rw [pRK_after]
    exact congrArg (Option.map _) hkey
  obtain ⟨block, hdecode, -⟩ := decode_of_dvd (fun _ _ => 0) (w := w) hrk hlen hne
  have hbounded := (h (fun _ _ => 0) [Call.setKey pszKey emKeyType] hkey).1
  rw [hdecode] at hbounded
  rcases hbounded with hbounded | hbounded
  · cases hbounded
  · exact absurd hbounded (not_le.mpr (lt_subSize (UInt8.toNat_lt _) hlt))

/-- It is enough that every history gives the same. -/
theorem boundedStateless_of {w : Width} {key : Option (List UInt8 × AESKeyType)}
    {pszCipher : List UInt8} (bytes : Option (List UInt8)) (lens : ℕ)
    (hle : bytes = none ∨ lens ≤ pszCipher.length)
    (h : ∀ heap history, keyAfter history = key →
      (decode heap w pszCipher (after heap R w history)).1.bytes = bytes
        ∧ (decode heap w pszCipher (after heap R w history)).1.iOutLes = lens) :
    BoundedStateless R w key pszCipher := by
  intro heap history hhistory
  obtain ⟨hbytes, hlens⟩ := h heap history hhistory
  refine ⟨?_, fun heap' history' hhistory' => ?_⟩
  · rcases hle with hnone | hle
    · exact .inl (Option.map_eq_none_iff.mp (hbytes.trans hnone))
    · exact .inr (hlens.trans_le hle)
  · obtain ⟨hbytes', hlens'⟩ := h heap' history' hhistory'
    exact ⟨hbytes'.trans hbytes.symm, hlens'.trans hlens.symm⟩

/-- **When decoding is bounded and stateless**: there is no key, or the text is no number of whole
blocks, or there are blocks and the last byte of what they are decrypted to is at most the length
of the text. -/
theorem boundedStateless_iff (hR : R.Lawful) (w : Width) (pszKey : List UInt8)
    (emKeyType : AESKeyType) (pszCipher : List UInt8) :
    BoundedStateless R w (keyOf pszKey emKeyType) pszCipher
      ↔ ∀ key ∈ keyOf pszKey emKeyType, 16 ∣ pszCipher.length →
        pszCipher ≠ [] ∧ lastPad R key pszCipher ≤ pszCipher.length := by
  constructor
  · intro h key hkey hlen
    rw [Option.mem_def] at hkey
    rw [hkey] at h
    have hne : pszCipher ≠ [] := by
      rintro rfl
      exact not_boundedStateless_nil hR w hkey h
    exact ⟨hne, not_lt.mp fun hlt => not_boundedStateless_of_lt hkey hlen hne hlt h⟩
  · intro h
    by_cases hkey : ∃ key ∈ keyOf pszKey emKeyType, 16 ∣ pszCipher.length
    · obtain ⟨key, hkey, hlen⟩ := hkey
      obtain ⟨hne, hle⟩ := h key hkey hlen
      rw [Option.mem_def] at hkey
      refine boundedStateless_of
        (some (((chunks 16 pszCipher).flatMap fun c =>
          (plainBlock (R.setupDecrypt key.1 key.2) c).bytes).take
            (pszCipher.length - lastPad R key pszCipher)))
        (pszCipher.length - lastPad R key pszCipher) (.inr (Nat.sub_le _ _))
        fun heap history hhistory => ?_
      have hrk : (after heap R w history).pRK = some (R.setupDecrypt key.1 key.2) := by
        rw [pRK_after, hhistory, hkey]
        rfl
      obtain ⟨block, hdecode, htake⟩ := decode_of_dvd heap (w := w) hrk hlen hne
      rw [hdecode, Width.subSize_of_le hle, bytes_of_le (Nat.sub_le _ _), htake]
      exact ⟨rfl, rfl⟩
    · refine boundedStateless_of none 0 (.inl rfl) fun heap history hhistory => ?_
      have hdecode : (decode heap w pszCipher (after heap R w history)).1 = ⟨none, 0⟩ := by
        by_cases hlen : 16 ∣ pszCipher.length
        · refine decode_of_none heap ?_ pszCipher
          have hnone : keyOf pszKey emKeyType = none :=
            Option.eq_none_iff_forall_not_mem.mpr fun key hmem => hkey ⟨key, hmem, hlen⟩
          rw [pRK_after, hhistory, hnone]
          rfl
        · exact decode_of_not_dvd heap hlen
      rw [hdecode]
      exact ⟨rfl, rfl⟩

/-- The last byte of this block is 255 after the cipher that turns it round, and then 2. -/
theorem boundedStateless_iff_two :
    ¬BoundedStateless reversal .bits32 (keyOf [7] .key192) (255 :: List.replicate 15 2)
      ∧ BoundedStateless reversal .bits32 (keyOf [7] .key192) (2 :: List.replicate 15 255) := by
  have hkey : keyOf [7] .key192 = some (keyText [7] .key192, .key192) := rfl
  constructor
  · rw [boundedStateless_iff lawful_reversal]
    intro h
    exact absurd (h _ hkey (by decide)).2 (by decide)
  · rw [boundedStateless_iff lawful_reversal]
    intro key hmem _
    rw [hkey, Option.mem_some_iff] at hmem
    subst hmem
    exact ⟨by decide, by decide⟩

end AES
