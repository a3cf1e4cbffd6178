import QService.ByteOrder
import QService.Crc

/-!
# `hashCRC16` and `hashCRC32`

Both go through the text byte by byte, with a table of 256 values. Their tables are
those of the polynomials 0x1021, in a register that moves up, and 0xEDB88320, in one
that moves down, so what they compute are the checks bit by bit (`hashCRC_eq`). The
16-bit one reads the text as `char`, which may be signed: a byte from 128 on is
then a negative `int`, and of its bits only the lower eight are looked at.
-/

namespace CEncrypt

open ByteOrder Crc

/-! ## The code -/

/-- `ausCRC16`. -/
def ausCRC16 : List (BitVec 16) := [
  0x0000, 0x1021, 0x2042, 0x3063, 0x4084, 0x50a5, 0x60c6, 0x70e7,
  0x8108, 0x9129, 0xa14a, 0xb16b, 0xc18c, 0xd1ad, 0xe1ce, 0xf1ef,
  0x1231, 0x0210, 0x3273, 0x2252, 0x52b5, 0x4294, 0x72f7, 0x62d6,
  0x9339, 0x8318, 0xb37b, 0xa35a, 0xd3bd, 0xc39c, 0xf3ff, 0xe3de,
  0x2462, 0x3443, 0x0420, 0x1401, 0x64e6, 0x74c7, 0x44a4, 0x5485,
  0xa56a, 0xb54b, 0x8528, 0x9509, 0xe5ee, 0xf5cf, 0xc5ac, 0xd58d,
  0x3653, 0x2672, 0x1611, 0x0630, 0x76d7, 0x66f6, 0x5695, 0x46b4,
  0xb75b, 0xa77a, 0x9719, 0x8738, 0xf7df, 0xe7fe, 0xd79d, 0xc7bc,
  0x48c4, 0x58e5, 0x6886, 0x78a7, 0x0840, 0x1861, 0x2802, 0x3823,
  0xc9cc, 0xd9ed, 0xe98e, 0xf9af, 0x8948, 0x9969, 0xa90a, 0xb92b,
  0x5af5, 0x4ad4, 0x7ab7, 0x6a96, 0x1a71, 0x0a50, 0x3a33, 0x2a12,
  0xdbfd, 0xcbdc, 0xfbbf, 0xeb9e, 0x9b79, 0x8b58, 0xbb3b, 0xab1a,
  0x6ca6, 0x7c87, 0x4ce4, 0x5cc5, 0x2c22, 0x3c03, 0x0c60, 0x1c41,
  0xedae, 0xfd8f, 0xcdec, 0xddcd, 0xad2a, 0xbd0b, 0x8d68, 0x9d49,
  0x7e97, 0x6eb6, 0x5ed5, 0x4ef4, 0x3e13, 0x2e32, 0x1e51, 0x0e70,
  0xff9f, 0xefbe, 0xdfdd, 0xcffc, 0xbf1b, 0xaf3a, 0x9f59, 0x8f78,
  0x9188, 0x81a9, 0xb1ca, 0xa1eb, 0xd10c, 0xc12d, 0xf14e, 0xe16f,
  0x1080, 0x00a1, 0x30c2, 0x20e3, 0x5004, 0x4025, 0x7046, 0x6067,
  0x83b9, 0x9398, 0xa3fb, 0xb3da, 0xc33d, 0xd31c, 0xe37f, 0xf35e,
  0x02b1, 0x1290, 0x22f3, 0x32d2, 0x4235, 0x5214, 0x6277, 0x7256,
  0xb5ea, 0xa5cb, 0x95a8, 0x8589, 0xf56e, 0xe54f, 0xd52c, 0xc50d,
  0x34e2, 0x24c3, 0x14a0, 0x0481, 0x7466, 0x6447, 0x5424, 0x4405,
  0xa7db, 0xb7fa, 0x8799, 0x97b8, 0xe75f, 0xf77e, 0xc71d, 0xd73c,
  0x26d3, 0x36f2, 0x0691, 0x16b0, 0x6657, 0x7676, 0x4615, 0x5634,
  0xd94c, 0xc96d, 0xf90e, 0xe92f, 0x99c8, 0x89e9, 0xb98a, 0xa9ab,
  0x5844, 0x4865, 0x7806, 0x6827, 0x18c0, 0x08e1, 0x3882, 0x28a3,
  0xcb7d, 0xdb5c, 0xeb3f, 0xfb1e, 0x8bf9, 0x9bd8, 0xabbb, 0xbb9a,
  0x4a75, 0x5a54, 0x6a37, 0x7a16, 0x0af1, 0x1ad0, 0x2ab3, 0x3a92,
  0xfd2e, 0xed0f, 0xdd6c, 0xcd4d, 0xbdaa, 0xad8b, 0x9de8, 0x8dc9,
  0x7c26, 0x6c07, 0x5c64, 0x4c45, 0x3ca2, 0x2c83, 0x1ce0, 0x0cc1,
  0xef1f, 0xff3e, 0xcf5d, 0xdf7c, 0xaf9b, 0xbfba, 0x8fd9, 0x9ff8,
  0x6e17, 0x7e36, 0x4e55, 0x5e74, 0x2e93, 0x3eb2, 0x0ed1, 0x1ef0]

/-- `auiCRC32`. -/
def auiCRC32 : List (BitVec 32) := [
  0x00000000, 0x77073096, 0xee0e612c, 0x990951ba, 0x076dc419, 0x706af48f, 0xe963a535, 0x9e6495a3,
  0x0edb8832, 0x79dcb8a4, 0xe0d5e91e, 0x97d2d988, 0x09b64c2b, 0x7eb17cbd, 0xe7b82d07, 0x90bf1d91,
  0x1db71064, 0x6ab020f2, 0xf3b97148, 0x84be41de, 0x1adad47d, 0x6ddde4eb, 0xf4d4b551, 0x83d385c7,
  0x136c9856, 0x646ba8c0, 0xfd62f97a, 0x8a65c9ec, 0x14015c4f, 0x63066cd9, 0xfa0f3d63, 0x8d080df5,
  0x3b6e20c8, 0x4c69105e, 0xd56041e4, 0xa2677172, 0x3c03e4d1, 0x4b04d447, 0xd20d85fd, 0xa50ab56b,
  0x35b5a8fa, 0x42b2986c, 0xdbbbc9d6, 0xacbcf940, 0x32d86ce3, 0x45df5c75, 0xdcd60dcf, 0xabd13d59,
  0x26d930ac, 0x51de003a, 0xc8d75180, 0xbfd06116, 0x21b4f4b5, 0x56b3c423, 0xcfba9599, 0xb8bda50f,
  0x2802b89e, 0x5f058808, 0xc60cd9b2, 0xb10be924, 0x2f6f7c87, 0x58684c11, 0xc1611dab, 0xb6662d3d,
  0x76dc4190, 0x01db7106, 0x98d220bc, 0xefd5102a, 0x71b18589, 0x06b6b51f, 0x9fbfe4a5, 0xe8b8d433,
  0x7807c9a2, 0x0f00f934, 0x9609a88e, 0xe10e9818, 0x7f6a0dbb, 0x086d3d2d, 0x91646c97, 0xe6635c01,
  0x6b6b51f4, 0x1c6c6162, 0x856530d8, 0xf262004e, 0x6c0695ed, 0x1b01a57b, 0x8208f4c1, 0xf50fc457,
  0x65b0d9c6, 0x12b7e950, 0x8bbeb8ea, 0xfcb9887c, 0x62dd1ddf, 0x15da2d49, 0x8cd37cf3, 0xfbd44c65,
  0x4db26158, 0x3ab551ce, 0xa3bc0074, 0xd4bb30e2, 0x4adfa541, 0x3dd895d7, 0xa4d1c46d, 0xd3d6f4fb,
  0x4369e96a, 0x346ed9fc, 0xad678846, 0xda60b8d0, 0x44042d73, 0x33031de5, 0xaa0a4c5f, 0xdd0d7cc9,
  0x5005713c, 0x270241aa, 0xbe0b1010, 0xc90c2086, 0x5768b525, 0x206f85b3, 0xb966d409, 0xce61e49f,
  0x5edef90e, 0x29d9c998, 0xb0d09822, 0xc7d7a8b4, 0x59b33d17, 0x2eb40d81, 0xb7bd5c3b, 0xc0ba6cad,
  0xedb88320, 0x9abfb3b6, 0x03b6e20c, 0x74b1d29a, 0xead54739, 0x9dd277af, 0x04db2615, 0x73dc1683,
  0xe3630b12, 0x94643b84, 0x0d6d6a3e, 0x7a6a5aa8, 0xe40ecf0b, 0x9309ff9d, 0x0a00ae27, 0x7d079eb1,
  0xf00f9344, 0x8708a3d2, 0x1e01f268, 0x6906c2fe, 0xf762575d, 0x806567cb, 0x196c3671, 0x6e6b06e7,
  0xfed41b76, 0x89d32be0, 0x10da7a5a, 0x67dd4acc, 0xf9b9df6f, 0x8ebeeff9, 0x17b7be43, 0x60b08ed5,
  0xd6d6a3e8, 0xa1d1937e, 0x38d8c2c4, 0x4fdff252, 0xd1bb67f1, 0xa6bc5767, 0x3fb506dd, 0x48b2364b,
  0xd80d2bda, 0xaf0a1b4c, 0x36034af6, 0x41047a60, 0xdf60efc3, 0xa867df55, 0x316e8eef, 0x4669be79,
  0xcb61b38c, 0xbc66831a, 0x256fd2a0, 0x5268e236, 0xcc0c7795, 0xbb0b4703, 0x220216b9, 0x5505262f,
  0xc5ba3bbe, 0xb2bd0b28, 0x2bb45a92, 0x5cb36a04, 0xc2d7ffa7, 0xb5d0cf31, 0x2cd99e8b, 0x5bdeae1d,
  0x9b64c2b0, 0xec63f226, 0x756aa39c, 0x026d930a, 0x9c0906a9, 0xeb0e363f, 0x72076785, 0x05005713,
  0x95bf4a82, 0xe2b87a14, 0x7bb12bae, 0x0cb61b38, 0x92d28e9b, 0xe5d5be0d, 0x7cdcefb7, 0x0bdbdf21,
  0x86d3d2d4, 0xf1d4e242, 0x68ddb3f8, 0x1fda836e, 0x81be16cd, 0xf6b9265b, 0x6fb077e1, 0x18b74777,
  0x88085ae6, 0xff0f6a70, 0x66063bca, 0x11010b5c, 0x8f659eff, 0xf862ae69, 0x616bffd3, 0x166ccf45,
  0xa00ae278, 0xd70dd2ee, 0x4e048354, 0x3903b3c2, 0xa7672661, 0xd06016f7, 0x4969474d, 0x3e6e77db,
  0xaed16a4a, 0xd9d65adc, 0x40df0b66, 0x37d83bf0, 0xa9bcae53, 0xdebb9ec5, 0x47b2cf7f, 0x30b5ffe9,
  0xbdbdf21c, 0xcabac28a, 0x53b39330, 0x24b4a3a6, 0xbad03605, 0xcdd70693, 0x54de5729, 0x23d967bf,
  0xb3667a2e, 0xc4614ab8, 0x5d681b02, 0x2a6f2b94, 0xb40bbe37, 0xc30c8ea1, 0x5a05df1b, 0x2d02ef8d]

/-- A `char` as an `int`. Whether it is signed depends on the compiler. -/
def promote (signed : Bool) (c : UInt8) : BitVec 32 :=
  if signed then c.toBitVec.signExtend 32 else c.toBitVec.setWidth 32

/-- A round of the loop of `hashCRC16`. It computes with `int`. -/
def crc16Round (signed : Bool) (usCRC : BitVec 16) (c : UInt8) : BitVec 16 :=
  ((usCRC.setWidth 32 <<< 8)
    ^^^ (ausCRC16.getD (((usCRC.setWidth 32 >>> 8) ^^^ promote signed c) &&& 0x00ff).toNat 0).setWidth
      32).setWidth 16

/-- `CEncrypt::hashCRC16`. -/
def hashCRC16 (signed : Bool) (pszKey : List UInt8) : BitVec 16 :=
  pszKey.foldl (crc16Round signed) 0

/-- A round of the loop of `hashCRC32`. -/
def crc32Round (uiCRC : BitVec 32) (val : UInt8) : BitVec 32 :=
  auiCRC32.getD ((uiCRC ^^^ val.toBitVec.setWidth 32) &&& 0xFF).toNat 0 ^^^ (uiCRC >>> 8)

/-- `CEncrypt::hashCRC32`. -/
def hashCRC32 (pszKey : List UInt8) : BitVec 32 :=
  pszKey.foldl crc32Round (~~~0) ^^^ ~~~0

/-! ## What is meant -/

/-- **CRC-16/XMODEM**: the polynomial 0x1021, nothing in the register, not reflected. -/
def crc16 (data : List UInt8) : BitVec 16 :=
  (Register.high 0x1021).feed 0 (data.flatMap byteBits)

/-- **CRC-32**: the reflected polynomial 0xEDB88320, the lowest bit of a byte first, with ones in
the register and added to the result. -/
def crc32 (data : List UInt8) : BitVec 32 :=
  (Register.low 0xEDB88320).feed 0xFFFFFFFF (data.flatMap fun b => (byteBits b).reverse)
    ^^^ 0xFFFFFFFF

/-! ## The tables -/

/-- **All of `ausCRC16` is right.** -/
theorem ausCRC16_eq : ∀ i : UInt8,
    ausCRC16.getD i.toNat 0 = (Register.high 0x1021).feed 0 (byteBits i) :=
  forall_byte (by decide +kernel)

/-- **All of `auiCRC32` is right.** -/
theorem auiCRC32_eq : ∀ i : UInt8,
    auiCRC32.getD i.toNat 0 = (Register.low 0xEDB88320).feed 0 (byteBits i).reverse :=
  forall_byte (by decide +kernel)

/-! ## The rounds -/

/-- The lower eight bits of a `char` are those of its byte. -/
theorem getLsbD_promote (signed : Bool) (c : UInt8) {k : ℕ} (hk : k < 8) :
    (promote signed c).getLsbD k = c.toNat.testBit k := by
  have hbit : c.toNat.testBit k = c.toBitVec.getLsbD k := rfl
  have hk' : k < 32 := by omega
  rw [promote, hbit]
  split_ifs
  · rw [BitVec.getLsbD_signExtend, if_pos hk, decide_eq_true hk', Bool.true_and]
  · rw [BitVec.getLsbD_setWidth, decide_eq_true hk', Bool.true_and]

/-- The lower eight bits of an index are a byte, -/
theorem toNat_low (x : BitVec 32) :
    (UInt8.ofNat (x &&& 0xFF).toNat).toNat = (x &&& 0xFF).toNat := by
  refine UInt8.toNat_ofNat_of_lt' ?_
  rw [BitVec.toNat_and]
  exact Nat.and_lt_two_pow x.toNat (n := 8) (by decide)

/-- with these bits. -/
theorem testBit_low (x : BitVec 32) {k : ℕ} (hk : k < 8) :
    (UInt8.ofNat (x &&& 0xFF).toNat).toNat.testBit k = x.getLsbD k := by
  have hlow : (x &&& 0xFF).toNat = x.toNat % 2 ^ 8 := by
    rw [BitVec.toNat_and]
    exact Nat.and_two_pow_sub_one_eq_mod x.toNat 8
  rw [toNat_low, hlow, Nat.testBit_mod_two_pow, decide_eq_true hk, Bool.true_and]
  rfl

/-- A byte that has the sums of its bits is the sum of the messages. -/
theorem byteBits_xor {i b : UInt8} {f : ℕ → Bool}
    (h : ∀ k < 8, i.toNat.testBit k = (f k ^^ b.toNat.testBit k)) :
    byteBits i = ([7, 6, 5, 4, 3, 2, 1, 0].map f).zipWith xor (byteBits b) := by
  simp [byteBits, h]

/-- **A round of `hashCRC16` feeds a byte.** -/
theorem crc16Round_eq (signed : Bool) (usCRC : BitVec 16) (c : UInt8) :
    crc16Round signed usCRC c = (Register.high 0x1021).feed usCRC (byteBits c) := by
  -- the index, which has the sums of the upper bits of the register and those of the byte
  set x : BitVec 32 := (usCRC.setWidth 32 >>> 8) ^^^ promote signed c with hx
  have hbits : ∀ k < 8, (UInt8.ofNat (x &&& 0xFF).toNat).toNat.testBit k
      = (usCRC.getLsbD (8 + k) ^^ c.toNat.testBit k) := by
    intro k hk
    have hk' : 8 + k < 32 := by omega
    rw [testBit_low x hk, hx, BitVec.getLsbD_xor, getLsbD_promote signed c hk,
      BitVec.getLsbD_ushiftRight, BitVec.getLsbD_setWidth, decide_eq_true hk', Bool.true_and]
  have houts : (Register.high 0x1021).outs (byteBits c).length usCRC
      = [7, 6, 5, 4, 3, 2, 1, 0].map fun k => usCRC.getLsbD (8 + k) := by
    rw [Register.outs_high]
    rfl
  have htable := Register.feed_table (Register.high (0x1021 : BitVec 16)) ausCRC16_eq
    (c := usCRC) ((byteBits_xor hbits).trans (by rw [houts]))
  rw [htable, Register.move_high, toNat_low]
  show ((usCRC.setWidth 32 <<< 8) ^^^ (ausCRC16.getD (x &&& 0xFF).toNat 0).setWidth 32).setWidth 16
    = usCRC <<< 8 ^^^ ausCRC16.getD (x &&& 0xFF).toNat 0
  refine BitVec.eq_of_getLsbD_eq fun k hk => ?_
  have hk' : k < 32 := by omega
  simp only [BitVec.getLsbD_setWidth, BitVec.getLsbD_xor, BitVec.getLsbD_shiftLeft, hk, hk',
    decide_true, Bool.true_and]
  have hdiff : k - 8 < 16 ∧ k - 8 < 32 := by omega
  simp only [hdiff, decide_true, Bool.true_and]

/-- **A round of `hashCRC32` feeds a byte.** -/
theorem crc32Round_eq (uiCRC : BitVec 32) (val : UInt8) :
    crc32Round uiCRC val = (Register.low 0xEDB88320).feed uiCRC (byteBits val).reverse := by
  set x : BitVec 32 := uiCRC ^^^ val.toBitVec.setWidth 32 with hx
  have hbits : ∀ k < 8, (UInt8.ofNat (x &&& 0xFF).toNat).toNat.testBit k
      = (uiCRC.getLsbD k ^^ val.toNat.testBit k) := by
    intro k hk
    have hk' : k < 32 := by omega
    rw [testBit_low x hk, hx, BitVec.getLsbD_xor, BitVec.getLsbD_setWidth, decide_eq_true hk',
      Bool.true_and]
    rfl
  have houts : (Register.low 0xEDB88320).outs (byteBits val).reverse.length uiCRC
      = ([7, 6, 5, 4, 3, 2, 1, 0].map uiCRC.getLsbD).reverse := by
    rw [Register.outs_low]
    rfl
  have hlen : ([7, 6, 5, 4, 3, 2, 1, 0].map uiCRC.getLsbD).length = (byteBits val).length := rfl
  have hindex : (byteBits (UInt8.ofNat (x &&& 0xFF).toNat)).reverse
      = ((Register.low 0xEDB88320).outs (byteBits val).reverse.length uiCRC).zipWith xor
        (byteBits val).reverse := by
    rw [houts, byteBits_xor hbits, List.reverse_zipWith hlen]
  rw [Register.feed_table (Register.low (0xEDB88320 : BitVec 32)) auiCRC32_eq hindex,
    Register.move_low, toNat_low, BitVec.xor_comm]
  rfl

/-- The rounds feed the bytes one after another. -/
theorem foldl_feed {w : ℕ} (r : Register w) (bits : UInt8 → List Bool)
    {f : BitVec w → UInt8 → BitVec w} (hf : ∀ c b, f c b = r.feed c (bits b)) (c : BitVec w)
    (data : List UInt8) :
    data.foldl f c = r.feed c (data.flatMap bits) := by
  induction data generalizing c with
  | nil => rfl
  | cons b data ih => rw [List.foldl_cons, hf, ih, List.flatMap_cons, Register.feed_append]

/-- **The checks by table are the checks bit by bit**, for a `char` of either kind. -/
theorem hashCRC_eq (signed : Bool) (pszKey : List UInt8) :
    hashCRC16 signed pszKey = crc16 pszKey ∧ hashCRC32 pszKey = crc32 pszKey := by
  constructor
  · exact foldl_feed _ _ (crc16Round_eq signed) 0 pszKey
  · exact congrArg (· ^^^ 0xFFFFFFFF) (foldl_feed _ _ crc32Round_eq 0xFFFFFFFF pszKey)

/-! ## What the checks see -/

/-- The bits of a byte are the byte. -/
theorem byteBits_injective : Function.Injective byteBits := by
  intro a b h
  have hbits : ∀ k < 8, a.toNat.testBit k = b.toNat.testBit k := by
    simp only [byteBits, List.map_cons, List.map_nil, List.cons.injEq, and_true] at h
    intro k hk
    interval_cases k <;> simp only [h]
  refine UInt8.toNat_inj.mp (Nat.eq_of_testBit_eq fun k => ?_)
  rcases Nat.lt_or_ge k 8 with hk | hk
  · exact hbits k hk
  · have hpow : 2 ^ 8 ≤ 2 ^ k := Nat.pow_le_pow_right (by decide) hk
    rw [Nat.testBit_lt_two_pow (lt_of_lt_of_le a.toNat_lt hpow),
      Nat.testBit_lt_two_pow (lt_of_lt_of_le b.toNat_lt hpow)]

theorem length_flatMap_bits {bits : UInt8 → List Bool} (hbits : ∀ b, (bits b).length = 8)
    (data : List UInt8) : (data.flatMap bits).length = 8 * data.length := by
  induction data with
  | nil => rfl
  | cons b data ih => rw [List.flatMap_cons, List.length_append, hbits, ih, List.length_cons]; ring

/-- The bits of a text are the text. -/
theorem flatMap_bits_injective {bits : UInt8 → List Bool} (hbits : ∀ b, (bits b).length = 8)
    (hinj : Function.Injective bits) : Function.Injective (List.flatMap bits) := by
  intro x y h
  induction x generalizing y with
  | nil =>
    have hlen := congrArg List.length h
    rw [length_flatMap_bits hbits, length_flatMap_bits hbits, List.length_nil] at hlen
    exact (List.length_eq_zero_iff.mp (by omega)).symm
  | cons a x ih =>
    cases y with
    | nil =>
      have hlen := congrArg List.length h
      rw [length_flatMap_bits hbits, length_flatMap_bits hbits, List.length_nil,
        List.length_cons] at hlen
      omega
    | cons b y =>
      rw [List.flatMap_cons, List.flatMap_cons] at h
      obtain ⟨hhead, htail⟩ := List.append_inj h ((hbits a).trans (hbits b).symm)
      rw [hinj hhead, ih htail]

/-- A check that feeds the bits of the bytes sees a change within as many bits as it has. -/
theorem feed_flatMap_ne {w : ℕ} {r : Register w} (hr : r.Full) (c : BitVec w)
    {bits : UInt8 → List Bool} (hbits : ∀ b, (bits b).length = 8)
    (hinj : Function.Injective bits) {x y : List UInt8} (hlen : x.length = y.length) (hne : x ≠ y)
    {k : ℕ} (h : ∀ i, i < k ∨ k + w ≤ i → (x.flatMap bits)[i]? = (y.flatMap bits)[i]?) :
    r.feed c (x.flatMap bits) ≠ r.feed c (y.flatMap bits) :=
  hr.feed_ne_of_burst c
    (by rw [length_flatMap_bits hbits, length_flatMap_bits hbits, hlen])
    (fun heq => hne (flatMap_bits_injective hbits hinj heq)) h

/-- **No burst goes unseen.** Two texts of one length that differ, but only in bits that lie within
16 (or 32) of one another in the order in which the check takes them, have different checks. -/
theorem hashCRC_ne_of_burst (signed : Bool) {x y : List UInt8} (hlen : x.length = y.length)
    (hne : x ≠ y) (k : ℕ) :
    ((∀ i, i < k ∨ k + 16 ≤ i → (x.flatMap byteBits)[i]? = (y.flatMap byteBits)[i]?) →
      hashCRC16 signed x ≠ hashCRC16 signed y) ∧
    ((∀ i, i < k ∨ k + 32 ≤ i →
        (x.flatMap fun b => (byteBits b).reverse)[i]?
          = (y.flatMap fun b => (byteBits b).reverse)[i]?) →
      hashCRC32 x ≠ hashCRC32 y) := by
  constructor
  · intro h
    rw [hashCRC16, hashCRC16, foldl_feed _ _ (crc16Round_eq signed),
      foldl_feed _ _ (crc16Round_eq signed)]
    have hfull : (Register.high (0x1021 : BitVec 16)).Full := Register.full_high (by decide)
    exact feed_flatMap_ne hfull 0 (fun _ => rfl) byteBits_injective hlen hne h
  · intro h heq
    rw [hashCRC32, hashCRC32, foldl_feed _ _ crc32Round_eq, foldl_feed _ _ crc32Round_eq,
      BitVec.xor_left_inj] at heq
    have hfull : (Register.low (0xEDB88320 : BitVec 32)).Full := Register.full_low (by decide)
    exact feed_flatMap_ne hfull (~~~0) (fun _ => rfl)
      (List.reverse_injective.comp byteBits_injective) hlen hne h heq

/-- Texts whose second and third byte are not the same: the bits from the eighth on. -/
theorem hashCRC_ne_of_burst_two :
    hashCRC16 true [0x41, 0x42, 0x43, 0x44] ≠ hashCRC16 true [0x41, 0xFF, 0x00, 0x44] ∧
      hashCRC32 [0x41, 0x42, 0x43, 0x44] ≠ hashCRC32 [0x41, 0xFF, 0x00, 0x44] := by
  have h := hashCRC_ne_of_burst true (x := [0x41, 0x42, 0x43, 0x44])
    (y := [0x41, 0xFF, 0x00, 0x44]) rfl (by decide) 8
  refine ⟨h.1 fun i hi => ?_, h.2 fun i hi => ?_⟩
  · rcases Nat.lt_or_ge i 32 with hlt | hge
    · have hall : ∀ i < 32, i < 8 ∨ 8 + 16 ≤ i →
          (List.flatMap byteBits [0x41, 0x42, 0x43, 0x44])[i]?
            = (List.flatMap byteBits [0x41, 0xFF, 0x00, 0x44])[i]? := by decide
      exact hall i hlt hi
    · rw [List.getElem?_eq_none hge, List.getElem?_eq_none hge]
  · have hlow : ∀ i < 8,
        (List.flatMap (fun b => (byteBits b).reverse) [0x41, 0x42, 0x43, 0x44])[i]?
          = (List.flatMap (fun b => (byteBits b).reverse) [0x41, 0xFF, 0x00, 0x44])[i]? := by
      decide
    rcases hi with hlt | hge
    · exact hlow i hlt
    · rw [List.getElem?_eq_none (le_trans (by decide) hge),
        List.getElem?_eq_none (le_trans (by decide) hge)]

end CEncrypt
