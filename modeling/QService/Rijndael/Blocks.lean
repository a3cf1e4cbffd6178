import QService.Rijndael.Tables

/-!
# `rijndaelEncrypt` and `rijndaelDecrypt`

The code works on four words with the tables; a word is an `unsigned long`, that is, it
may have more than 32 bits, and its upper byte is an index without a mask. That is right as long as
no word goes beyond 32 bits, which none does. So every access of a table or of the
round keys stays inside (`rijndaelEncrypt_eq`, `rijndaelDecrypt_eq`: the results are
not `none`).

With a schedule that holds the round keys, encryption is the cipher, and decryption is the
inverse cipher whose round keys are those that its schedule holds.
-/

namespace Rijndael

open Matrix

/-! ## The code -/

/-- `GETU32`. -/
def getU32 (text : List UInt8) (i : ℕ) : Option ℕ := do
  return ((← text[i]?).toNat <<< 24) ^^^ ((← text[i + 1]?).toNat <<< 16)
    ^^^ ((← text[i + 2]?).toNat <<< 8) ^^^ (← text[i + 3]?).toNat

/-- `PUTU32`. -/
def putU32 (st : ℕ) : List UInt8 :=
  [UInt8.ofNat (st >>> 24), UInt8.ofNat (st >>> 16), UInt8.ofNat (st >>> 8), UInt8.ofNat st]

/-- The words `s0` to `s3`, or `t0` to `t3`. -/
structure Words where
  s0 : ℕ
  s1 : ℕ
  s2 : ℕ
  s3 : ℕ

/-- What the tables have for the bytes of four words. -/
def column (T : Tables) (a b c d : ℕ) : Option ℕ := do
  return (← T.t0[a >>> 24]?) ^^^ (← T.t1[(b >>> 16) &&& 0xff]?)
    ^^^ (← T.t2[(c >>> 8) &&& 0xff]?) ^^^ (← T.t3[d &&& 0xff]?)

/-- The same in the last round. -/
def lastColumn (T : Tables) (a b c d : ℕ) : Option ℕ := do
  return ((← T.t4[a >>> 24]?) &&& 0xff000000) ^^^ ((← T.t4[(b >>> 16) &&& 0xff]?) &&& 0x00ff0000)
    ^^^ ((← T.t4[(c >>> 8) &&& 0xff]?) &&& 0x0000ff00) ^^^ ((← T.t4[d &&& 0xff]?) &&& 0x000000ff)

/-- A round of `rijndaelEncrypt`, with the words of the schedule from `k` on. -/
def encryptRound (col : ℕ → ℕ → ℕ → ℕ → Option ℕ) (rk : List ℕ) (s : Words) (k : ℕ) :
    Option Words := do
  return {
    s0 := (← col s.s0 s.s1 s.s2 s.s3) ^^^ (← rk[k]?)
    s1 := (← col s.s1 s.s2 s.s3 s.s0) ^^^ (← rk[k + 1]?)
    s2 := (← col s.s2 s.s3 s.s0 s.s1) ^^^ (← rk[k + 2]?)
    s3 := (← col s.s3 s.s0 s.s1 s.s2) ^^^ (← rk[k + 3]?) }

/-- A round of `rijndaelDecrypt`. -/
def decryptRound (col : ℕ → ℕ → ℕ → ℕ → Option ℕ) (rk : List ℕ) (s : Words) (k : ℕ) :
    Option Words := do
  return {
    s0 := (← col s.s0 s.s3 s.s2 s.s1) ^^^ (← rk[k]?)
    s1 := (← col s.s1 s.s0 s.s3 s.s2) ^^^ (← rk[k + 1]?)
    s2 := (← col s.s2 s.s1 s.s0 s.s3) ^^^ (← rk[k + 2]?)
    s3 := (← col s.s3 s.s2 s.s1 s.s0) ^^^ (← rk[k + 3]?) }

/-- The first words: the block and the first words of the schedule. -/
def firstWords (rk : List ℕ) (text : List UInt8) : Option Words := do
  return {
    s0 := (← getU32 text 0) ^^^ (← rk[0]?)
    s1 := (← getU32 text 4) ^^^ (← rk[1]?)
    s2 := (← getU32 text 8) ^^^ (← rk[2]?)
    s3 := (← getU32 text 12) ^^^ (← rk[3]?) }

/-- How many of the unrolled rounds are done before the last one. -/
def unrolled (nrounds : ℕ) : ℕ :=
  if 10 < nrounds then if 12 < nrounds then 13 else 11 else 9

def Words.put (s : Words) : AES.Block where
  bytes := putU32 s.s0 ++ putU32 s.s1 ++ putU32 s.s2 ++ putU32 s.s3
  length_bytes := rfl

/-- `rijndaelEncrypt`. -/
def rijndaelEncrypt (rk : List ℕ) (nrounds : ℕ) (plaintext : AES.Block) : Option AES.Block := do
  let s ← firstWords rk plaintext.bytes
  let t ← (List.range (unrolled nrounds)).foldlM
    (fun s i => encryptRound (column Te) rk s (4 * (i + 1))) s
  return (← encryptRound (lastColumn Te) rk t (4 * nrounds)).put

/-- `rijndaelDecrypt`. -/
def rijndaelDecrypt (rk : List ℕ) (nrounds : ℕ) (ciphertext : AES.Block) : Option AES.Block := do
  let s ← firstWords rk ciphertext.bytes
  let t ← (List.range (unrolled nrounds)).foldlM
    (fun s i => decryptRound (column Td) rk s (4 * (i + 1))) s
  return (← decryptRound (lastColumn Td) rk t (4 * nrounds)).put

/-! ## Words -/

theorem xor_mul_add {b d : ℕ} (hb : b < 256) (hd : d < 256) (a c : ℕ) :
    (a * 256 + b) ^^^ (c * 256 + d) = (a ^^^ c) * 256 + (b ^^^ d) := by
  have hdiv : ((a * 256 + b) ^^^ (c * 256 + d)) / 256
      = (a * 256 + b) / 256 ^^^ (c * 256 + d) / 256 := Nat.xor_div_two_pow (n := 8)
  have hmod : ((a * 256 + b) ^^^ (c * 256 + d)) % 256
      = (a * 256 + b) % 256 ^^^ (c * 256 + d) % 256 := Nat.xor_mod_two_pow (n := 8)
  rw [show (a * 256 + b) / 256 = a by omega, show (c * 256 + d) / 256 = c by omega] at hdiv
  rw [show (a * 256 + b) % 256 = b by omega, show (c * 256 + d) % 256 = d by omega] at hmod
  omega

/-- Words are added as columns are. -/
theorem word_xor (u v : Column) : word u ^^^ word v = word (u + v) := by
  unfold word
  rw [xor_mul_add (u 3).bits.isLt (v 3).bits.isLt, xor_mul_add (u 2).bits.isLt (v 2).bits.isLt,
    xor_mul_add (u 1).bits.isLt (v 1).bits.isLt]
  rfl

theorem word_shift_24 (u : Column) : word u >>> 24 = (u 0).bits.toNat := by
  have h1 := (u 1).bits.isLt
  have h2 := (u 2).bits.isLt
  have h3 := (u 3).bits.isLt
  rw [Nat.shiftRight_eq_div_pow, word]
  omega

theorem word_shift_16 (u : Column) : (word u >>> 16) &&& 0xff = (u 1).bits.toNat := by
  have h1 := (u 1).bits.isLt
  have h2 := (u 2).bits.isLt
  have h3 := (u 3).bits.isLt
  rw [Nat.shiftRight_eq_div_pow, show 0xff = 2 ^ 8 - 1 from rfl, Nat.and_two_pow_sub_one_eq_mod,
    word]
  omega

theorem word_shift_8 (u : Column) : (word u >>> 8) &&& 0xff = (u 2).bits.toNat := by
  have h2 := (u 2).bits.isLt
  have h3 := (u 3).bits.isLt
  rw [Nat.shiftRight_eq_div_pow, show 0xff = 2 ^ 8 - 1 from rfl, Nat.and_two_pow_sub_one_eq_mod,
    word]
  omega

theorem word_and (u : Column) : word u &&& 0xff = (u 3).bits.toNat := by
  have h3 := (u 3).bits.isLt
  rw [show 0xff = 2 ^ 8 - 1 from rfl, Nat.and_two_pow_sub_one_eq_mod, word]
  omega

/-- A word of the text. -/
theorem getU32_eq {text : List UInt8} {i : ℕ} {u : Column}
    (h : ∀ r : Fin 4, text[i + r]? = some (toByte (u r))) : getU32 text i = some (word u) := by
  have h0 : text[i]? = some (toByte (u 0)) := h 0
  have h1 : text[i + 1]? = some (toByte (u 1)) := h 1
  have h2 : text[i + 2]? = some (toByte (u 2)) := h 2
  have h3 : text[i + 3]? = some (toByte (u 3)) := h 3
  have hword : ∀ a b c d : GF256, (a.bits.toNat <<< 24) ^^^ (b.bits.toNat <<< 16)
      ^^^ (c.bits.toNat <<< 8) ^^^ d.bits.toNat = word ![a, b, c, d] := by
    intro a b c d
    have ha : a.bits.toNat <<< 24 = word ![a, 0, 0, 0] := by
      rw [Nat.shiftLeft_eq]
      simp [word]
      omega
    have hb : b.bits.toNat <<< 16 = word ![0, b, 0, 0] := by
      rw [Nat.shiftLeft_eq]
      simp [word]
      omega
    have hc : c.bits.toNat <<< 8 = word ![0, 0, c, 0] := by
      rw [Nat.shiftLeft_eq]
      simp [word]
    have hd : d.bits.toNat = word ![0, 0, 0, d] := by
      simp [word]
    rw [ha, hb, hc, hd, word_xor, word_xor, word_xor]
    simp
  unfold getU32
  rw [h0, h1, h2, h3]
  refine congrArg some ((hword (u 0) (u 1) (u 2) (u 3)).trans (congrArg word ?_))
  ext r
  fin_cases r
  all_goals rfl

theorem putU32_word (u : Column) :
    putU32 (word u) = [toByte (u 0), toByte (u 1), toByte (u 2), toByte (u 3)] := by
  have hbyte : ∀ (n : ℕ) (a : GF256), n % 256 = a.bits.toNat → UInt8.ofNat n = toByte a := by
    intro n a hn
    rw [← UInt8.toNat_inj, UInt8.toNat_ofNat']
    exact hn
  have h0 := (u 0).bits.isLt
  have h1 := (u 1).bits.isLt
  have h2 := (u 2).bits.isLt
  have h3 := (u 3).bits.isLt
  unfold putU32
  rw [hbyte _ (u 0), hbyte _ (u 1), hbyte _ (u 2), hbyte _ (u 3)]
  all_goals
    try rw [Nat.shiftRight_eq_div_pow]
    unfold word
    omega

/-! ## Rounds -/

/-- What a round makes of four bytes in the middle. -/
def mixed (M : State) (sub : GF256 → GF256) (a b c d : GF256) : Column :=
  fun r => M r 0 * sub a + M r 1 * sub b + M r 2 * sub c + M r 3 * sub d

/-- What the last one makes of them. -/
def unmixed (sub : GF256 → GF256) (a b c d : GF256) : Column := ![sub a, sub b, sub c, sub d]

variable {T : Tables} {M : State} {sub : GF256 → GF256}

theorem column_word (h : T.Holds M sub) (u0 u1 u2 u3 : Column) :
    column T (word u0) (word u1) (word u2) (word u3)
      = some (word (mixed M sub (u0 0) (u1 1) (u2 2) (u3 3))) := by
  unfold column
  rw [word_shift_24, word_shift_16, word_shift_8, word_and, h.t0, h.t1, h.t2, h.t3]
  show some (word _ ^^^ word _ ^^^ word _ ^^^ word _) = _
  rw [word_xor, word_xor, word_xor]
  rfl

/-- A mask picks one byte of a table that has it four times. -/
theorem masks : ∀ a : GF256, word (fun _ => a) &&& 0xff000000 = word ![a, 0, 0, 0]
    ∧ word (fun _ => a) &&& 0x00ff0000 = word ![0, a, 0, 0]
    ∧ word (fun _ => a) &&& 0x0000ff00 = word ![0, 0, a, 0]
    ∧ word (fun _ => a) &&& 0x000000ff = word ![0, 0, 0, a] :=
  GF256.forall_of_forall_lt (by decide +kernel)

/-- Four masked bytes are a word. -/
theorem masked (a b c d : GF256) :
    (word (fun _ => a) &&& 0xff000000) ^^^ (word (fun _ => b) &&& 0x00ff0000)
      ^^^ (word (fun _ => c) &&& 0x0000ff00) ^^^ (word (fun _ => d) &&& 0x000000ff)
      = word ![a, b, c, d] := by
  rw [(masks a).1, (masks b).2.1, (masks c).2.2.1, (masks d).2.2.2, word_xor, word_xor, word_xor]
  simp

theorem lastColumn_word (h : T.Holds M sub) (u0 u1 u2 u3 : Column) :
    lastColumn T (word u0) (word u1) (word u2) (word u3)
      = some (word (unmixed sub (u0 0) (u1 1) (u2 2) (u3 3))) := by
  unfold lastColumn
  rw [word_shift_24, word_shift_16, word_shift_8, word_and, h.t4, h.t4, h.t4, h.t4]
  exact congrArg some (masked _ _ _ _)

/-- The words of a state. -/
def words (s : State) : Words :=
  ⟨word fun r => s r 0, word fun r => s r 1, word fun r => s r 2, word fun r => s r 3⟩

/-- The schedule has the words of a round key from a place on. -/
def KeyAt (rk : List ℕ) (k : ℕ) (key : State) : Prop :=
  ∀ c : Fin 4, rk[k + c]? = some (word fun r => key r c)

variable {col : ℕ → ℕ → ℕ → ℕ → Option ℕ} {f : GF256 → GF256 → GF256 → GF256 → Column}
  {rk : List ℕ} {k : ℕ} {key : State}

theorem encryptRound_words
    (hcol : ∀ u0 u1 u2 u3, col (word u0) (word u1) (word u2) (word u3)
      = some (word (f (u0 0) (u1 1) (u2 2) (u3 3)))) (hkey : KeyAt rk k key) (s : State) :
    encryptRound col rk (words s) k
      = some (words ((of fun r c => f (s 0 c) (s 1 (c + 1)) (s 2 (c + 2)) (s 3 (c + 3)) r)
        + key)) := by
  have h0 : rk[k]? = some (word fun r => key r 0) := hkey 0
  have h1 : rk[k + 1]? = some (word fun r => key r 1) := hkey 1
  have h2 : rk[k + 2]? = some (word fun r => key r 2) := hkey 2
  have h3 : rk[k + 3]? = some (word fun r => key r 3) := hkey 3
  unfold encryptRound words
  rw [hcol, hcol, hcol, hcol, h0, h1, h2, h3]
  show some (Words.mk (word _ ^^^ word _) (word _ ^^^ word _) (word _ ^^^ word _)
    (word _ ^^^ word _)) = _
  rw [word_xor, word_xor, word_xor, word_xor]
  rfl

theorem decryptRound_words
    (hcol : ∀ u0 u1 u2 u3, col (word u0) (word u1) (word u2) (word u3)
      = some (word (f (u0 0) (u1 1) (u2 2) (u3 3)))) (hkey : KeyAt rk k key) (s : State) :
    decryptRound col rk (words s) k
      = some (words ((of fun r c => f (s 0 c) (s 1 (c - 1)) (s 2 (c - 2)) (s 3 (c - 3)) r)
        + key)) := by
  have h0 : rk[k]? = some (word fun r => key r 0) := hkey 0
  have h1 : rk[k + 1]? = some (word fun r => key r 1) := hkey 1
  have h2 : rk[k + 2]? = some (word fun r => key r 2) := hkey 2
  have h3 : rk[k + 3]? = some (word fun r => key r 3) := hkey 3
  unfold decryptRound words
  rw [hcol, hcol, hcol, hcol, h0, h1, h2, h3]
  show some (Words.mk (word _ ^^^ word _) (word _ ^^^ word _) (word _ ^^^ word _)
    (word _ ^^^ word _)) = _
  rw [word_xor, word_xor, word_xor, word_xor]
  rfl

/-- **A round of the code is a round of AES.** -/
theorem encryptRound_eq (hkey : KeyAt rk k key) (s : State) :
    encryptRound (column Te) rk (words s) k = some (words (aes.round s key)) := by
  rw [encryptRound_words (column_word holds_Te) hkey]
  refine congrArg (fun x => some (words (x + key))) ?_
  ext1 r c
  show _ = (mixMatrix * shiftRows (subBytes s)) r c
  rw [mul_apply, Fin.sum_univ_four]
  show _ = mixMatrix r 0 * subByte (s 0 (c + 0)) + _ + _ + _
  rw [add_zero]
  rfl

theorem encryptRound_last (hkey : KeyAt rk k key) (s : State) :
    encryptRound (lastColumn Te) rk (words s) k = some (words (aes.lastRound s key)) := by
  rw [encryptRound_words (lastColumn_word holds_Te) hkey]
  refine congrArg (fun x => some (words (x + key))) ?_
  ext1 r c
  show _ = subByte (s r (c + r))
  fin_cases r
  · show subByte (s 0 c) = subByte (s 0 (c + 0))
    rw [add_zero]
  all_goals rfl

/-- **A round of decryption is a round of the inverse of AES.** -/
theorem decryptRound_eq (hkey : KeyAt rk k key) (s : State) :
    decryptRound (column Td) rk (words s) k = some (words (aes.inverse.round s key)) := by
  rw [decryptRound_words (column_word holds_Td) hkey]
  refine congrArg (fun x => some (words (x + key))) ?_
  ext1 r c
  show _ = (unmixMatrix * shiftRows.symm (subBytes.symm s)) r c
  rw [mul_apply, Fin.sum_univ_four]
  show _ = unmixMatrix r 0 * subByte.symm (s 0 (c - 0)) + _ + _ + _
  rw [sub_zero]
  rfl

theorem decryptRound_last (hkey : KeyAt rk k key) (s : State) :
    decryptRound (lastColumn Td) rk (words s) k = some (words (aes.inverse.lastRound s key)) := by
  rw [decryptRound_words (lastColumn_word holds_Td) hkey]
  refine congrArg (fun x => some (words (x + key))) ?_
  ext1 r c
  show _ = subByte.symm (s r (c - r))
  fin_cases r
  · show subByte.symm (s 0 c) = subByte.symm (s 0 (c - 0))
    rw [sub_zero]
  all_goals rfl

/-! ## Blocks -/

theorem firstWords_eq (hkey : KeyAt rk 0 key) (b : AES.Block) :
    firstWords rk b.bytes = some (words (ofBlock b + key)) := by
  have hget : ∀ c : Fin 4, getU32 b.bytes (4 * c) = some (word fun r => ofBlock b r c) := by
    intro c
    refine getU32_eq fun r => ?_
    have hlt : 4 * (c : ℕ) + r < b.bytes.length := by
      rw [b.length_bytes]
      omega
    show b.bytes[4 * (c : ℕ) + r]? = some (b.bytes.getD (4 * c + r) 0)
    rw [List.getD_eq_getElem?_getD, List.getElem?_eq_getElem hlt, Option.getD_some]
  have h0 : rk[0]? = some (word fun r => key r 0) := hkey 0
  have h1 : rk[1]? = some (word fun r => key r 1) := hkey 1
  have h2 : rk[2]? = some (word fun r => key r 2) := hkey 2
  have h3 : rk[3]? = some (word fun r => key r 3) := hkey 3
  have g0 : getU32 b.bytes 0 = some (word fun r => ofBlock b r 0) := hget 0
  have g1 : getU32 b.bytes 4 = some (word fun r => ofBlock b r 1) := hget 1
  have g2 : getU32 b.bytes 8 = some (word fun r => ofBlock b r 2) := hget 2
  have g3 : getU32 b.bytes 12 = some (word fun r => ofBlock b r 3) := hget 3
  unfold firstWords
  rw [g0, g1, g2, g3, h0, h1, h2, h3]
  show some (Words.mk (word _ ^^^ word _) (word _ ^^^ word _) (word _ ^^^ word _)
    (word _ ^^^ word _)) = _
  rw [word_xor, word_xor, word_xor, word_xor]
  rfl

theorem put_words (s : State) : (words s).put = toBlock s := by
  refine AES.Block.eq_of_bytes ?_
  show putU32 (word fun r => s r 0) ++ putU32 (word fun r => s r 1)
    ++ putU32 (word fun r => s r 2) ++ putU32 (word fun r => s r 3) = (toBlock s).bytes
  rw [putU32_word, putU32_word, putU32_word, putU32_word]
  rfl

/-- Rounds of words that are rounds of states. -/
theorem foldlM_words {round : Words → ℕ → Option Words} {L : List ℕ} (step : State → ℕ → State)
    (h : ∀ i ∈ L, ∀ s, round (words s) i = some (words (step s i))) (s : State) :
    L.foldlM round (words s) = some (words (L.foldl step s)) := by
  induction L generalizing s with
  | nil => rfl
  | cons i L ih =>
    rw [List.foldlM_cons, h i List.mem_cons_self]
    exact ih (fun j hj => h j (List.mem_cons_of_mem _ hj)) _

/-- The schedule has the words of `nr + 1` round keys. -/
def Schedule (rk : List ℕ) (w : ℕ → Column) (nr : ℕ) : Prop :=
  rk = (List.range (4 * (nr + 1))).map fun i => word (w i)

theorem Schedule.keyAt {w : ℕ → Column} {nr i : ℕ} (h : Schedule rk w nr) (hi : i ≤ nr) :
    KeyAt rk (4 * i) (roundKey w i) := by
  intro c
  have hlt : 4 * i + c < 4 * (nr + 1) := by omega
  rw [h, List.getElem?_map, List.getElem?_range hlt]
  rfl

theorem unrolled_eq {nr : ℕ} (h : nr = 10 ∨ nr = 12 ∨ nr = 14) : unrolled nr = nr - 1 := by
  rcases h with rfl | rfl | rfl
  all_goals rfl

variable {w : ℕ → Column} {nr : ℕ}

/-- **Encryption is the cipher** with the round keys of the schedule. -/
theorem rijndaelEncrypt_eq (hnr : nr = 10 ∨ nr = 12 ∨ nr = 14) (h : Schedule rk w nr)
    (b : AES.Block) :
    rijndaelEncrypt rk nr b = some (toBlock (cipher aes w nr (ofBlock b))) := by
  unfold rijndaelEncrypt
  rw [firstWords_eq (h.keyAt (Nat.zero_le nr))]
  rw [Option.bind_eq_bind, Option.bind_some]
  rw [unrolled_eq hnr, foldlM_words (fun s i => aes.round s (roundKey w (i + 1)))
    fun i hi s => encryptRound_eq (h.keyAt (by rw [List.mem_range] at hi; omega)) s,
    Option.bind_some]
  rw [encryptRound_last (h.keyAt le_rfl), Option.bind_some]
  show some (words _).put = _
  rw [put_words, cipher, KeyAlternating.crypt, List.foldl_map]

/-- **Decryption is the inverse cipher** with the round keys of the schedule. -/
theorem rijndaelDecrypt_eq (hnr : nr = 10 ∨ nr = 12 ∨ nr = 14) (h : Schedule rk w nr)
    (b : AES.Block) :
    rijndaelDecrypt rk nr b = some (toBlock (cipher aes.inverse w nr (ofBlock b))) := by
  unfold rijndaelDecrypt
  rw [firstWords_eq (h.keyAt (Nat.zero_le nr))]
  rw [Option.bind_eq_bind, Option.bind_some]
  rw [unrolled_eq hnr, foldlM_words (fun s i => aes.inverse.round s (roundKey w (i + 1)))
    fun i hi s => decryptRound_eq (h.keyAt (by rw [List.mem_range] at hi; omega)) s,
    Option.bind_some]
  rw [decryptRound_last (h.keyAt le_rfl), Option.bind_some]
  show some (words _).put = _
  rw [put_words, cipher, KeyAlternating.crypt, List.foldl_map]

end Rijndael
