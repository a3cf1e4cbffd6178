import QService.BufferMgr
import QService.Chunks

/-!
# `CRSA`

A text is encrypted piece by piece. A block that a key of `b` bits encrypts has
`(b + 7) / 8` bytes, and of these at most 11 fewer are text, so the encrypting loop
goes through the text in steps of `(b + 7) / 8 - 11` and the decrypting one
in steps of `(b + 7) / 8`. As every piece is encrypted to a whole block, the second
loop cuts where the first one pushed (`blockLoop_round_trip`), and
decrypting with the other half of the key gives back the text (`decrypt_encrypt`).

The encryption of one block, and the random numbers it draws, are a parameter.
-/

/-- The block functions, which return what they write if they return `ID_OK`, and the fields of
their keys that the code reads. -/
structure RSAEuro where
  PublicKey : Type
  PrivateKey : Type
  Random : Type
  publicBits : PublicKey → ℕ
  privateBits : PrivateKey → ℕ
  publicEncrypt : List UInt8 → PublicKey → Random → Option (List UInt8) × Random
  privateEncrypt : List UInt8 → PrivateKey → Option (List UInt8)
  publicDecrypt : List UInt8 → PublicKey → Option (List UInt8)
  privateDecrypt : List UInt8 → PrivateKey → Option (List UInt8)

namespace RSAEuro

/-- **The two halves of a key of `b` bits.** A text that is not empty and short enough is encrypted
to a block by either half, by the public one if there are random numbers, and the other half
decrypts it. -/
structure KeyPair (E : RSAEuro) (b : ℕ) where
  publicKey : E.PublicKey
  privateKey : E.PrivateKey
  publicBits_eq : E.publicBits publicKey = b
  privateBits_eq : E.privateBits privateKey = b
  seeded : E.Random → Prop
  public_private : ∀ piece : List UInt8, piece ≠ [] → piece.length ≤ b ⌈/⌉ 8 - 11 →
    ∀ random, seeded random →
    ∃ out random', E.publicEncrypt piece publicKey random = (some out, random') ∧ seeded random'
      ∧ out.length = b ⌈/⌉ 8 ∧ E.privateDecrypt out privateKey = some piece
  private_public : ∀ piece : List UInt8, piece ≠ [] → piece.length ≤ b ⌈/⌉ 8 - 11 →
    ∃ out, E.privateEncrypt piece privateKey = some out
      ∧ out.length = b ⌈/⌉ 8 ∧ E.publicDecrypt out publicKey = some piece

end RSAEuro

/-- A `CRSAKey`. -/
structure RSAKey (E : RSAEuro) where
  publicKey : E.PublicKey
  privateKey : E.PrivateKey
  random : E.Random

/-- `RSAEncryptType` and `RSADecryptType`: the half of the key. -/
inductive RSAType
  | publicKey
  | privateKey
  deriving DecidableEq, Repr

namespace RSA

open Chunks

variable {E : RSAEuro} (heap : List UInt8 → ℕ → UInt8)

/-! ## The code -/

/-- The length in bits of a half of the key, an `unsigned short`. -/
def keyBits (key : RSAKey E) : RSAType → ℕ
  | .publicKey => E.publicBits key.publicKey
  | .privateKey => E.privateBits key.privateKey

/-- `iStep` of `RSADecrypt`. -/
def decryptStep (bits : ℕ) : ℕ := (bits + 7) / 8

/-- `iStep` of `RSAEncrypt`: an `int` in an `unsigned int`. -/
def encryptStep (bits : ℕ) : ℕ := (((((bits + 7) / 8 : ℕ) : ℤ) - 11) % 2 ^ 32).toNat

/-- Both loops, with the pieces they go through: each is encrypted or decrypted and pushed, until
one fails. -/
def blockLoop {S : Type} (crypt : List UInt8 → S → Option (List UInt8) × S) :
    List (List UInt8) → S → Buffer → Bool × S × Buffer
  | [], s, B => (true, s, B)
  | piece :: pieces, s, B =>
    match crypt piece s with
    | (none, s) => (false, s, B)
    | (some out, s) => blockLoop crypt pieces s (B.pushBuff heap (some out) out.length)

/-- What a round of `RSAEncrypt` calls. -/
def encryptBlock (emEnType : RSAType) (key : RSAKey E) (piece : List UInt8) (random : E.Random) :
    Option (List UInt8) × E.Random :=
  match emEnType with
  | .publicKey => E.publicEncrypt piece key.publicKey random
  | .privateKey => (E.privateEncrypt piece key.privateKey, random)

/-- What a round of `RSADecrypt` calls. -/
def decryptBlock (emEnType : RSAType) (key : RSAKey E) (piece : List UInt8) (random : E.Random) :
    Option (List UInt8) × E.Random :=
  match emEnType with
  | .publicKey => (E.publicDecrypt piece key.publicKey, random)
  | .privateKey => (E.privateDecrypt piece key.privateKey, random)

/-- `CRSA::RSAEncrypt`: what the pointer and `iOutLens` give, or NULL. -/
def rsaEncrypt (emEnType : RSAType) (pszData : List UInt8) (key : RSAKey E) (B : Buffer) :
    Option (List UInt8) × RSAKey E × Buffer :=
  let iStep := encryptStep (keyBits key emEnType)
  let (iRtn, random, B) :=
    blockLoop heap (encryptBlock emEnType key) (chunks iStep pszData) key.random B.reSet
  (if iRtn then some B.contents else none, { key with random := random }, B)

/-- `CRSA::RSADecrypt`. -/
def rsaDecrypt (emEnType : RSAType) (pszData : List UInt8) (key : RSAKey E) (B : Buffer) :
    Option (List UInt8) × RSAKey E × Buffer :=
  let iStep := decryptStep (keyBits key emEnType)
  let (iRtn, random, B) :=
    blockLoop heap (decryptBlock emEnType key) (chunks iStep pszData) key.random B.reSet
  (if iRtn then some B.contents else none, { key with random := random }, B)

/-- `CRSA::publicKeyEncrypt`. -/
def publicKeyEncrypt (pszData : List UInt8) (key : RSAKey E) (B : Buffer) :
    Option (List UInt8) × RSAKey E × Buffer := rsaEncrypt heap .publicKey pszData key B

/-- `CRSA::privateKeyEncrypt`. -/
def privateKeyEncrypt (pszData : List UInt8) (key : RSAKey E) (B : Buffer) :
    Option (List UInt8) × RSAKey E × Buffer := rsaEncrypt heap .privateKey pszData key B

/-- `CRSA::publicKeyDecrypt`. -/
def publicKeyDecrypt (pszData : List UInt8) (key : RSAKey E) (B : Buffer) :
    Option (List UInt8) × RSAKey E × Buffer := rsaDecrypt heap .publicKey pszData key B

/-- `CRSA::privateKeyDecrypt`. -/
def privateKeyDecrypt (pszData : List UInt8) (key : RSAKey E) (B : Buffer) :
    Option (List UInt8) × RSAKey E × Buffer := rsaDecrypt heap .privateKey pszData key B

/-! ## The loops -/

theorem decryptStep_eq (b : ℕ) : decryptStep b = b ⌈/⌉ 8 := (Nat.ceilDiv_eq_add_pred_div b 8).symm

/-- For the keys that `creatKey` makes the difference does not wrap. -/
theorem encryptStep_eq {b : ℕ} (hb : 512 ≤ b) (hb' : b ≤ 1024) : encryptStep b = b ⌈/⌉ 8 - 11 := by
  rw [encryptStep, Nat.ceilDiv_eq_add_pred_div]
  omega

section Loop

variable {S : Type} {crypt : List UInt8 → S → Option (List UInt8) × S}

/-- A piece that is done. -/
theorem blockLoop_cons {piece out : List UInt8} {s s' : S} (h : crypt piece s = (some out, s'))
    (pieces : List (List UInt8)) (B : Buffer) :
    blockLoop heap crypt (piece :: pieces) s B
      = blockLoop heap crypt pieces s' (B.pushBuff heap (some out) out.length) := by
  rw [blockLoop, h]

theorem contents_push (B : Buffer) (out : List UInt8) :
    (B.pushBuff heap (some out) out.length).contents = B.contents ++ out := by
  rw [Buffer.contents_pushBuff]
  exact congrArg (B.contents ++ ·) List.take_length

/-- **A loop in which no piece fails** pushes a block for each piece. -/
theorem blockLoop_of_forall {inv : S → Prop} {made : List UInt8 → List UInt8 → Prop}
    {pieces : List (List UInt8)}
    (h : ∀ piece ∈ pieces, ∀ s, inv s → ∃ out s', crypt piece s = (some out, s') ∧ inv s'
      ∧ made piece out) {s : S} (hs : inv s) (B : Buffer) :
    ∃ outs s' B', blockLoop heap crypt pieces s B = (true, s', B')
      ∧ B'.contents = B.contents ++ outs.flatten ∧ List.Forall₂ made pieces outs := by
  induction pieces generalizing s B with
  | nil => exact ⟨[], s, B, rfl, (List.append_nil _).symm, .nil⟩
  | cons piece pieces ih =>
    rw [List.forall_mem_cons] at h
    obtain ⟨out, s', hcrypt, hs', hmade⟩ := h.1 s hs
    obtain ⟨outs, s'', B', hloop, hcontents, hall⟩ :=
      ih h.2 hs' (B.pushBuff heap (some out) out.length)
    refine ⟨out :: outs, s'', B', ?_, ?_, .cons hmade hall⟩
    · rw [blockLoop_cons heap hcrypt, hloop]
    · rw [hcontents, contents_push, List.flatten_cons, List.append_assoc]

/-- The loop that undoes it. -/
theorem blockLoop_of_forall₂ {pieces outs : List (List UInt8)} {s : S}
    (h : List.Forall₂ (fun piece out => crypt piece s = (some out, s)) pieces outs) (B : Buffer) :
    ∃ B', blockLoop heap crypt pieces s B = (true, s, B')
      ∧ B'.contents = B.contents ++ outs.flatten := by
  induction h generalizing B with
  | nil => exact ⟨B, rfl, (List.append_nil _).symm⟩
  | @cons piece out pieces outs hcrypt _ ih =>
    obtain ⟨B', hloop, hcontents⟩ := ih (B.pushBuff heap (some out) out.length)
    refine ⟨B', ?_, ?_⟩
    · rw [blockLoop_cons heap hcrypt, hloop]
    · rw [hcontents, contents_push, List.flatten_cons, List.append_assoc]

end Loop

/-- **The second loop cuts where the first one pushed.** -/
theorem blockLoop_round_trip {S T : Type} (crypt : List UInt8 → S → Option (List UInt8) × S)
    (decrypt : List UInt8 → T → Option (List UInt8) × T) {inv : S → Prop} {n k : ℕ} (hn : 0 < n)
    (hk : 0 < k) {t : T}
    (h : ∀ piece : List UInt8, piece ≠ [] → piece.length ≤ n → ∀ s, inv s →
      ∃ out s', crypt piece s = (some out, s') ∧ inv s' ∧ out.length = k
        ∧ decrypt out t = (some piece, t))
    {s : S} (hs : inv s) (B C : Buffer) (d : List UInt8) (heap' : List UInt8 → ℕ → UInt8) :
    ∃ c s' B', blockLoop heap crypt (chunks n d) s B = (true, s', B')
      ∧ B'.contents = B.contents ++ c ∧ c.length = d.length ⌈/⌉ n * k
      ∧ ∃ C', blockLoop heap' decrypt (chunks k c) t C = (true, t, C')
        ∧ C'.contents = C.contents ++ d := by
  obtain ⟨outs, s', B', hloop, hcontents, hall⟩ :=
    blockLoop_of_forall heap (fun piece hpiece => h piece (length_of_mem_chunks hn hpiece).2
      (length_of_mem_chunks hn hpiece).1) hs B
  obtain ⟨hfull, hback⟩ := (List.forall₂_and_left (l := outs) (u := chunks n d)).mp hall.flip
  refine ⟨outs.flatten, s', B', hloop, hcontents, ?_, ?_⟩
  · rw [length_flatten_of_length hfull, ← hall.length_eq, length_chunks hn]
  · obtain ⟨C', hdecrypt, hC'⟩ := blockLoop_of_forall₂ heap' hback C
    rw [chunks_flatten hk hfull]
    rw [flatten_chunks hn] at hC'
    exact ⟨C', hdecrypt, hC'⟩

/-! ## The keys -/

section Keys

variable {b : ℕ} {key key' : RSAKey E}

/-- **What is encrypted is decrypted**, if that holds of a block. -/
theorem rsaDecrypt_rsaEncrypt (hb : 512 ≤ b) (hb' : b ≤ 1024) {emEnType emDeType : RSAType}
    (hbits : keyBits key emEnType = b) (hbits' : keyBits key' emDeType = b)
    (inv : E.Random → Prop)
    (h : ∀ piece : List UInt8, piece ≠ [] → piece.length ≤ b ⌈/⌉ 8 - 11 → ∀ random, inv random →
      ∃ out random', encryptBlock emEnType key piece random = (some out, random') ∧ inv random'
        ∧ out.length = b ⌈/⌉ 8
        ∧ decryptBlock emDeType key' out key'.random = (some piece, key'.random))
    (hinv : inv key.random) (heap' : List UInt8 → ℕ → UInt8) (B C : Buffer) (d : List UInt8) :
    ∃ c, (rsaEncrypt heap emEnType d key B).1 = some c
      ∧ c.length = d.length ⌈/⌉ (b ⌈/⌉ 8 - 11) * (b ⌈/⌉ 8)
      ∧ (rsaDecrypt heap' emDeType c key' C).1 = some d := by
  have hceil : 64 ≤ b ⌈/⌉ 8 := by
    rw [Nat.ceilDiv_eq_add_pred_div]
    omega
  obtain ⟨c, random, B', hloop, hcontents, hlen, C', hdecrypt, hC'⟩ :=
    blockLoop_round_trip heap _ _ (by omega) (by omega) h hinv B.reSet C.reSet d heap'
  refine ⟨c, ?_, hlen, ?_⟩
  · rw [rsaEncrypt, hbits, encryptStep_eq hb hb']
    dsimp only
    rw [hloop]
    exact congrArg some hcontents
  · rw [rsaDecrypt, hbits', decryptStep_eq]
    dsimp only
    rw [hdecrypt]
    exact congrArg some hC'

/-- **Either half of a key decrypts what the other one has encrypted**, for a text of any length and
whatever the buffers hold, and each piece of the text becomes a block. -/
theorem decrypt_encrypt (hb : 512 ≤ b) (hb' : b ≤ 1024) (P : E.KeyPair b)
    (hpublic : key.publicKey = P.publicKey) (hseeded : P.seeded key.random)
    (hprivate : key'.privateKey = P.privateKey) (heap' : List UInt8 → ℕ → UInt8) (B C : Buffer)
    (d : List UInt8) :
    (∃ c, (publicKeyEncrypt heap d key B).1 = some c
        ∧ c.length = d.length ⌈/⌉ (b ⌈/⌉ 8 - 11) * (b ⌈/⌉ 8)
        ∧ (privateKeyDecrypt heap' c key' C).1 = some d)
      ∧ ∃ c, (privateKeyEncrypt heap' d key' C).1 = some c
        ∧ c.length = d.length ⌈/⌉ (b ⌈/⌉ 8 - 11) * (b ⌈/⌉ 8)
        ∧ (publicKeyDecrypt heap c key B).1 = some d := by
  have hbits : keyBits key .publicKey = b := (congrArg E.publicBits hpublic).trans P.publicBits_eq
  have hbits' : keyBits key' .privateKey = b :=
    (congrArg E.privateBits hprivate).trans P.privateBits_eq
  constructor
  · refine rsaDecrypt_rsaEncrypt heap hb hb' hbits hbits' P.seeded ?_ hseeded heap' B C d
    intro piece hne hpiece random hrandom
    obtain ⟨out, random', hout, hrandom', hlen, hback⟩ :=
      P.public_private piece hne hpiece random hrandom
    refine ⟨out, random', ?_, hrandom', hlen, ?_⟩
    · rw [encryptBlock, hpublic, hout]
    · rw [decryptBlock, hprivate, hback]
  · refine rsaDecrypt_rsaEncrypt heap' hb hb' hbits' hbits (fun _ => True) ?_ trivial heap C B d
    intro piece hne hpiece random _
    obtain ⟨out, hout, hlen, hback⟩ := P.private_public piece hne hpiece
    refine ⟨out, random, ?_, trivial, hlen, ?_⟩
    · rw [encryptBlock, hprivate, hout]
    · rw [decryptBlock, hpublic, hback]

end Keys

/-! ## The padding alone -/

/-- A block: its type, bytes that are not zero, a zero and the text. -/
def block (kind fill : UInt8) (lens : ℕ) (piece : List UInt8) : List UInt8 :=
  0 :: kind :: (List.replicate (lens - 3 - piece.length) fill ++ 0 :: piece)

/-- The text of a block of a type. -/
def unblock (kind : UInt8) : List UInt8 → Option (List UInt8)
  | 0 :: k :: rest => if k = kind then some ((rest.dropWhile (· ≠ 0)).drop 1) else none
  | _ => none

theorem unblock_block (kind : UInt8) {fill : UInt8} (hfill : fill ≠ 0) (lens : ℕ)
    (piece : List UInt8) :
    unblock kind (block kind fill lens piece) = some piece := by
  have hdrop : (List.replicate (lens - 3 - piece.length) fill ++ 0 :: piece).dropWhile (· ≠ 0)
      = 0 :: piece := by
    rw [List.dropWhile_append_of_pos, List.dropWhile_cons_of_neg (by decide)]
    intro c hc
    rw [List.eq_of_mem_replicate hc]
    exact decide_eq_true hfill
  rw [block, unblock, if_pos rfl, hdrop]
  rfl

theorem length_block {lens : ℕ} {piece : List UInt8} (h : piece.length + 11 ≤ lens)
    (kind fill : UInt8) : (block kind fill lens piece).length = lens := by
  simp only [block, List.length_cons, List.length_append, List.length_replicate]
  omega

/-- The exponents of this key are 1, so a block is encrypted to itself. A key is its number of
bits, and all that the random numbers say is if there are some. -/
def exponentOne : RSAEuro where
  PublicKey := ℕ
  PrivateKey := ℕ
  Random := Bool
  publicBits := id
  privateBits := id
  publicEncrypt piece bits random :=
    (if piece.length + 11 ≤ (bits + 7) / 8 ∧ random then some (block 2 1 ((bits + 7) / 8) piece)
      else none, random)
  privateEncrypt piece bits :=
    if piece.length + 11 ≤ (bits + 7) / 8 then some (block 1 0xFF ((bits + 7) / 8) piece)
    else none
  publicDecrypt out _ := unblock 1 out
  privateDecrypt out _ := unblock 2 out

/-- A key of 516 bits. -/
def exponentOnePair : exponentOne.KeyPair 516 where
  publicKey := (516 : ℕ)
  privateKey := (516 : ℕ)
  publicBits_eq := rfl
  privateBits_eq := rfl
  seeded random := random = true
  public_private piece _ hpiece random hrandom := by
    have hlen : piece.length + 11 ≤ 65 := Nat.add_le_of_le_sub (by decide) hpiece
    have hfill : (1 : UInt8) ≠ 0 := by decide
    refine ⟨block 2 1 65 piece, random, ?_, hrandom, length_block hlen 2 1,
      unblock_block 2 hfill 65 piece⟩
    exact congrArg (·, random) (if_pos ⟨hlen, hrandom⟩)
  private_public piece _ hpiece := by
    have hlen : piece.length + 11 ≤ 65 := Nat.add_le_of_le_sub (by decide) hpiece
    have hfill : (0xFF : UInt8) ≠ 0 := by decide
    exact ⟨block 1 0xFF 65 piece, if_pos hlen, length_block hlen 1 0xFF,
      unblock_block 1 hfill 65 piece⟩

/-- With 65 bytes to a block, 55 bytes of text need two blocks. -/
theorem decrypt_encrypt_two :
    let key : RSAKey exponentOne := ⟨(516 : ℕ), (516 : ℕ), true⟩
    let B : Buffer := ⟨[], 0, le_rfl⟩
    let d := List.replicate 55 7
    ∃ c, (publicKeyEncrypt (fun _ _ => 0) d key B).1 = some c ∧ c.length = 130
      ∧ (privateKeyDecrypt (fun _ _ => 0) c key B).1 = some d := by
  intro key B d
  have hpublic : key.publicKey = exponentOnePair.publicKey := rfl
  have hprivate : key.privateKey = exponentOnePair.privateKey := rfl
  obtain ⟨⟨c, hencrypt, hlen, hdecrypt⟩, -⟩ := decrypt_encrypt (fun _ _ => 0) (by decide)
    (by decide) exponentOnePair hpublic rfl hprivate (fun _ _ => 0) B B d
  refine ⟨c, hencrypt, ?_, hdecrypt⟩
  rw [hlen, List.length_replicate, Nat.ceilDiv_eq_add_pred_div, Nat.ceilDiv_eq_add_pred_div]

end RSA
