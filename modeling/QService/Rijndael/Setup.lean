import QService.Rijndael.Blocks

/-!
# `rijndaelSetupEncrypt` and `rijndaelSetupDecrypt`

The schedule for encryption is written word by word, by a loop for each length of the key. Its words
are those of the key expansion (`rijndaelSetupEncrypt_eq`). For decryption its round
keys are put in inverse order, and those in the middle are mixed back, with
the tables of both directions (`rijndaelSetupDecrypt_eq`).

So the code is AES (`encrypt_eq_aes`), and decryption undoes encryption, with every key of each of
the three lengths: what is assumed of the cipher of a block elsewhere is so for that of the
code (`lawful_rijndael`).
-/

namespace Rijndael

open Matrix

/-! ## The code -/

/-- The next word is `rk[i] ^ rk[j]`. -/
def xorWord (rk : List ℕ) (i j : ℕ) : Option (List ℕ) := do
  return rk ++ [(← rk[i]?) ^^^ (← rk[j]?)]

/-- The next word, with `temp = rk[j]` turned and substituted and with `rcon[k]`. -/
def turnWord (rk : List ℕ) (i j k : ℕ) : Option (List ℕ) := do
  let temp ← rk[j]?
  return rk ++ [(← rk[i]?)
    ^^^ ((← Te4[(temp >>> 16) &&& 0xff]?) &&& 0xff000000)
    ^^^ ((← Te4[(temp >>> 8) &&& 0xff]?) &&& 0x00ff0000)
    ^^^ ((← Te4[temp &&& 0xff]?) &&& 0x0000ff00)
    ^^^ ((← Te4[temp >>> 24]?) &&& 0x000000ff)
    ^^^ (← rcon[k]?)]

/-- The next word, with `temp = rk[j]` substituted. -/
def substWord (rk : List ℕ) (i j : ℕ) : Option (List ℕ) := do
  let temp ← rk[j]?
  return rk ++ [(← rk[i]?)
    ^^^ ((← Te4[temp >>> 24]?) &&& 0xff000000)
    ^^^ ((← Te4[(temp >>> 16) &&& 0xff]?) &&& 0x00ff0000)
    ^^^ ((← Te4[(temp >>> 8) &&& 0xff]?) &&& 0x0000ff00)
    ^^^ ((← Te4[temp &&& 0xff]?) &&& 0x000000ff)]

/-- A round of the loop for a key of 128 bits. The pointer `rk` is at the word `4 * i`. -/
def expand128 (rk : List ℕ) (i : ℕ) : Option (List ℕ) := do
  let b := 4 * i
  let rk ← turnWord rk b (b + 3) i
  let rk ← xorWord rk (b + 1) (b + 4)
  let rk ← xorWord rk (b + 2) (b + 5)
  xorWord rk (b + 3) (b + 6)

/-- A round of the loop for a key of 192 bits. -/
def expand192 (rk : List ℕ) (i : ℕ) : Option (List ℕ) := do
  let b := 6 * i
  let rk ← turnWord rk b (b + 5) i
  let rk ← xorWord rk (b + 1) (b + 6)
  let rk ← xorWord rk (b + 2) (b + 7)
  let rk ← xorWord rk (b + 3) (b + 8)
  if i + 1 = 8 then return rk
  let rk ← xorWord rk (b + 4) (b + 9)
  xorWord rk (b + 5) (b + 10)

/-- A round of the loop for a key of 256 bits. -/
def expand256 (rk : List ℕ) (i : ℕ) : Option (List ℕ) := do
  let b := 8 * i
  let rk ← turnWord rk b (b + 7) i
  let rk ← xorWord rk (b + 1) (b + 8)
  let rk ← xorWord rk (b + 2) (b + 9)
  let rk ← xorWord rk (b + 3) (b + 10)
  if i + 1 = 7 then return rk
  let rk ← substWord rk (b + 4) (b + 11)
  let rk ← xorWord rk (b + 5) (b + 12)
  let rk ← xorWord rk (b + 6) (b + 13)
  xorWord rk (b + 7) (b + 14)

/-- `rijndaelSetupEncrypt`: the schedule and the number of rounds. -/
def rijndaelSetupEncrypt (key : List UInt8) (keybits : ℕ) : Option (List ℕ × ℕ) := do
  let rk := [← getU32 key 0, ← getU32 key 4, ← getU32 key 8, ← getU32 key 12]
  if keybits = 128 then return (← (List.range 10).foldlM expand128 rk, 10)
  let rk := rk ++ [← getU32 key 16, ← getU32 key 20]
  if keybits = 192 then return (← (List.range 8).foldlM expand192 rk, 12)
  let rk := rk ++ [← getU32 key 24, ← getU32 key 28]
  if keybits = 256 then return (← (List.range 7).foldlM expand256 rk, 14)
  return (rk, 0)

def swapWords (rk : List ℕ) (i j : ℕ) : Option (List ℕ) := do
  let temp ← rk[i]?
  return (rk.set i (← rk[j]?)).set j temp

/-- The loop that inverts the order of the round keys. -/
def reverseKeys (rk : List ℕ) (i j : ℕ) : Option (List ℕ) :=
  if i < j then do
    let rk ← swapWords rk i j
    let rk ← swapWords rk (i + 1) (j + 1)
    let rk ← swapWords rk (i + 2) (j + 2)
    let rk ← swapWords rk (i + 3) (j + 3)
    reverseKeys rk (i + 4) (j - 4)
  else some rk
termination_by j - i

/-- A word is mixed back. -/
def mixWord (rk : List ℕ) (k : ℕ) : Option (List ℕ) := do
  let v ← rk[k]?
  return rk.set k ((← Td0[(← Te4[v >>> 24]?) &&& 0xff]?)
    ^^^ (← Td1[(← Te4[(v >>> 16) &&& 0xff]?) &&& 0xff]?)
    ^^^ (← Td2[(← Te4[(v >>> 8) &&& 0xff]?) &&& 0xff]?)
    ^^^ (← Td3[(← Te4[v &&& 0xff]?) &&& 0xff]?))

/-- A round of the last loop. The pointer `rk` is at the word `4 * i`. -/
def mixKey (rk : List ℕ) (i : ℕ) : Option (List ℕ) := do
  let rk ← mixWord rk (4 * i)
  let rk ← mixWord rk (4 * i + 1)
  let rk ← mixWord rk (4 * i + 2)
  mixWord rk (4 * i + 3)

/-- `rijndaelSetupDecrypt`. -/
def rijndaelSetupDecrypt (key : List UInt8) (keybits : ℕ) : Option (List ℕ × ℕ) := do
  let (rk, nrounds) ← rijndaelSetupEncrypt key keybits
  let rk ← reverseKeys rk 0 (4 * nrounds)
  let rk ← (List.range (nrounds - 1)).foldlM (fun rk i => mixKey rk (i + 1)) rk
  return (rk, nrounds)

/-- The value of the type is the length of the key in bits. -/
def keybits : AESKeyType → ℕ
  | .keyNone => 0
  | .key128 => 128
  | .key192 => 192
  | .key256 => 256

/-- The cipher of a block, with the keys that `setKey` makes. Where there is no schedule, as
without a key, a block stays as it is. -/
def rijndael : AES.Rijndael where
  RK := Option (List ℕ × ℕ)
  setupEncrypt key emKeyType := rijndaelSetupEncrypt (AES.keyText key emKeyType) (keybits emKeyType)
  setupDecrypt key emKeyType := rijndaelSetupDecrypt (AES.keyText key emKeyType) (keybits emKeyType)
  encrypt rk plain := (rk.bind fun rk => rijndaelEncrypt rk.1 rk.2 plain).getD plain
  decrypt rk cipher := (rk.bind fun rk => rijndaelDecrypt rk.1 rk.2 cipher).getD cipher

/-! ## Words of a schedule -/

/-- A schedule of so many words. -/
def wordsTo (w : ℕ → Column) (n : ℕ) : List ℕ := (List.range n).map fun i => word (w i)

variable {w : ℕ → Column} {n i j k : ℕ}

theorem getElem?_wordsTo (h : i < n) : (wordsTo w n)[i]? = some (word (w i)) := by
  rw [wordsTo, List.getElem?_map, List.getElem?_range h]
  rfl

theorem wordsTo_succ (w : ℕ → Column) (n : ℕ) :
    wordsTo w (n + 1) = wordsTo w n ++ [word (w n)] := by
  rw [wordsTo, List.range_succ, List.map_append]
  rfl

theorem getElem?_Te4 (a : GF256) : Te4[a.bits.toNat]? = some (word fun _ => subByte a) :=
  holds_Te.t4 a

theorem xorWord_eq (hi : i < n) (hj : j < n) (hw : w n = w i + w j) :
    xorWord (wordsTo w n) i j = some (wordsTo w (n + 1)) := by
  unfold xorWord
  rw [getElem?_wordsTo hi, getElem?_wordsTo hj, wordsTo_succ, hw, ← word_xor]
  rfl

theorem turnWord_eq (hi : i < n) (hj : j < n) (hk : k < 10)
    (hw : w n = w i + (subWord (rotWord (w j)) + roundConstant k)) :
    turnWord (wordsTo w n) i j k = some (wordsTo w (n + 1)) := by
  have hsub : subWord (rotWord (w j))
      = ![subByte (w j 1), subByte (w j 2), subByte (w j 3), subByte (w j 0)] := by
    ext1 r
    fin_cases r
    all_goals rfl
  unfold turnWord
  rw [getElem?_wordsTo hi, getElem?_wordsTo hj, Option.bind_eq_bind, Option.bind_some,
    word_shift_16, word_shift_8, word_and, word_shift_24, getElem?_Te4, getElem?_Te4, getElem?_Te4,
    getElem?_Te4, rcon_eq hk, wordsTo_succ, hw, hsub, ← word_xor, ← word_xor, ← masked]
  refine congrArg (fun x => some (wordsTo w n ++ [x])) ?_
  simp only [Nat.xor_assoc]

theorem substWord_eq (hi : i < n) (hj : j < n) (hw : w n = w i + subWord (w j)) :
    substWord (wordsTo w n) i j = some (wordsTo w (n + 1)) := by
  have hsub : subWord (w j)
      = ![subByte (w j 0), subByte (w j 1), subByte (w j 2), subByte (w j 3)] := by
    ext1 r
    fin_cases r
    all_goals rfl
  unfold substWord
  rw [getElem?_wordsTo hi, getElem?_wordsTo hj, Option.bind_eq_bind, Option.bind_some,
    word_shift_16, word_shift_8, word_and, word_shift_24, getElem?_Te4, getElem?_Te4, getElem?_Te4,
    getElem?_Te4, wordsTo_succ, hw, hsub, ← word_xor, ← masked]
  refine congrArg (fun x => some (wordsTo w n ++ [x])) ?_
  simp only [Nat.xor_assoc]

/-! ## The key expansion -/

section Expansion

variable {nk : ℕ} (key : ℕ → Column)

theorem expanded_of_lt (h : i < nk) : expanded nk key i = key i := by
  rw [expanded, if_pos (Or.inl h)]

theorem expanded_of_le (hnk : 0 < nk) (h : nk ≤ i) :
    expanded nk key i = expanded nk key (i - nk)
      + if i % nk = 0 then
          subWord (rotWord (expanded nk key (i - 1))) + roundConstant (i / nk - 1)
        else if 6 < nk ∧ i % nk = 4 then subWord (expanded nk key (i - 1))
        else expanded nk key (i - 1) := by
  rw [expanded, if_neg (by omega)]

/-- The first word of a group. -/
theorem expanded_turn (hnk : 0 < nk) (g : ℕ) :
    expanded nk key (nk * g + nk) = expanded nk key (nk * g)
      + (subWord (rotWord (expanded nk key (nk * g + nk - 1))) + roundConstant g) := by
  have hdiv : (nk * g + nk) / nk - 1 = g := by
    rw [← Nat.mul_succ, Nat.mul_div_cancel_left _ hnk]
    rfl
  rw [expanded_of_le key hnk (Nat.le_add_left nk _),
    if_pos (by rw [← Nat.mul_succ, Nat.mul_mod_right]), Nat.add_sub_cancel, hdiv]

/-- A word in a group. -/
theorem expanded_step {r : ℕ} (hr : 0 < r) (hrk : r < nk) (h4 : nk ≤ 6 ∨ r ≠ 4) (g : ℕ) :
    expanded nk key (nk * g + nk + r) = expanded nk key (nk * g + r)
      + expanded nk key (nk * g + nk + r - 1) := by
  have hmod : (nk * g + nk + r) % nk = r := by
    rw [← Nat.mul_succ, Nat.mul_add_mod, Nat.mod_eq_of_lt hrk]
  rw [expanded_of_le key (by omega) (by omega), hmod, if_neg hr.ne', if_neg (by omega),
    show nk * g + nk + r - nk = nk * g + r by omega]

/-- The word in the middle of a long group. -/
theorem expanded_subst (hnk : 6 < nk) (g : ℕ) :
    expanded nk key (nk * g + nk + 4) = expanded nk key (nk * g + 4)
      + subWord (expanded nk key (nk * g + nk + 3)) := by
  have hmod : (nk * g + nk + 4) % nk = 4 := by
    rw [← Nat.mul_succ, Nat.mul_add_mod, Nat.mod_eq_of_lt (by omega)]
  rw [expanded_of_le key (by omega) (by omega), hmod, if_neg (by decide), if_pos ⟨hnk, rfl⟩,
    show nk * g + nk + 4 - nk = nk * g + 4 by omega]
  rfl

end Expansion

/-! ## The schedule for encryption -/

/-- A loop that can fail, from what each of its rounds makes. -/
theorem foldlM_range {α : Type} {f : α → ℕ → Option α} {a : ℕ → α} {m : ℕ}
    (h : ∀ i < m, f (a i) i = some (a (i + 1))) : (List.range m).foldlM f (a 0) = some (a m) := by
  induction m with
  | zero => rfl
  | succ m ih =>
    rw [List.range_succ, List.foldlM_append, ih fun i hi => h i (Nat.lt_succ_of_lt hi),
      Option.bind_eq_bind, Option.bind_some, List.foldlM_cons, h m (Nat.lt_succ_self m)]
    rfl

theorem getU32_keyWord {key : List UInt8} {i : ℕ} (h : 4 * i + 4 ≤ key.length) :
    getU32 key (4 * i) = some (word (keyWord key i)) := by
  refine getU32_eq fun r => ?_
  have hlt : 4 * i + (r : ℕ) < key.length := by omega
  show key[4 * i + (r : ℕ)]? = some (key.getD (4 * i + r) 0)
  rw [List.getD_eq_getElem?_getD, List.getElem?_eq_getElem hlt, Option.getD_some]

section Schedule

variable {nk : ℕ} (key : ℕ → Column)

/-- The first words of the schedule are the key. -/
theorem wordsTo_expanded :
    wordsTo (expanded nk key) nk = (List.range nk).map fun i => word (key i) :=
  List.map_congr_left fun i hi => by rw [expanded_of_lt key (List.mem_range.mp hi)]

theorem turnWord_expanded (hnk : 0 < nk) {g : ℕ} (hg : g < 10) :
    turnWord (wordsTo (expanded nk key) (nk * g + nk)) (nk * g) (nk * g + nk - 1) g
      = some (wordsTo (expanded nk key) (nk * g + nk + 1)) :=
  turnWord_eq (by omega) (by omega) hg (expanded_turn key hnk g)

theorem xorWord_expanded {r : ℕ} (hr : 0 < r ∧ r < nk ∧ (nk ≤ 6 ∨ r ≠ 4)) (g : ℕ) :
    xorWord (wordsTo (expanded nk key) (nk * g + nk + r)) (nk * g + r) (nk * g + nk + r - 1)
      = some (wordsTo (expanded nk key) (nk * g + nk + r + 1)) :=
  xorWord_eq (by omega) (by omega) (expanded_step key hr.1 hr.2.1 hr.2.2 g)

theorem substWord_expanded (hnk : 6 < nk) (g : ℕ) :
    substWord (wordsTo (expanded nk key) (nk * g + nk + 4)) (nk * g + 4) (nk * g + nk + 3)
      = some (wordsTo (expanded nk key) (nk * g + nk + 5)) :=
  substWord_eq (by omega) (by omega) (expanded_subst key hnk g)

variable {i : ℕ}

theorem expand128_eq (hi : i < 10) :
    expand128 (wordsTo (expanded 4 key) (4 * i + 4)) i
      = some (wordsTo (expanded 4 key) (4 * i + 8)) := by
  have h0 : turnWord _ (4 * i) (4 * i + 3) i = _ := turnWord_expanded key (by decide) hi
  have h1 : xorWord _ (4 * i + 1) (4 * i + 4) = _ :=
    xorWord_expanded key (r := 1) (by decide) i
  have h2 : xorWord _ (4 * i + 2) (4 * i + 5) = _ :=
    xorWord_expanded key (r := 2) (by decide) i
  have h3 : xorWord _ (4 * i + 3) (4 * i + 6) = _ :=
    xorWord_expanded key (r := 3) (by decide) i
  unfold expand128
  dsimp only
  rw [h0, Option.bind_eq_bind, Option.bind_some, h1, Option.bind_some, h2, Option.bind_some, h3]

/-- The last round of the loop makes four words. -/
theorem expand192_eq (hi : i < 8) :
    expand192 (wordsTo (expanded 6 key) (6 * i + 6)) i
      = some (wordsTo (expanded 6 key) (min (6 * i + 12) 52)) := by
  have h0 : turnWord _ (6 * i) (6 * i + 5) i = _ :=
    turnWord_expanded key (by decide) (Nat.lt_trans hi (by decide))
  have h1 : xorWord _ (6 * i + 1) (6 * i + 6) = _ :=
    xorWord_expanded key (r := 1) (by decide) i
  have h2 : xorWord _ (6 * i + 2) (6 * i + 7) = _ :=
    xorWord_expanded key (r := 2) (by decide) i
  have h3 : xorWord _ (6 * i + 3) (6 * i + 8) = _ :=
    xorWord_expanded key (r := 3) (by decide) i
  have h4 : xorWord _ (6 * i + 4) (6 * i + 9) = _ :=
    xorWord_expanded key (r := 4) (by decide) i
  have h5 : xorWord _ (6 * i + 5) (6 * i + 10) = _ :=
    xorWord_expanded key (r := 5) (by decide) i
  unfold expand192
  dsimp only
  rw [h0, Option.bind_eq_bind, Option.bind_some, h1, Option.bind_some, h2, Option.bind_some, h3,
    Option.bind_some]
  split_ifs with hlast
  · rw [show min (6 * i + 12) 52 = 6 * i + 6 + 3 + 1 by omega]
    rfl
  · rw [h4, Option.bind_some, h5, show min (6 * i + 12) 52 = 6 * i + 12 by omega]

/-- The last round makes four words here too. -/
theorem expand256_eq (hi : i < 7) :
    expand256 (wordsTo (expanded 8 key) (8 * i + 8)) i
      = some (wordsTo (expanded 8 key) (min (8 * i + 16) 60)) := by
  have h0 : turnWord _ (8 * i) (8 * i + 7) i = _ :=
    turnWord_expanded key (by decide) (Nat.lt_trans hi (by decide))
  have h1 : xorWord _ (8 * i + 1) (8 * i + 8) = _ :=
    xorWord_expanded key (r := 1) (by decide) i
  have h2 : xorWord _ (8 * i + 2) (8 * i + 9) = _ :=
    xorWord_expanded key (r := 2) (by decide) i
  have h3 : xorWord _ (8 * i + 3) (8 * i + 10) = _ :=
    xorWord_expanded key (r := 3) (by decide) i
  have h4 : substWord (wordsTo (expanded 8 key) _) (8 * i + 4) (8 * i + 11) = _ :=
    substWord_expanded key (by decide) i
  have h5 : xorWord _ (8 * i + 5) (8 * i + 12) = _ :=
    xorWord_expanded key (r := 5) (by decide) i
  have h6 : xorWord _ (8 * i + 6) (8 * i + 13) = _ :=
    xorWord_expanded key (r := 6) (by decide) i
  have h7 : xorWord _ (8 * i + 7) (8 * i + 14) = _ :=
    xorWord_expanded key (r := 7) (by decide) i
  unfold expand256
  dsimp only
  rw [h0, Option.bind_eq_bind, Option.bind_some, h1, Option.bind_some, h2, Option.bind_some, h3,
    Option.bind_some]
  split_ifs with hlast
  · rw [show min (8 * i + 16) 60 = 8 * i + 8 + 3 + 1 by omega]
    rfl
  · rw [h4, Option.bind_some, h5, Option.bind_some, h6, Option.bind_some, h7,
      show min (8 * i + 16) 60 = 8 * i + 16 by omega]

end Schedule

section Key

variable {key : List UInt8}

theorem rijndaelSetupEncrypt_128 (h : key.length = 16) :
    rijndaelSetupEncrypt key 128 = some (wordsTo (expanded 4 (keyWord key)) 44, 10) := by
  have h0 : getU32 key 0 = _ := getU32_keyWord (i := 0) (by omega)
  have h1 : getU32 key 4 = _ := getU32_keyWord (i := 1) (by omega)
  have h2 : getU32 key 8 = _ := getU32_keyWord (i := 2) (by omega)
  have h3 : getU32 key 12 = _ := getU32_keyWord (i := 3) (by omega)
  have hloop : (List.range 10).foldlM expand128 (wordsTo (expanded 4 (keyWord key)) 4) = _ :=
    foldlM_range (a := fun i => wordsTo (expanded 4 (keyWord key)) (4 * i + 4)) fun i hi =>
      expand128_eq _ hi
  have hwords : [word (keyWord key 0), word (keyWord key 1), word (keyWord key 2),
      word (keyWord key 3)] = wordsTo (expanded 4 (keyWord key)) 4 := by
    rw [wordsTo_expanded]
    rfl
  simp only [rijndaelSetupEncrypt, h0, h1, h2, h3, Option.bind_eq_bind, Option.bind_some,
    List.cons_append, List.nil_append, hwords, hloop, reduceIte]
  rfl

theorem rijndaelSetupEncrypt_192 (h : key.length = 24) :
    rijndaelSetupEncrypt key 192 = some (wordsTo (expanded 6 (keyWord key)) 52, 12) := by
  have h0 : getU32 key 0 = _ := getU32_keyWord (i := 0) (by omega)
  have h1 : getU32 key 4 = _ := getU32_keyWord (i := 1) (by omega)
  have h2 : getU32 key 8 = _ := getU32_keyWord (i := 2) (by omega)
  have h3 : getU32 key 12 = _ := getU32_keyWord (i := 3) (by omega)
  have h4 : getU32 key 16 = _ := getU32_keyWord (i := 4) (by omega)
  have h5 : getU32 key 20 = _ := getU32_keyWord (i := 5) (by omega)
  have hloop : (List.range 8).foldlM expand192 (wordsTo (expanded 6 (keyWord key)) 6) = _ :=
    foldlM_range (a := fun i => wordsTo (expanded 6 (keyWord key)) (min (6 * i + 6) 52))
      fun i hi => by
        rw [show min (6 * i + 6) 52 = 6 * i + 6 by omega]
        exact expand192_eq _ hi
  have hwords : [word (keyWord key 0), word (keyWord key 1), word (keyWord key 2),
      word (keyWord key 3), word (keyWord key 4), word (keyWord key 5)]
        = wordsTo (expanded 6 (keyWord key)) 6 := by
    rw [wordsTo_expanded]
    rfl
  simp only [rijndaelSetupEncrypt, h0, h1, h2, h3, h4, h5, Option.bind_eq_bind, Option.bind_some,
    List.cons_append, List.nil_append, hwords, hloop, reduceIte]
  rfl

theorem rijndaelSetupEncrypt_256 (h : key.length = 32) :
    rijndaelSetupEncrypt key 256 = some (wordsTo (expanded 8 (keyWord key)) 60, 14) := by
  have h0 : getU32 key 0 = _ := getU32_keyWord (i := 0) (by omega)
  have h1 : getU32 key 4 = _ := getU32_keyWord (i := 1) (by omega)
  have h2 : getU32 key 8 = _ := getU32_keyWord (i := 2) (by omega)
  have h3 : getU32 key 12 = _ := getU32_keyWord (i := 3) (by omega)
  have h4 : getU32 key 16 = _ := getU32_keyWord (i := 4) (by omega)
  have h5 : getU32 key 20 = _ := getU32_keyWord (i := 5) (by omega)
  have h6 : getU32 key 24 = _ := getU32_keyWord (i := 6) (by omega)
  have h7 : getU32 key 28 = _ := getU32_keyWord (i := 7) (by omega)
  have hloop : (List.range 7).foldlM expand256 (wordsTo (expanded 8 (keyWord key)) 8) = _ :=
    foldlM_range (a := fun i => wordsTo (expanded 8 (keyWord key)) (min (8 * i + 8) 60))
      fun i hi => by
        rw [show min (8 * i + 8) 60 = 8 * i + 8 by omega]
        exact expand256_eq _ hi
  have hwords : [word (keyWord key 0), word (keyWord key 1), word (keyWord key 2),
      word (keyWord key 3), word (keyWord key 4), word (keyWord key 5), word (keyWord key 6),
      word (keyWord key 7)] = wordsTo (expanded 8 (keyWord key)) 8 := by
    rw [wordsTo_expanded]
    rfl
  simp only [rijndaelSetupEncrypt, h0, h1, h2, h3, h4, h5, h6, h7, Option.bind_eq_bind,
    Option.bind_some, List.cons_append, List.nil_append, hwords, hloop, reduceIte]
  rfl

/-- **The words of the schedule are those of the key expansion**, with every key of each of the
three lengths. -/
theorem rijndaelSetupEncrypt_eq {nk : ℕ} (hnk : nk = 4 ∨ nk = 6 ∨ nk = 8)
    (h : key.length = 4 * nk) :
    rijndaelSetupEncrypt key (32 * nk)
      = some (wordsTo (expanded nk (keyWord key)) (4 * (nk + 6 + 1)), nk + 6) := by
  rcases hnk with rfl | rfl | rfl
  · exact rijndaelSetupEncrypt_128 h
  · exact rijndaelSetupEncrypt_192 h
  · exact rijndaelSetupEncrypt_256 h

theorem schedule_wordsTo (w : ℕ → Column) (nr : ℕ) : Schedule (wordsTo w (4 * (nr + 1))) w nr :=
  rfl

/-- **The code is AES.** -/
theorem encrypt_eq_aes {nk : ℕ} (hnk : nk = 4 ∨ nk = 6 ∨ nk = 8) (h : key.length = 4 * nk)
    (b : AES.Block) :
    (do
      let (rk, nrounds) ← rijndaelSetupEncrypt key (32 * nk)
      rijndaelEncrypt rk nrounds b) = some (encryptBlock nk key b) := by
  rw [rijndaelSetupEncrypt_eq hnk h]
  exact rijndaelEncrypt_eq (by omega) (schedule_wordsTo _ _) b

end Key

/-! ## The schedule for decryption -/

section Inverse

theorem set_wordsTo (w : ℕ → Column) (k n : ℕ) (u : Column) :
    (wordsTo w n).set k (word u) = wordsTo (Function.update w k u) n := by
  unfold wordsTo
  refine List.ext_getElem (by rw [List.length_set, List.length_map, List.length_map])
    fun i h1 h2 => ?_
  rw [List.getElem_set, List.getElem_map, List.getElem_map, List.getElem_range,
    Function.update_apply]
  by_cases hik : k = i
  · rw [if_pos hik, if_pos hik.symm]
  · rw [if_neg hik, if_neg (Ne.symm hik)]

theorem swapWords_eq (hi : i < n) (hj : j < n) :
    swapWords (wordsTo w n) i j = some (wordsTo (w ∘ Equiv.swap i j) n) := by
  unfold swapWords
  rw [getElem?_wordsTo hi, getElem?_wordsTo hj, Option.bind_eq_bind, Option.bind_some,
    Option.bind_some, set_wordsTo, set_wordsTo, Equiv.swap_comm, Equiv.comp_swap_eq_update]
  rfl

/-- Where the words of two round keys are when so many of them have been swapped. -/
def swappedIndex (a b m k : ℕ) : ℕ :=
  if k % 4 < m then if k / 4 = a then 4 * b + k % 4 else if k / 4 = b then 4 * a + k % 4 else k
  else k

theorem swapWords_swapped {a b m : ℕ} (hm : m < 4) (ha : 4 * a + 4 ≤ n) (hb : 4 * b + 4 ≤ n) :
    swapWords (wordsTo (w ∘ swappedIndex a b m) n) (4 * a + m) (4 * b + m)
      = some (wordsTo (w ∘ swappedIndex a b (m + 1)) n) := by
  rw [swapWords_eq (by omega) (by omega)]
  refine congrArg (fun f => some (wordsTo f n)) (funext fun k => congrArg w ?_)
  rw [Equiv.swap_apply_def]
  unfold swappedIndex
  split_ifs
  all_goals omega

/-- Where a word is when the order of the round keys from `a` to `b` is inverted. -/
def mirrored (a b k : ℕ) : ℕ :=
  if 4 * a ≤ k ∧ k < 4 * (b + 1) then 4 * (a + b - k / 4) + k % 4 else k

theorem reverseKeys_eq (w : ℕ → Column) {a b : ℕ} (h : 4 * b + 4 ≤ n) :
    reverseKeys (wordsTo w n) (4 * a) (4 * b) = some (wordsTo (w ∘ mirrored a b) n) := by
  induction hd : b - a using Nat.strong_induction_on generalizing w a b with
  | _ d ih =>
    rw [reverseKeys]
    split_ifs with hlt
    -- four words are swapped one after another, and the rest is the same with `a + 1` and `b - 1`
    · have hswap : ∀ m < 4, swapWords (wordsTo (w ∘ swappedIndex a b m) n) (4 * a + m) (4 * b + m)
          = some (wordsTo (w ∘ swappedIndex a b (m + 1)) n) := fun m hm =>
        swapWords_swapped hm (by omega) h
      have hnone : w ∘ swappedIndex a b 0 = w :=
        funext fun k => congrArg w (if_neg (Nat.not_lt_zero _))
      have h0 := hswap 0 (by decide)
      rw [hnone, Nat.add_zero, Nat.add_zero] at h0
      rw [h0, Option.bind_eq_bind, Option.bind_some, hswap 1 (by decide), Option.bind_some,
        hswap 2 (by decide), Option.bind_some, hswap 3 (by decide), Option.bind_some]
      have hrest := ih (b - 1 - (a + 1)) (by omega) (w ∘ swappedIndex a b 4) (a := a + 1)
        (b := b - 1) (by omega) rfl
      rw [show 4 * a + 4 = 4 * (a + 1) by omega, show 4 * b - 4 = 4 * (b - 1) by omega, hrest]
      refine congrArg (fun f => some (wordsTo f n)) (funext fun k => congrArg w ?_)
      show swappedIndex a b 4 (mirrored (a + 1) (b - 1) k) = mirrored a b k
      unfold swappedIndex mirrored
      split_ifs
      all_goals omega
    · refine congrArg (fun f => some (wordsTo f n)) (funext fun k => congrArg w ?_)
      show k = mirrored a b k
      unfold mirrored
      split_ifs
      all_goals omega

/-- The substitution in `Td0` to `Td3` undoes that of `Te4`: only the mixing is left. -/
theorem getElem?_Td (a : GF256) :
    Td0[word (fun _ => subByte a) &&& 0xff]? = some (word fun r => unmixMatrix r 0 * a)
      ∧ Td1[word (fun _ => subByte a) &&& 0xff]? = some (word fun r => unmixMatrix r 1 * a)
      ∧ Td2[word (fun _ => subByte a) &&& 0xff]? = some (word fun r => unmixMatrix r 2 * a)
      ∧ Td3[word (fun _ => subByte a) &&& 0xff]? = some (word fun r => unmixMatrix r 3 * a) := by
  have h0 := holds_Td.t0 (subByte a)
  have h1 := holds_Td.t1 (subByte a)
  have h2 := holds_Td.t2 (subByte a)
  have h3 := holds_Td.t3 (subByte a)
  rw [Equiv.symm_apply_apply] at h0 h1 h2 h3
  rw [word_and]
  exact ⟨h0, h1, h2, h3⟩

theorem mixWord_eq (hk : k < n) :
    mixWord (wordsTo w n) k = some (wordsTo (Function.update w k (unmixMatrix *ᵥ w k)) n) := by
  have hsum : (word fun r => unmixMatrix r 0 * w k 0) ^^^ (word fun r => unmixMatrix r 1 * w k 1)
      ^^^ (word fun r => unmixMatrix r 2 * w k 2) ^^^ (word fun r => unmixMatrix r 3 * w k 3)
      = word (unmixMatrix *ᵥ w k) := by
    rw [word_xor, word_xor, word_xor]
    refine congrArg word (funext fun r => ?_)
    rw [mulVec, dotProduct, Fin.sum_univ_four]
    rfl
  unfold mixWord
  rw [getElem?_wordsTo hk, Option.bind_eq_bind, Option.bind_some, word_shift_24, word_shift_16,
    word_shift_8, word_and, getElem?_Te4, Option.bind_some, (getElem?_Td _).1, Option.bind_some,
    getElem?_Te4, Option.bind_some, (getElem?_Td _).2.1, Option.bind_some,
    getElem?_Te4, Option.bind_some, (getElem?_Td _).2.2.1, Option.bind_some,
    getElem?_Te4, Option.bind_some, (getElem?_Td _).2.2.2, Option.bind_some, hsum, set_wordsTo]
  rfl

/-- The words when those of the round keys in the middle have been mixed back up to a place. -/
def mixedTo (w : ℕ → Column) (m k : ℕ) : Column :=
  if 4 ≤ k ∧ k < m then unmixMatrix *ᵥ w k else w k

theorem mixWord_mixedTo (h4 : 4 ≤ k) (hk : k < n) :
    mixWord (wordsTo (mixedTo w k) n) k = some (wordsTo (mixedTo w (k + 1)) n) := by
  rw [mixWord_eq hk]
  refine congrArg (fun f => some (wordsTo f n)) (funext fun i => ?_)
  rw [Function.update_apply]
  by_cases hik : i = k
  · subst hik
    rw [if_pos rfl, mixedTo, if_neg (by omega), mixedTo, if_pos (by omega)]
  · rw [if_neg hik, mixedTo, mixedTo]
    exact if_congr (by omega) rfl rfl

theorem mixKey_eq (hi : 0 < i) (hn : 4 * i + 4 ≤ n) :
    mixKey (wordsTo (mixedTo w (4 * i)) n) i = some (wordsTo (mixedTo w (4 * i + 4)) n) := by
  unfold mixKey
  rw [mixWord_mixedTo (by omega) (by omega), Option.bind_eq_bind, Option.bind_some,
    mixWord_mixedTo (by omega) (by omega), Option.bind_some,
    mixWord_mixedTo (by omega) (by omega), Option.bind_some,
    mixWord_mixedTo (by omega) (by omega)]

/-- The words of the schedule for decryption. -/
def inverseWords (w : ℕ → Column) (nr : ℕ) : ℕ → Column := mixedTo (w ∘ mirrored 0 nr) (4 * nr)

variable {key : List UInt8}

/-- **The words of the schedule for decryption.** -/
theorem rijndaelSetupDecrypt_eq {nk : ℕ} (hnk : nk = 4 ∨ nk = 6 ∨ nk = 8)
    (h : key.length = 4 * nk) :
    rijndaelSetupDecrypt key (32 * nk)
      = some (wordsTo (inverseWords (expanded nk (keyWord key)) (nk + 6)) (4 * (nk + 6 + 1)),
        nk + 6) := by
  have hmix : ∀ w : ℕ → Column, (List.range (nk + 6 - 1)).foldlM (fun rk i => mixKey rk (i + 1))
      (wordsTo (mixedTo w 4) (4 * (nk + 6 + 1)))
        = some (wordsTo (mixedTo w (4 * (nk + 6))) (4 * (nk + 6 + 1))) := fun w =>
    foldlM_range (a := fun i => wordsTo (mixedTo w (4 * (i + 1))) (4 * (nk + 6 + 1)))
      fun i hi => mixKey_eq (Nat.succ_pos i) (by omega)
  have hnone : ∀ w : ℕ → Column, mixedTo w 4 = w := fun w => funext fun k => if_neg (by omega)
  have hreverse := reverseKeys_eq (n := 4 * (nk + 6 + 1)) (expanded nk (keyWord key)) (a := 0)
    (b := nk + 6) (by omega)
  have hloop := hmix (expanded nk (keyWord key) ∘ mirrored 0 (nk + 6))
  rw [hnone] at hloop
  unfold rijndaelSetupDecrypt
  rw [rijndaelSetupEncrypt_eq hnk h, Option.bind_eq_bind, Option.bind_some]
  dsimp only
  rw [hreverse, Option.bind_eq_bind, Option.bind_some, hloop]
  rfl

/-! ## Decryption -/

theorem toBlock_ofBlock (b : AES.Block) : toBlock (ofBlock b) = b := by
  obtain ⟨bytes, hlen⟩ := b
  refine AES.Block.eq_of_bytes ?_
  match bytes, hlen with
  | [_, _, _, _, _, _, _, _, _, _, _, _, _, _, _, _], _ => rfl

theorem ofBlock_toBlock (s : State) : ofBlock (toBlock s) = s := by
  ext1 r c
  fin_cases r
  all_goals
    fin_cases c
    all_goals rfl

variable {nr : ℕ}

/-- The words of a round key for decryption. -/
theorem inverseWords_eq (w : ℕ → Column) (hi : i ≤ nr) (c : Fin 4) :
    inverseWords w nr (4 * i + c)
      = if 0 < i ∧ i < nr then unmixMatrix *ᵥ w (4 * (nr - i) + c) else w (4 * (nr - i) + c) := by
  have hmirrored : mirrored 0 nr (4 * i + c) = 4 * (nr - i) + c := by
    rw [mirrored, if_pos (by omega)]
    omega
  rw [inverseWords, mixedTo, Function.comp_apply, hmirrored]
  exact if_congr (by omega) rfl rfl

theorem roundKey_inverseWords_first (w : ℕ → Column) (nr : ℕ) :
    roundKey (inverseWords w nr) 0 = roundKey w nr := by
  ext1 r c
  refine (congrFun (inverseWords_eq w (Nat.zero_le nr) c) r).trans ?_
  rw [if_neg (by omega)]
  rfl

theorem roundKey_inverseWords_last (w : ℕ → Column) (nr : ℕ) :
    roundKey (inverseWords w nr) nr = roundKey w 0 := by
  ext1 r c
  refine (congrFun (inverseWords_eq w le_rfl c) r).trans ?_
  rw [if_neg (by omega), Nat.sub_self]
  rfl

theorem roundKey_inverseWords (w : ℕ → Column) (hi : 0 < i) (hnr : i < nr) :
    roundKey (inverseWords w nr) i = mixColumns.symm (roundKey w (nr - i)) := by
  ext1 r c
  refine (congrFun (inverseWords_eq w hnr.le c) r).trans ?_
  rw [if_pos ⟨hi, hnr⟩]
  rfl

/-- **The inverse cipher undoes the cipher.** -/
theorem cipher_inverse (w : ℕ → Column) (nr : ℕ) (s : State) :
    cipher aes.inverse (inverseWords w nr) nr (cipher aes w nr s) = s := by
  have hmiddle : ((List.range (nr - 1)).map fun i => roundKey (inverseWords w nr) (i + 1))
      = ((List.range (nr - 1)).map fun i => roundKey w (i + 1)).reverse.map
        fun k => -aes.mix.symm k := by
    refine List.ext_getElem (by simp) fun i h1 h2 => ?_
    rw [List.length_map, List.length_range] at h1
    rw [List.getElem_map, List.getElem_range, List.getElem_map, List.getElem_reverse,
      List.getElem_map, List.getElem_range, List.length_map, List.length_range,
      roundKey_inverseWords w (Nat.succ_pos i) (by omega),
      show nr - 1 - 1 - i + 1 = nr - (i + 1) by omega]
    rfl
  unfold cipher
  rw [hmiddle, roundKey_inverseWords_first, roundKey_inverseWords_last]
  exact aes.inverse_crypt _ _ _ s

/-- **Decryption undoes AES.** -/
theorem decrypt_encryptBlock {nk : ℕ} (hnk : nk = 4 ∨ nk = 6 ∨ nk = 8) (h : key.length = 4 * nk)
    (b : AES.Block) :
    (do
      let (rk, nrounds) ← rijndaelSetupDecrypt key (32 * nk)
      rijndaelDecrypt rk nrounds (encryptBlock nk key b)) = some b := by
  rw [rijndaelSetupDecrypt_eq hnk h, Option.bind_eq_bind, Option.bind_some]
  dsimp only
  rw [rijndaelDecrypt_eq (by omega) (schedule_wordsTo _ _), encryptBlock, ofBlock_toBlock,
    cipher_inverse, toBlock_ofBlock]

end Inverse

/-! ## The keys of `setKey` -/

section SetKey

variable {emKeyType : AESKeyType}

theorem length_keyText (key : List UInt8) (emKeyType : AESKeyType) :
    (AES.keyText key emKeyType).length = emKeyType.keyLength := by
  rw [AES.keyText, List.length_rightpad, List.length_take]
  omega

/-- The words of a key. -/
def keyWords (emKeyType : AESKeyType) : ℕ := emKeyType.keyLength / 4

theorem keyWords_eq (h : emKeyType ≠ .keyNone) :
    (keyWords emKeyType = 4 ∨ keyWords emKeyType = 6 ∨ keyWords emKeyType = 8)
      ∧ emKeyType.keyLength = 4 * keyWords emKeyType
      ∧ keybits emKeyType = 32 * keyWords emKeyType := by
  cases emKeyType with
  | keyNone => exact absurd rfl h
  | key128 => decide
  | key192 => decide
  | key256 => decide

/-- **The cipher of the code is AES**, with the text of the key. -/
theorem encrypt_rijndael (h : emKeyType ≠ .keyNone) (key : List UInt8) (b : AES.Block) :
    rijndael.encrypt (rijndael.setupEncrypt key emKeyType) b
      = encryptBlock (keyWords emKeyType) (AES.keyText key emKeyType) b := by
  obtain ⟨hnk, hlen, hbits⟩ := keyWords_eq h
  have haes := encrypt_eq_aes hnk ((length_keyText key emKeyType).trans hlen) b
  rw [← hbits] at haes
  exact congrArg (Option.getD · b) haes

theorem decrypt_rijndael (h : emKeyType ≠ .keyNone) (key : List UInt8) (b : AES.Block) :
    rijndael.decrypt (rijndael.setupDecrypt key emKeyType)
      (encryptBlock (keyWords emKeyType) (AES.keyText key emKeyType) b) = b := by
  obtain ⟨hnk, hlen, hbits⟩ := keyWords_eq h
  have haes := decrypt_encryptBlock hnk ((length_keyText key emKeyType).trans hlen) b
  rw [← hbits] at haes
  exact congrArg (Option.getD · _) haes

/-- **The cipher of the code is lawful**: decryption undoes encryption with the same key. -/
theorem lawful_rijndael : rijndael.Lawful := by
  intro key emKeyType b
  by_cases h : emKeyType = .keyNone
  · subst h
    rfl
  · rw [encrypt_rijndael h, decrypt_rijndael h]

end SetKey

end Rijndael
