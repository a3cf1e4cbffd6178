import QService.BlockHash

/-!
# `CSHA1`

The class takes a text in pieces and keeps its blocks, their number of bits, and the
state of the algorithm. `Transform` is written for speed: five registers whose names
move from one step to the next instead of their values, the 80 words of a block
computed in place in 16, and their bytes swapped when they are first read. `Final`
appends the padding byte by byte.

`SHA1` is the algorithm itself: the words by their recurrence, the step on five values,
and the hash of a text as the fold over the blocks of its padding. `Transform` is the
compression of the algorithm (`Transform_eq_compress`), and whatever an object has done
before, its digest after `Reset` and any pieces is the hash of these together.
-/

/-! ## The algorithm -/

namespace SHA1

open ByteOrder BlockHash

/-- Five words. -/
@[ext]
structure Words where
  h₀ : UInt32
  h₁ : UInt32
  h₂ : UInt32
  h₃ : UInt32
  h₄ : UInt32
  deriving DecidableEq, Repr

/-- Word by word. -/
def Words.add (s t : Words) : Words :=
  ⟨s.h₀ + t.h₀, s.h₁ + t.h₁, s.h₂ + t.h₂, s.h₃ + t.h₃, s.h₄ + t.h₄⟩

/-- The words in their order. -/
def Words.toList (s : Words) : List UInt32 := [s.h₀, s.h₁, s.h₂, s.h₃, s.h₄]

/-- The state at the start. -/
def init : Words := ⟨0x67452301, 0xEFCDAB89, 0x98BADCFE, 0x10325476, 0xC3D2E1F0⟩

/-- The words of a block: 16 of its bytes, and each of the others from four before it. -/
def W (block : List UInt8) (t : ℕ) : UInt32 :=
  if t < 16 then UInt32.ofNat (ofBE ((block.drop (4 * t)).take 4))
  else rotl (W block (t - 3) ^^^ W block (t - 8) ^^^ W block (t - 14) ^^^ W block (t - 16)) 1
termination_by t

/-- The function of a step: a choice, the parity, the majority, and the parity again. -/
def f (t : ℕ) (x y z : UInt32) : UInt32 :=
  if t < 20 then (x &&& y) ^^^ (~~~x &&& z)
  else if t < 40 then x ^^^ y ^^^ z
  else if t < 60 then (x &&& y) ^^^ (x &&& z) ^^^ (y &&& z)
  else x ^^^ y ^^^ z

/-- The constant of a step. -/
def K (t : ℕ) : UInt32 :=
  if t < 20 then 0x5A827999
  else if t < 40 then 0x6ED9EBA1
  else if t < 60 then 0x8F1BBCDC
  else 0xCA62C1D6

/-- A step. -/
def step (block : List UInt8) (s : Words) (t : ℕ) : Words :=
  ⟨rotl s.h₀ 5 + f t s.h₁ s.h₂ s.h₃ + s.h₄ + K t + W block t, s.h₀, rotl s.h₁ 30, s.h₂, s.h₃⟩

/-- The compression of a block. -/
def compress (s : Words) (block : List UInt8) : Words :=
  s.add ((List.range 80).foldl (step block) s)

/-- **The hash of a text.** -/
def hash (l : List UInt8) : List UInt8 :=
  ((Chunks.chunks 64 (pad l (beBytes 8 (8 * l.length)))).foldl compress init).toList.flatMap
    fun w => beBytes 4 w.toNat

end SHA1

namespace CSHA1

open ByteOrder BlockHash SHA1

/-! ## The code -/

/-- The registers of `Transform`. -/
inductive Reg
  | a
  | b
  | c
  | d
  | e
  deriving DecidableEq, Repr

/-- The macros of a step. -/
inductive Macro
  | S_R0
  | S_R1
  | S_R2
  | S_R3
  | S_R4
  deriving DecidableEq, Repr

/-- A macro with its arguments. -/
structure Step where
  S_R : Macro
  v : Reg
  w : Reg
  x : Reg
  y : Reg
  z : Reg
  i : ℕ
  deriving DecidableEq, Repr

/-- The function in the text of a macro. -/
def Macro.f : Macro → UInt32 → UInt32 → UInt32 → UInt32
  | S_R0, w, x, y | S_R1, w, x, y => (w &&& (x ^^^ y)) ^^^ y
  | S_R2, w, x, y | S_R4, w, x, y => w ^^^ x ^^^ y
  | S_R3, w, x, y => ((w ||| x) &&& y) ||| (w &&& x)

/-- The constant in the text of a macro. -/
def Macro.k : Macro → UInt32
  | S_R0 | S_R1 => 0x5A827999
  | S_R2 => 0x6ED9EBA1
  | S_R3 => 0x8F1BBCDC
  | S_R4 => 0xCA62C1D6

/-- The registers and the words of `m_block`. -/
structure Workspace where
  regs : Reg → UInt32
  l : Fin 16 → UInt32

/-- `(ROL32(l, 24) & 0xFF00FF00) | (ROL32(l, 8) & 0x00FF00FF)`. -/
def swap (l : UInt32) : UInt32 :=
  (rotl l 24 &&& (0xFF00FF00 : UInt32)) ||| (rotl l 8 &&& (0x00FF00FF : UInt32))

/-- `SHABLK0(i)`: the word that is assigned, which is also the value. -/
def SHABLK0 (l : Fin 16 → UInt32) (i : ℕ) : UInt32 := swap (l (Fin.ofNat 16 i))

/-- `SHABLK(i)`. -/
def SHABLK (l : Fin 16 → UInt32) (i : ℕ) : UInt32 :=
  rotl (l (Fin.ofNat 16 (i + 13)) ^^^ l (Fin.ofNat 16 (i + 8)) ^^^ l (Fin.ofNat 16 (i + 2))
    ^^^ l (Fin.ofNat 16 i)) 1

/-- The word that a macro computes. -/
def Macro.blk : Macro → (Fin 16 → UInt32) → ℕ → UInt32
  | S_R0 => SHABLK0
  | S_R1 | S_R2 | S_R3 | S_R4 => SHABLK

/-- The text of a macro. -/
def Step.exec (ws : Workspace) (s : Step) : Workspace :=
  let blk := s.S_R.blk ws.l s.i
  let regs := Function.update ws.regs s.z
    (ws.regs s.z + (s.S_R.f (ws.regs s.w) (ws.regs s.x) (ws.regs s.y) + blk + s.S_R.k
      + rotl (ws.regs s.v) 5))
  ⟨Function.update regs s.w (rotl (regs s.w) 30), Function.update ws.l (Fin.ofNat 16 s.i) blk⟩

open Reg in
/-- The steps of `Transform`. -/
def steps : List Step := [
  ⟨.S_R0, a, b, c, d, e, 0⟩, ⟨.S_R0, e, a, b, c, d, 1⟩, ⟨.S_R0, d, e, a, b, c, 2⟩,
  ⟨.S_R0, c, d, e, a, b, 3⟩, ⟨.S_R0, b, c, d, e, a, 4⟩, ⟨.S_R0, a, b, c, d, e, 5⟩,
  ⟨.S_R0, e, a, b, c, d, 6⟩, ⟨.S_R0, d, e, a, b, c, 7⟩, ⟨.S_R0, c, d, e, a, b, 8⟩,
  ⟨.S_R0, b, c, d, e, a, 9⟩, ⟨.S_R0, a, b, c, d, e, 10⟩, ⟨.S_R0, e, a, b, c, d, 11⟩,
  ⟨.S_R0, d, e, a, b, c, 12⟩, ⟨.S_R0, c, d, e, a, b, 13⟩, ⟨.S_R0, b, c, d, e, a, 14⟩,
  ⟨.S_R0, a, b, c, d, e, 15⟩, ⟨.S_R1, e, a, b, c, d, 16⟩, ⟨.S_R1, d, e, a, b, c, 17⟩,
  ⟨.S_R1, c, d, e, a, b, 18⟩, ⟨.S_R1, b, c, d, e, a, 19⟩, ⟨.S_R2, a, b, c, d, e, 20⟩,
  ⟨.S_R2, e, a, b, c, d, 21⟩, ⟨.S_R2, d, e, a, b, c, 22⟩, ⟨.S_R2, c, d, e, a, b, 23⟩,
  ⟨.S_R2, b, c, d, e, a, 24⟩, ⟨.S_R2, a, b, c, d, e, 25⟩, ⟨.S_R2, e, a, b, c, d, 26⟩,
  ⟨.S_R2, d, e, a, b, c, 27⟩, ⟨.S_R2, c, d, e, a, b, 28⟩, ⟨.S_R2, b, c, d, e, a, 29⟩,
  ⟨.S_R2, a, b, c, d, e, 30⟩, ⟨.S_R2, e, a, b, c, d, 31⟩, ⟨.S_R2, d, e, a, b, c, 32⟩,
  ⟨.S_R2, c, d, e, a, b, 33⟩, ⟨.S_R2, b, c, d, e, a, 34⟩, ⟨.S_R2, a, b, c, d, e, 35⟩,
  ⟨.S_R2, e, a, b, c, d, 36⟩, ⟨.S_R2, d, e, a, b, c, 37⟩, ⟨.S_R2, c, d, e, a, b, 38⟩,
  ⟨.S_R2, b, c, d, e, a, 39⟩, ⟨.S_R3, a, b, c, d, e, 40⟩, ⟨.S_R3, e, a, b, c, d, 41⟩,
  ⟨.S_R3, d, e, a, b, c, 42⟩, ⟨.S_R3, c, d, e, a, b, 43⟩, ⟨.S_R3, b, c, d, e, a, 44⟩,
  ⟨.S_R3, a, b, c, d, e, 45⟩, ⟨.S_R3, e, a, b, c, d, 46⟩, ⟨.S_R3, d, e, a, b, c, 47⟩,
  ⟨.S_R3, c, d, e, a, b, 48⟩, ⟨.S_R3, b, c, d, e, a, 49⟩, ⟨.S_R3, a, b, c, d, e, 50⟩,
  ⟨.S_R3, e, a, b, c, d, 51⟩, ⟨.S_R3, d, e, a, b, c, 52⟩, ⟨.S_R3, c, d, e, a, b, 53⟩,
  ⟨.S_R3, b, c, d, e, a, 54⟩, ⟨.S_R3, a, b, c, d, e, 55⟩, ⟨.S_R3, e, a, b, c, d, 56⟩,
  ⟨.S_R3, d, e, a, b, c, 57⟩, ⟨.S_R3, c, d, e, a, b, 58⟩, ⟨.S_R3, b, c, d, e, a, 59⟩,
  ⟨.S_R4, a, b, c, d, e, 60⟩, ⟨.S_R4, e, a, b, c, d, 61⟩, ⟨.S_R4, d, e, a, b, c, 62⟩,
  ⟨.S_R4, c, d, e, a, b, 63⟩, ⟨.S_R4, b, c, d, e, a, 64⟩, ⟨.S_R4, a, b, c, d, e, 65⟩,
  ⟨.S_R4, e, a, b, c, d, 66⟩, ⟨.S_R4, d, e, a, b, c, 67⟩, ⟨.S_R4, c, d, e, a, b, 68⟩,
  ⟨.S_R4, b, c, d, e, a, 69⟩, ⟨.S_R4, a, b, c, d, e, 70⟩, ⟨.S_R4, e, a, b, c, d, 71⟩,
  ⟨.S_R4, d, e, a, b, c, 72⟩, ⟨.S_R4, c, d, e, a, b, 73⟩, ⟨.S_R4, b, c, d, e, a, 74⟩,
  ⟨.S_R4, a, b, c, d, e, 75⟩, ⟨.S_R4, e, a, b, c, d, 76⟩, ⟨.S_R4, d, e, a, b, c, 77⟩,
  ⟨.S_R4, c, d, e, a, b, 78⟩, ⟨.S_R4, b, c, d, e, a, 79⟩]

/-- `memcpy(m_block, pBuffer, 64)`, with the words as the little-endian host reads them, and the
registers as they are set from `pState`. -/
def load (pState : Words) (pBuffer : List UInt8) : Workspace where
  regs
    | .a => pState.h₀
    | .b => pState.h₁
    | .c => pState.h₂
    | .d => pState.h₃
    | .e => pState.h₄
  l i := UInt32.ofNat (ofLE ((pBuffer.drop (4 * i.val)).take 4))

/-- `CSHA1::Transform`. -/
def Transform (pState : Words) (pBuffer : List UInt8) : Words :=
  let regs := (steps.foldl Step.exec (load pState pBuffer)).regs
  ⟨pState.h₀ + regs .a, pState.h₁ + regs .b, pState.h₂ + regs .c, pState.h₃ + regs .d,
    pState.h₄ + regs .e⟩

/-- The members of a `CSHA1` that outlive a call. -/
structure Object where
  m_state : Words
  m_count : Count
  m_buffer : List UInt8
  m_digest : List UInt8
  deriving DecidableEq, Repr

/-- `CSHA1::Reset`. -/
def Object.Reset (obj : Object) : Object :=
  { obj with m_state := SHA1.init, m_count := .zero }

/-- `CSHA1::Update`. -/
def Object.Update (obj : Object) (pbData : List UInt8) (uLen : UInt32) : Object :=
  let j := obj.m_count.index
  let obj := { obj with m_count := obj.m_count.add uLen }
  if 63 < j + uLen then
    let i := 64 - j
    let m_buffer := memcpyAt obj.m_buffer j.toNat (pbData.take i.toNat)
    let (i, m_state) :=
      blocksFrom Transform pbData uLen.toNat uLen.toNat i (Transform obj.m_state m_buffer)
    { obj with
      m_state := m_state
      m_buffer :=
        if uLen - i ≠ 0 then memcpyAt m_buffer 0 ((pbData.drop i.toNat).take (uLen - i).toNat)
        else m_buffer }
  else if uLen ≠ 0 then
    { obj with m_buffer := memcpyAt obj.m_buffer j.toNat (pbData.take uLen.toNat) }
  else obj

/-- `pbFinalCount`. -/
def finalCount (m_count : Count) : List UInt8 :=
  (List.range 8).map fun i =>
    ((if 4 ≤ i then m_count.lo else m_count.hi) >>> UInt32.ofNat ((3 - i % 4) * 8)).toUInt8

/-- `while ((m_count[0] & 504) != 448)`, for a number of rounds. -/
def padLoop : ℕ → Object → Object
  | 0, obj => obj
  | fuel + 1, obj =>
    if obj.m_count.lo &&& 504 ≠ 448 then padLoop fuel (obj.Update [0] 1) else obj

/-- The bytes of `m_digest`. -/
def digestBytes (m_state : Words) : List UInt8 :=
  (List.range 20).map fun i =>
    ((m_state.toList.getD (i / 4) 0) >>> UInt32.ofNat ((3 - i % 4) * 8)).toUInt8

/-- `CSHA1::Final`, which wipes the object behind the digest. -/
def Object.Final (obj : Object) : Object :=
  let pbFinalCount := finalCount obj.m_count
  let obj := padLoop 64 (obj.Update [0x80] 1)
  let obj := obj.Update pbFinalCount 8
  { obj with
    m_digest := digestBytes obj.m_state
    m_buffer := List.replicate 64 0
    m_count := .zero
    m_state := Transform ⟨0, 0, 0, 0, 0⟩ (List.replicate 64 0) }

/-! ## The words of a block -/

theorem or_and (x y m : UInt32) : (x ||| y) &&& m = (x &&& m) ||| (y &&& m) := by
  apply UInt32.toNat_inj.mp
  rw [UInt32.toNat_and, UInt32.toNat_or, UInt32.toNat_or, UInt32.toNat_and, UInt32.toNat_and]
  exact Nat.and_or_distrib_right _ _ _

theorem swap_or (x y : UInt32) : swap (x ||| y) = swap x ||| swap y := by
  have hrotl (n : UInt32) : rotl (x ||| y) n = rotl x n ||| rotl y n := by
    unfold rotl
    rw [UInt32.shiftLeft_or, UInt32.shiftRight_or]
    ac_rfl
  unfold swap
  rw [hrotl, hrotl, or_and, or_and]
  generalize rotl x 24 &&& 0xFF00FF00 = x₁, rotl y 24 &&& 0xFF00FF00 = y₁
  generalize rotl x 8 &&& 0x00FF00FF = x₂, rotl y 8 &&& 0x00FF00FF = y₂
  ac_rfl

/-- A byte moves to the other end of the word. -/
theorem swap_byte (b : UInt8) :
    swap b.toUInt32 = b.toUInt32 <<< 24 ∧ swap (b.toUInt32 <<< 8) = b.toUInt32 <<< 16
      ∧ swap (b.toUInt32 <<< 16) = b.toUInt32 <<< 8 ∧ swap (b.toUInt32 <<< 24) = b.toUInt32 := by
  revert b
  refine forall_byte ?_
  decide +kernel

theorem swap_leWord (b₀ b₁ b₂ b₃ : UInt8) : swap (leWord b₀ b₁ b₂ b₃) = leWord b₃ b₂ b₁ b₀ := by
  unfold leWord
  rw [swap_or, swap_or, swap_or, (swap_byte b₀).1, (swap_byte b₁).2.1, (swap_byte b₂).2.2.1,
    (swap_byte b₃).2.2.2]
  generalize b₀.toUInt32 <<< 24 = w₀, b₁.toUInt32 <<< 16 = w₁, b₂.toUInt32 <<< 8 = w₂
  ac_rfl

/-- **Four bytes read as the host does, and swapped, are a big-endian word.** -/
theorem swap_ofLE {bs : List UInt8} (h : bs.length = 4) :
    swap (UInt32.ofNat (ofLE bs)) = UInt32.ofNat (ofBE bs) := by
  match bs, h with
  | [b₀, b₁, b₂, b₃], _ => rw [← leWord_eq, swap_leWord, leWord_eq]; rfl

/-- Before step `t` the last 16 words are in their places, and of the first 16 those that were
not yet swapped. -/
structure Ready (block : List UInt8) (t : ℕ) (l : Fin 16 → UInt32) : Prop where
  done : ∀ k < t, t ≤ k + 16 → l (Fin.ofNat 16 k) = W block k
  raw : ∀ k < 16, t ≤ k →
    l (Fin.ofNat 16 k) = UInt32.ofNat (ofLE ((block.drop (4 * k)).take 4))

theorem ready_load (pState : Words) (block : List UInt8) :
    Ready block 0 (load pState block).l where
  done := fun _ h => absurd h (Nat.not_lt_zero _)
  raw := fun k hk _ => by
    have hval : (Fin.ofNat 16 k).val = k := Nat.mod_eq_of_lt hk
    unfold load
    dsimp only
    rw [hval]

theorem ofNat_congr {j k : ℕ} (h : j % 16 = k % 16) : Fin.ofNat 16 j = Fin.ofNat 16 k :=
  Fin.ext h

/-- The macro of step `t`. -/
def macroAt (t : ℕ) : Macro :=
  if t < 16 then .S_R0
  else if t < 20 then .S_R1
  else if t < 40 then .S_R2
  else if t < 60 then .S_R3
  else .S_R4

/-- The macro of a step computes its word. -/
theorem Ready.blk {block : List UInt8} (hblock : block.length = 64) {t : ℕ}
    {l : Fin 16 → UInt32} (h : Ready block t l) : (macroAt t).blk l t = W block t := by
  rcases Nat.lt_or_ge t 16 with hlt | hge
  · have hfour : ((block.drop (4 * t)).take 4).length = 4 := by
      rw [List.length_take, List.length_drop]
      omega
    have hS_R : macroAt t = .S_R0 := if_pos hlt
    rw [hS_R, W, if_pos hlt]
    show swap (l (Fin.ofNat 16 t)) = _
    rw [h.raw t hlt le_rfl, swap_ofLE hfour]
  · have hS_R : (macroAt t).blk = SHABLK := by
      unfold macroAt
      rw [if_neg (Nat.not_lt.mpr hge)]
      split_ifs <;> rfl
    rw [hS_R, W, if_neg (Nat.not_lt.mpr hge)]
    unfold SHABLK
    rw [ofNat_congr (show (t + 13) % 16 = (t - 3) % 16 by omega),
      ofNat_congr (show (t + 8) % 16 = (t - 8) % 16 by omega),
      ofNat_congr (show (t + 2) % 16 = (t - 14) % 16 by omega),
      ofNat_congr (show t % 16 = (t - 16) % 16 by omega),
      h.done (t - 3) (by omega) (by omega), h.done (t - 8) (by omega) (by omega),
      h.done (t - 14) (by omega) (by omega), h.done (t - 16) (by omega) (by omega)]

/-- It takes the place of the word 16 steps before. -/
theorem Ready.succ {block : List UInt8} {t : ℕ} {l : Fin 16 → UInt32} (h : Ready block t l) :
    Ready block (t + 1) (Function.update l (Fin.ofNat 16 t) (W block t)) := by
  have hne {k : ℕ} (hk : k % 16 ≠ t % 16) : Fin.ofNat 16 k ≠ Fin.ofNat 16 t :=
    fun heq => hk (congrArg Fin.val heq)
  refine ⟨fun k hlt hle => ?_, fun k hlt hle => ?_⟩
  · rcases Nat.lt_succ_iff_lt_or_eq.mp hlt with hk | rfl
    · rw [Function.update_of_ne (hne (by omega)), h.done k hk (by omega)]
    · exact Function.update_self _ _ _
  · rw [Function.update_of_ne (hne (by omega)), h.raw k hlt (by omega)]

/-! ## The registers -/

/-- The registers in a circle. -/
def reg (n : ℕ) : Reg :=
  match n % 5 with
  | 0 => .a
  | 1 => .b
  | 2 => .c
  | 3 => .d
  | _ => .e

theorem reg_congr {m n : ℕ} (h : m % 5 = n % 5) : reg m = reg n := by
  unfold reg
  rw [h]

theorem reg_ne {m n : ℕ} (h : m % 5 ≠ n % 5) : reg m ≠ reg n := by
  have hall : ∀ i < 5, ∀ j < 5, i ≠ j → reg i ≠ reg j := by decide
  rw [reg_congr (Nat.mod_mod m 5).symm, reg_congr (Nat.mod_mod n 5).symm]
  exact hall _ (Nat.mod_lt _ (by decide)) _ (Nat.mod_lt _ (by decide)) h

/-- Step `t`: the names have gone back by one place in each step. -/
def stepAt (t : ℕ) : Step :=
  ⟨macroAt t, reg (4 * t), reg (4 * t + 1), reg (4 * t + 2), reg (4 * t + 3), reg (4 * t + 4), t⟩

theorem steps_eq : steps = (List.range 80).map stepAt := by decide

/-- The five values before step `t`. -/
def view (t : ℕ) (regs : Reg → UInt32) : Words :=
  ⟨regs (reg (4 * t)), regs (reg (4 * t + 1)), regs (reg (4 * t + 2)), regs (reg (4 * t + 3)),
    regs (reg (4 * t + 4))⟩

theorem choice_eq (x y z : UInt32) : (x &&& (y ^^^ z)) ^^^ z = (x &&& y) ^^^ (~~~x &&& z) := by
  apply UInt32.toBitVec_inj.mp
  ext i hi
  simp only [UInt32.toBitVec_xor, UInt32.toBitVec_and, UInt32.toBitVec_not, BitVec.getElem_xor,
    BitVec.getElem_and, BitVec.getElem_not]
  cases x.toBitVec[i] <;> cases z.toBitVec[i] <;> simp

theorem majority_eq (x y z : UInt32) :
    ((x ||| y) &&& z) ||| (x &&& y) = (x &&& y) ^^^ (x &&& z) ^^^ (y &&& z) := by
  apply UInt32.toBitVec_inj.mp
  ext i hi
  simp only [UInt32.toBitVec_xor, UInt32.toBitVec_and, UInt32.toBitVec_or, BitVec.getElem_xor,
    BitVec.getElem_and, BitVec.getElem_or]
  cases x.toBitVec[i] <;> cases y.toBitVec[i] <;> simp

/-- The function of a macro is that of the step. -/
theorem macroAt_f (t : ℕ) (x y z : UInt32) : (macroAt t).f x y z = SHA1.f t x y z := by
  unfold macroAt SHA1.f
  split_ifs <;> first | omega | rfl | exact choice_eq x y z | exact majority_eq x y z

theorem macroAt_k (t : ℕ) : (macroAt t).k = SHA1.K t := by
  unfold macroAt SHA1.K
  split_ifs <;> first | omega | rfl

/-- **A macro does a step of the algorithm**, seen through the names. -/
theorem view_exec {block : List UInt8} (hblock : block.length = 64) {t : ℕ} {ws : Workspace}
    (h : Ready block t ws.l) :
    view (t + 1) (Step.exec ws (stepAt t)).regs = SHA1.step block (view t ws.regs) t
      ∧ Ready block (t + 1) (Step.exec ws (stepAt t)).l := by
  have hblk : (stepAt t).S_R.blk ws.l (stepAt t).i = W block t := h.blk hblock
  have hz : (reg (4 * t + 4)) ≠ reg (4 * t + 1) := reg_ne (by omega)
  have hzv : (reg (4 * t)) ≠ reg (4 * t + 4) := reg_ne (by omega)
  have hwv : (reg (4 * t)) ≠ reg (4 * t + 1) := reg_ne (by omega)
  have hzx : (reg (4 * t + 2)) ≠ reg (4 * t + 4) := reg_ne (by omega)
  have hwx : (reg (4 * t + 2)) ≠ reg (4 * t + 1) := reg_ne (by omega)
  have hzy : (reg (4 * t + 3)) ≠ reg (4 * t + 4) := reg_ne (by omega)
  have hwy : (reg (4 * t + 3)) ≠ reg (4 * t + 1) := reg_ne (by omega)
  refine ⟨?_, ?_⟩
  · unfold Step.exec view SHA1.step
    rw [hblk]
    dsimp only [stepAt]
    rw [macroAt_f, macroAt_k, reg_congr (show 4 * (t + 1) % 5 = (4 * t + 4) % 5 by omega),
      reg_congr (show (4 * (t + 1) + 1) % 5 = (4 * t) % 5 by omega),
      reg_congr (show (4 * (t + 1) + 2) % 5 = (4 * t + 1) % 5 by omega),
      reg_congr (show (4 * (t + 1) + 3) % 5 = (4 * t + 2) % 5 by omega),
      reg_congr (show (4 * (t + 1) + 4) % 5 = (4 * t + 3) % 5 by omega)]
    simp only [Function.update_self, Function.update_of_ne hz, Function.update_of_ne hz.symm,
      Function.update_of_ne hzv, Function.update_of_ne hwv, Function.update_of_ne hzx,
      Function.update_of_ne hwx, Function.update_of_ne hzy, Function.update_of_ne hwy]
    congr 1
    ac_rfl
  · unfold Step.exec
    rw [hblk]
    exact h.succ

/-- All of the first steps. -/
theorem view_foldl {block : List UInt8} (hblock : block.length = 64) (pState : Words) (t : ℕ) :
    view t (((List.range t).map stepAt).foldl Step.exec (load pState block)).regs
        = (List.range t).foldl (SHA1.step block) pState
      ∧ Ready block t (((List.range t).map stepAt).foldl Step.exec (load pState block)).l := by
  induction t with
  | zero => exact ⟨rfl, ready_load pState block⟩
  | succ t ih =>
    rw [List.range_succ, List.map_append, List.foldl_append, List.foldl_append, ← ih.1]
    exact view_exec hblock ih.2

/-- **`Transform` is the compression of the algorithm.** -/
theorem Transform_eq_compress (pState : Words) {block : List UInt8} (hblock : block.length = 64) :
    Transform pState block = SHA1.compress pState block := by
  have hview := (view_foldl hblock pState 80).1
  have hnames (regs : Reg → UInt32) :
      view 80 regs = ⟨regs .a, regs .b, regs .c, regs .d, regs .e⟩ := rfl
  unfold Transform SHA1.compress
  rw [steps_eq, ← hview, hnames, Words.add]

/-! ## An object -/

/-- **The object has taken a text**, since `Reset`. -/
structure Hashes (l : List UInt8) (obj : Object) : Prop where
  holds : Holds Transform 64 SHA1.init l obj.m_state obj.m_buffer
  counts : obj.m_count.Counts l.length

theorem hashes_Reset {obj : Object} (h : obj.m_buffer.length = 64) : Hashes [] obj.Reset where
  holds := holds_nil Transform (by decide) _ h
  counts := Count.counts_zero

/-- What a piece does to the state and the buffer. -/
theorem Update_eq {obj : Object} {k : ℕ} (hcount : obj.m_count.Counts k) {pbData : List UInt8}
    {uLen : UInt32} (hdata : uLen.toNat ≤ pbData.length) (hlen : uLen.toNat ≤ 2 ^ 32 - 64) :
    obj.Update pbData uLen = { obj with
      m_state := (update Transform 64 obj.m_state obj.m_buffer (k % 64)
        (pbData.take uLen.toNat)).1
      m_buffer := (update Transform 64 obj.m_state obj.m_buffer (k % 64)
        (pbData.take uLen.toNat)).2
      m_count := obj.m_count.add uLen } := by
  have hj : obj.m_count.index.toNat = k % 64 := hcount.index
  have hj64 : k % 64 < 64 := Nat.mod_lt _ (by decide)
  have hsum : (obj.m_count.index + uLen).toNat = k % 64 + uLen.toNat := by
    rw [UInt32.toNat_add, hj]
    omega
  have htake : (pbData.take uLen.toNat).length = uLen.toNat := List.length_take_of_le hdata
  have hcmp : 63 < obj.m_count.index + uLen ↔ 63 < k % 64 + uLen.toNat := by
    rw [UInt32.lt_iff_toNat_lt, hsum]
    rfl
  unfold Object.Update
  dsimp only
  by_cases hfull : 63 < obj.m_count.index + uLen
  · rw [if_pos hfull]
    rw [hcmp] at hfull
    have hi : (64 - obj.m_count.index).toNat = 64 - k % 64 := by
      have hle : obj.m_count.index ≤ 64 := by
        rw [UInt32.le_iff_toNat_le, hj]
        exact hj64.le
      rw [UInt32.toNat_sub_of_le _ _ hle, hj]
      rfl
    have hle := (blocksFrom_eq Transform hdata hlen uLen.toNat
      (show (64 - obj.m_count.index).toNat ≤ uLen.toNat by omega) (Transform obj.m_state
        (memcpyAt obj.m_buffer (k % 64) (pbData.take (64 - obj.m_count.index).toNat)))).1
    rw [update_eq_blocksFrom Transform hdata hlen hj64 hfull hi, hj]
    generalize blocksFrom Transform pbData uLen.toNat uLen.toNat (64 - obj.m_count.index) _ = r
      at hle ⊢
    have hrest : (pbData.take uLen.toNat).drop r.1.toNat
        = (pbData.drop r.1.toNat).take (uLen - r.1).toNat := by
      rw [List.drop_take, UInt32.toNat_sub_of_le _ _ (UInt32.le_iff_toNat_le.mpr hle)]
    rw [hrest]
    split_ifs with hne
    · rfl
    · rw [not_not.mp hne]
      simp only [UInt32.toNat_zero, List.take_zero, memcpyAt_nil]
  · rw [if_neg hfull]
    rw [hcmp] at hfull
    have hupdate : update Transform 64 obj.m_state obj.m_buffer (k % 64) (pbData.take uLen.toNat)
        = (obj.m_state, memcpyAt obj.m_buffer (k % 64) (pbData.take uLen.toNat)) := by
      unfold update
      rw [htake]
      exact if_neg (by omega)
    rw [hupdate, hj]
    split_ifs with hne
    · rfl
    · rw [not_not.mp hne]
      simp only [UInt32.toNat_zero, List.take_zero, memcpyAt_nil]

/-- **A piece is appended to the text.** -/
theorem Hashes.Update {l : List UInt8} {obj : Object} (h : Hashes l obj) (pbData : List UInt8)
    (uLen : UInt32) (hdata : uLen.toNat ≤ pbData.length) (hlen : uLen.toNat ≤ 2 ^ 32 - 64) :
    Hashes (l ++ pbData.take uLen.toNat) (obj.Update pbData uLen) := by
  rw [Update_eq h.counts hdata hlen]
  refine ⟨h.holds.update (by decide) (pbData.take uLen.toNat), ?_⟩
  rw [List.length_append, List.length_take_of_le hdata]
  exact h.counts.add uLen

/-- The loop of `Final` looks at the number of bytes in the last block. -/
theorem and_504_iff {c : Count} {k : ℕ} (h : c.Counts k) : c.lo &&& 504 = 448 ↔ k % 64 = 56 := by
  have hall : ∀ n < 512, n &&& 504 = 448 ↔ n / 8 = 56 := by decide +kernel
  have hlow : c.lo.toNat &&& 504 = c.lo.toNat % 2 ^ 9 &&& 504 := by
    rw [← Nat.and_two_pow_sub_one_eq_mod, Nat.and_assoc]
    rfl
  rw [← UInt32.toNat_inj, UInt32.toNat_and]
  change c.lo.toNat &&& 504 = 448 ↔ _
  rw [hlow, hall (c.lo.toNat % 2 ^ 9) (Nat.mod_lt _ (by decide))]
  unfold Count.Counts at h
  omega

/-- Zeros are appended up to the place of the length. -/
theorem Hashes.padLoop {l : List UInt8} {obj : Object} (h : Hashes l obj) {fuel : ℕ}
    (hfuel : (120 - l.length % 64) % 64 ≤ fuel) :
    Hashes (l ++ List.replicate ((120 - l.length % 64) % 64) 0) (padLoop fuel obj) := by
  induction fuel generalizing l obj with
  | zero =>
    rw [Nat.le_zero.mp hfuel, List.replicate_zero, List.append_nil]
    exact h
  | succ fuel ih =>
    unfold CSHA1.padLoop
    split_ifs with hne
    · have hlt : l.length % 64 ≠ 56 := fun heq => hne ((and_504_iff h.counts).mpr heq)
      have hlen : (l ++ [0]).length = l.length + 1 := List.length_append
      have hz : (120 - l.length % 64) % 64 = (120 - (l ++ [0]).length % 64) % 64 + 1 := by
        rw [hlen]
        omega
      have hnext := ih (h.Update [0] 1 le_rfl (by decide)) (by
        change (120 - (l ++ [0]).length % 64) % 64 ≤ fuel
        omega)
      rw [hz, List.replicate_succ, List.append_cons]
      exact hnext
    · rw [(and_504_iff h.counts).mp (not_not.mp hne)]
      exact (List.append_nil l).symm ▸ h

/-- The bytes of a word as they are written. -/
theorem wordBytes_eq (w : UInt32) :
    [(w >>> 24).toUInt8, (w >>> 16).toUInt8, (w >>> 8).toUInt8, (w >>> 0).toUInt8]
      = beBytes 4 w.toNat := by
  iterate 4 rw [toUInt8_shiftRight _ (by decide)]
  simp only [beBytes, leBytes, List.reverse_cons, List.reverse_nil, List.nil_append,
    List.cons_append, Nat.div_div_eq_div_mul]
  have hzero : w.toNat / 2 ^ UInt32.toNat 0 = w.toNat := Nat.div_one _
  rw [hzero]
  rfl

/-- The last 8 bytes are the number of bits. -/
theorem finalCount_eq {c : Count} {k : ℕ} (h : c.Counts k) : finalCount c = beBytes 8 (8 * k) := by
  have hlo : c.lo.toNat < 256 ^ 4 := c.lo.toNat_lt
  have hhi : c.hi.toNat < 256 ^ 4 := c.hi.toNat_lt
  have hval : ofBE (beBytes 4 c.hi.toNat ++ beBytes 4 c.lo.toNat) = 8 * k % 256 ^ 8 := by
    rw [ofBE_append, ofBE_beBytes, ofBE_beBytes, length_beBytes, Nat.mod_eq_of_lt hlo,
      Nat.mod_eq_of_lt hhi]
    change _ = 8 * k % 2 ^ 64
    rw [← h]
    omega
  have hbytes := beBytes_ofBE (beBytes 4 c.hi.toNat ++ beBytes 4 c.lo.toNat)
  rw [hval, List.length_append, length_beBytes, length_beBytes] at hbytes
  have hmod : beBytes 8 (8 * k) = beBytes 8 (8 * k % 256 ^ 8) := by
    rw [beBytes, beBytes, leBytes_mod]
  rw [hmod, hbytes, ← wordBytes_eq, ← wordBytes_eq]
  rfl

theorem digestBytes_eq (m_state : Words) :
    digestBytes m_state = m_state.toList.flatMap fun w => beBytes 4 w.toNat := by
  simp only [Words.toList, List.flatMap_cons, List.flatMap_nil, List.append_nil, ← wordBytes_eq]
  rfl

/-- The digest of an object that has taken a text. -/
theorem Hashes.Final {l : List UInt8} {obj : Object} (h : Hashes l obj) :
    obj.Final.m_digest = SHA1.hash l := by
  have hone := h.Update [0x80] 1 le_rfl (by decide)
  have hpad := hone.padLoop (show _ ≤ 64 by omega)
  have hfinal := hpad.Update (finalCount obj.m_count) 8 le_rfl (by decide)
  have hall : (finalCount obj.m_count).take (UInt32.toNat 8) = beBytes 8 (8 * l.length) := by
    rw [finalCount_eq h.counts]
    exact List.take_of_length_le (length_beBytes _ _).le
  have hlen : (l ++ [0x80]).length = l.length + 1 := List.length_append
  have htext : l ++ List.take (UInt32.toNat 1) [0x80]
        ++ List.replicate ((120 - (l ++ List.take (UInt32.toNat 1) [0x80]).length % 64) % 64) 0
        ++ (finalCount obj.m_count).take (UInt32.toNat 8)
      = pad l (beBytes 8 (8 * l.length)) := by
    have hzeros : (120 - (l ++ [0x80]).length % 64) % 64 = (119 - l.length % 64) % 64 := by
      rw [hlen]
      omega
    rw [hall]
    unfold pad
    rw [List.append_cons, ← hzeros]
    rfl
  have hdvd := dvd_length_pad l (length_beBytes 8 (8 * l.length))
  have hfold : (Chunks.chunks 64 (pad l (beBytes 8 (8 * l.length)))).foldl Transform SHA1.init
      = (Chunks.chunks 64 (pad l (beBytes 8 (8 * l.length)))).foldl SHA1.compress SHA1.init :=
    List.foldl_ext _ _ _ fun s c hc =>
      Transform_eq_compress s (Chunks.length_eq_of_mem_chunks (by decide) hdvd hc)
  rw [htext] at hfinal
  have hstate := hfinal.holds.eq_foldl hdvd
  rw [hfold] at hstate
  show digestBytes _ = _
  rw [digestBytes_eq, SHA1.hash, ← hstate]

/-- Pieces are taken one after the other. -/
theorem Hashes.updates {l : List UInt8} {obj : Object} (h : Hashes l obj)
    (pieces : List (List UInt8)) (hlen : ∀ p ∈ pieces, p.length ≤ 2 ^ 32 - 64) :
    Hashes (l ++ pieces.flatten)
      (pieces.foldl (fun obj p => obj.Update p (UInt32.ofNat p.length)) obj) := by
  induction pieces generalizing l obj with
  | nil => exact (List.append_nil l).symm ▸ h
  | cons p pieces ih =>
    have hp := hlen p (List.mem_cons_self ..)
    have hlens : (UInt32.ofNat p.length).toNat = p.length :=
      UInt32.toNat_ofNat_of_lt' (show p.length < 2 ^ 32 by omega)
    have hnext := h.Update p (UInt32.ofNat p.length) hlens.le
      (by rw [hlens]; exact hp)
    rw [hlens, List.take_length] at hnext
    rw [List.flatten_cons, ← List.append_assoc]
    exact ih hnext fun q hq => hlen q (List.mem_cons_of_mem _ hq)

/-- A text that comes in one piece. -/
theorem digest_one {obj : Object} (hbuffer : obj.m_buffer.length = 64) (strVal : List UInt8)
    (hlen : strVal.length ≤ 2 ^ 32 - 64) :
    (obj.Reset.Update strVal (UInt32.ofNat strVal.length)).Final.m_digest = SHA1.hash strVal := by
  have hone := (hashes_Reset hbuffer).updates [strVal] fun p hp => by
    rw [List.mem_singleton.mp hp]
    exact hlen
  rw [List.nil_append, List.flatten_singleton] at hone
  exact hone.Final

/-- **After `Reset` and any pieces, the digest is the hash of all of them**, whatever the object has
done before. -/
theorem digest_eq_hash {obj : Object} (hbuffer : obj.m_buffer.length = 64)
    {pieces : List (List UInt8)} (hlen : ∀ p ∈ pieces, p.length ≤ 2 ^ 32 - 64) :
    (pieces.foldl (fun obj p => obj.Update p (UInt32.ofNat p.length)) obj.Reset).Final.m_digest
      = SHA1.hash pieces.flatten :=
  ((hashes_Reset hbuffer).updates pieces hlen).Final

theorem digest_eq_hash_abc :
    ([[97], [98, 99]].foldl (fun (obj : Object) p => obj.Update p (UInt32.ofNat p.length))
      (Object.Reset ⟨⟨1, 2, 3, 4, 5⟩, ⟨8, 0⟩, List.replicate 64 7, []⟩)).Final.m_digest
      = SHA1.hash [[97], [98, 99]].flatten :=
  digest_eq_hash List.length_replicate (by decide)

end CSHA1
