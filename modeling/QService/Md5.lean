import QService.BlockHash

/-!
# `CMD5`

`digest` is meant to be called in the middle of a text: `final` puts back the state and
the number of bits that it finds. The buffer it leaves as the padding has filled it. As long
as the padding fits behind the bytes in the buffer that is harmless, but with 56 or more of
them it runs over the end of the block, and the zeros and the length are written where
these bytes were. The flag `_finished`, which would keep a second call from that, is
taken back by the updates that `final` makes itself.

So the next digest is that of another text, `afterDigest`, and this is all that can go
wrong: over any calls, the digests are the hashes of the texts changed in this way
(`run_eq_texts`). `transform` is written with names that move, as in `CSHA1`, and is the
loop of 64 steps on four values (`transform_eq_compress`).
-/

/-! ## The algorithm -/

namespace MD5

open ByteOrder BlockHash

/-- Four words. -/
@[ext]
structure Words where
  a : UInt32
  b : UInt32
  c : UInt32
  d : UInt32
  deriving DecidableEq, Repr

/-- Word by word. -/
def Words.add (s t : Words) : Words := ⟨s.a + t.a, s.b + t.b, s.c + t.c, s.d + t.d⟩

/-- The words in their order. -/
def Words.toList (s : Words) : List UInt32 := [s.a, s.b, s.c, s.d]

/-- The state at the start. -/
def init : Words := ⟨0x67452301, 0xefcdab89, 0x98badcfe, 0x10325476⟩

/-- The words of a block. -/
def M (block : List UInt8) (i : ℕ) : UInt32 := UInt32.ofNat (ofLE ((block.drop (4 * i)).take 4))

/-- The function of a step. -/
def f (t : ℕ) (x y z : UInt32) : UInt32 :=
  if t < 16 then (x &&& y) ||| (~~~x &&& z)
  else if t < 32 then (x &&& z) ||| (y &&& ~~~z)
  else if t < 48 then x ^^^ y ^^^ z
  else y ^^^ (x ||| ~~~z)

/-- The word of a step. -/
def g (t : ℕ) : ℕ :=
  if t < 16 then t
  else if t < 32 then (5 * t + 1) % 16
  else if t < 48 then (3 * t + 5) % 16
  else 7 * t % 16

/-- The rotation of a step. -/
def s (t : ℕ) : UInt32 :=
  ([[7, 12, 17, 22], [5, 9, 14, 20], [4, 11, 16, 23], [6, 10, 15, 21]].getD (t / 16) []).getD
    (t % 4) 0

/-- The constants of the steps: the integer part of `2 ^ 32` times the absolute value of the sine of
1, 2 and so on. -/
def K : List UInt32 := [
  0xD76AA478, 0xE8C7B756, 0x242070DB, 0xC1BDCEEE, 0xF57C0FAF,
  0x4787C62A, 0xA8304613, 0xFD469501, 0x698098D8, 0x8B44F7AF,
  0xFFFF5BB1, 0x895CD7BE, 0x6B901122, 0xFD987193, 0xA679438E,
  0x49B40821, 0xF61E2562, 0xC040B340, 0x265E5A51, 0xE9B6C7AA,
  0xD62F105D, 0x02441453, 0xD8A1E681, 0xE7D3FBC8, 0x21E1CDE6,
  0xC33707D6, 0xF4D50D87, 0x455A14ED, 0xA9E3E905, 0xFCEFA3F8,
  0x676F02D9, 0x8D2A4C8A, 0xFFFA3942, 0x8771F681, 0x6D9D6122,
  0xFDE5380C, 0xA4BEEA44, 0x4BDECFA9, 0xF6BB4B60, 0xBEBFBC70,
  0x289B7EC6, 0xEAA127FA, 0xD4EF3085, 0x04881D05, 0xD9D4D039,
  0xE6DB99E5, 0x1FA27CF8, 0xC4AC5665, 0xF4292244, 0x432AFF97,
  0xAB9423A7, 0xFC93A039, 0x655B59C3, 0x8F0CCC92, 0xFFEFF47D,
  0x85845DD1, 0x6FA87E4F, 0xFE2CE6E0, 0xA3014314, 0x4E0811A1,
  0xF7537E82, 0xBD3AF235, 0x2AD7D2BB, 0xEB86D391]

/-- A step, with its constant. -/
def step (block : List UInt8) (v : Words) (t : ℕ × UInt32) : Words :=
  ⟨v.d, rotl (v.a + f t.1 v.b v.c v.d + M block (g t.1) + t.2) (s t.1) + v.b, v.b, v.c⟩

/-- The compression of a block. -/
def compress (v : Words) (block : List UInt8) : Words :=
  v.add ((K.mapIdx Prod.mk).foldl (step block) v)

/-- **The hash of a text.** -/
def hash (l : List UInt8) : List UInt8 :=
  ((Chunks.chunks 64 (pad l (leBytes 8 (8 * l.length)))).foldl compress init).toList.flatMap
    fun w => leBytes 4 w.toNat

end MD5

namespace CMD5

open ByteOrder BlockHash MD5

/-! ## The code -/

/-- The registers of `transform`. -/
inductive Reg
  | a
  | b
  | c
  | d
  deriving DecidableEq, Repr

/-- The macros of a step. -/
inductive Macro
  | FF
  | GG
  | HH
  | II
  deriving DecidableEq, Repr

/-- A macro with its arguments, the word `x` by its place. -/
structure Step where
  macroName : Macro
  a : Reg
  b : Reg
  c : Reg
  d : Reg
  x : ℕ
  s : UInt32
  ac : UInt32
  deriving DecidableEq, Repr

/-- `F`, `G`, `H` and `I`. -/
def Macro.f : Macro → UInt32 → UInt32 → UInt32 → UInt32
  | FF, x, y, z => (x &&& y) ||| (~~~x &&& z)
  | GG, x, y, z => (x &&& z) ||| (y &&& ~~~z)
  | HH, x, y, z => x ^^^ y ^^^ z
  | II, x, y, z => y ^^^ (x ||| ~~~z)

/-- The values of the registers. -/
structure Registers where
  regs : Reg → UInt32

/-- An assignment. -/
def Registers.set (R : Registers) (r : Reg) (val : UInt32) : Registers :=
  ⟨Function.update R.regs r val⟩

/-- The text of a macro. -/
def Step.exec (x : ℕ → UInt32) (R : Registers) (r : Step) : Registers :=
  let R := R.set r.a
    (R.regs r.a + (r.macroName.f (R.regs r.b) (R.regs r.c) (R.regs r.d) + x r.x + r.ac))
  let R := R.set r.a (rotl (R.regs r.a) r.s)
  R.set r.a (R.regs r.a + R.regs r.b)

open Reg in
/-- The steps of `transform`. -/
def steps : List Step := [
  ⟨.FF, a, b, c, d, 0, 7, 0xd76aa478⟩, ⟨.FF, d, a, b, c, 1, 12, 0xe8c7b756⟩,
  ⟨.FF, c, d, a, b, 2, 17, 0x242070db⟩, ⟨.FF, b, c, d, a, 3, 22, 0xc1bdceee⟩,
  ⟨.FF, a, b, c, d, 4, 7, 0xf57c0faf⟩, ⟨.FF, d, a, b, c, 5, 12, 0x4787c62a⟩,
  ⟨.FF, c, d, a, b, 6, 17, 0xa8304613⟩, ⟨.FF, b, c, d, a, 7, 22, 0xfd469501⟩,
  ⟨.FF, a, b, c, d, 8, 7, 0x698098d8⟩, ⟨.FF, d, a, b, c, 9, 12, 0x8b44f7af⟩,
  ⟨.FF, c, d, a, b, 10, 17, 0xffff5bb1⟩, ⟨.FF, b, c, d, a, 11, 22, 0x895cd7be⟩,
  ⟨.FF, a, b, c, d, 12, 7, 0x6b901122⟩, ⟨.FF, d, a, b, c, 13, 12, 0xfd987193⟩,
  ⟨.FF, c, d, a, b, 14, 17, 0xa679438e⟩, ⟨.FF, b, c, d, a, 15, 22, 0x49b40821⟩,
  ⟨.GG, a, b, c, d, 1, 5, 0xf61e2562⟩, ⟨.GG, d, a, b, c, 6, 9, 0xc040b340⟩,
  ⟨.GG, c, d, a, b, 11, 14, 0x265e5a51⟩, ⟨.GG, b, c, d, a, 0, 20, 0xe9b6c7aa⟩,
  ⟨.GG, a, b, c, d, 5, 5, 0xd62f105d⟩, ⟨.GG, d, a, b, c, 10, 9, 0x2441453⟩,
  ⟨.GG, c, d, a, b, 15, 14, 0xd8a1e681⟩, ⟨.GG, b, c, d, a, 4, 20, 0xe7d3fbc8⟩,
  ⟨.GG, a, b, c, d, 9, 5, 0x21e1cde6⟩, ⟨.GG, d, a, b, c, 14, 9, 0xc33707d6⟩,
  ⟨.GG, c, d, a, b, 3, 14, 0xf4d50d87⟩, ⟨.GG, b, c, d, a, 8, 20, 0x455a14ed⟩,
  ⟨.GG, a, b, c, d, 13, 5, 0xa9e3e905⟩, ⟨.GG, d, a, b, c, 2, 9, 0xfcefa3f8⟩,
  ⟨.GG, c, d, a, b, 7, 14, 0x676f02d9⟩, ⟨.GG, b, c, d, a, 12, 20, 0x8d2a4c8a⟩,
  ⟨.HH, a, b, c, d, 5, 4, 0xfffa3942⟩, ⟨.HH, d, a, b, c, 8, 11, 0x8771f681⟩,
  ⟨.HH, c, d, a, b, 11, 16, 0x6d9d6122⟩, ⟨.HH, b, c, d, a, 14, 23, 0xfde5380c⟩,
  ⟨.HH, a, b, c, d, 1, 4, 0xa4beea44⟩, ⟨.HH, d, a, b, c, 4, 11, 0x4bdecfa9⟩,
  ⟨.HH, c, d, a, b, 7, 16, 0xf6bb4b60⟩, ⟨.HH, b, c, d, a, 10, 23, 0xbebfbc70⟩,
  ⟨.HH, a, b, c, d, 13, 4, 0x289b7ec6⟩, ⟨.HH, d, a, b, c, 0, 11, 0xeaa127fa⟩,
  ⟨.HH, c, d, a, b, 3, 16, 0xd4ef3085⟩, ⟨.HH, b, c, d, a, 6, 23, 0x4881d05⟩,
  ⟨.HH, a, b, c, d, 9, 4, 0xd9d4d039⟩, ⟨.HH, d, a, b, c, 12, 11, 0xe6db99e5⟩,
  ⟨.HH, c, d, a, b, 15, 16, 0x1fa27cf8⟩, ⟨.HH, b, c, d, a, 2, 23, 0xc4ac5665⟩,
  ⟨.II, a, b, c, d, 0, 6, 0xf4292244⟩, ⟨.II, d, a, b, c, 7, 10, 0x432aff97⟩,
  ⟨.II, c, d, a, b, 14, 15, 0xab9423a7⟩, ⟨.II, b, c, d, a, 5, 21, 0xfc93a039⟩,
  ⟨.II, a, b, c, d, 12, 6, 0x655b59c3⟩, ⟨.II, d, a, b, c, 3, 10, 0x8f0ccc92⟩,
  ⟨.II, c, d, a, b, 10, 15, 0xffeff47d⟩, ⟨.II, b, c, d, a, 1, 21, 0x85845dd1⟩,
  ⟨.II, a, b, c, d, 8, 6, 0x6fa87e4f⟩, ⟨.II, d, a, b, c, 15, 10, 0xfe2ce6e0⟩,
  ⟨.II, c, d, a, b, 6, 15, 0xa3014314⟩, ⟨.II, b, c, d, a, 13, 21, 0x4e0811a1⟩,
  ⟨.II, a, b, c, d, 4, 6, 0xf7537e82⟩, ⟨.II, d, a, b, c, 11, 10, 0xbd3af235⟩,
  ⟨.II, c, d, a, b, 2, 15, 0x2ad7d2bb⟩, ⟨.II, b, c, d, a, 9, 21, 0xeb86d391⟩]

/-- `CMD5::decode`, a word of it. -/
def decode (input : List UInt8) (i : ℕ) : UInt32 :=
  leWord (input.getD (4 * i) 0) (input.getD (4 * i + 1) 0) (input.getD (4 * i + 2) 0)
    (input.getD (4 * i + 3) 0)

/-- `CMD5::encode`. -/
def encode (input : List UInt32) : List UInt8 :=
  input.flatMap fun (w : UInt32) => [(w &&& 0xff).toUInt8, ((w >>> 8) &&& 0xff).toUInt8,
    ((w >>> 16) &&& 0xff).toUInt8, ((w >>> 24) &&& 0xff).toUInt8]

/-- The registers as they are set from `_state`. -/
def load (state : Words) : Registers where
  regs
    | .a => state.a
    | .b => state.b
    | .c => state.c
    | .d => state.d

/-- `CMD5::transform`. -/
def transform (state : Words) (block : List UInt8) : Words :=
  let regs := (steps.foldl (Step.exec (decode block)) (load state)).regs
  ⟨state.a + regs .a, state.b + regs .b, state.c + regs .c, state.d + regs .d⟩

/-- A `CMD5`. -/
structure Object where
  state : Words
  count : Count
  buffer : List UInt8
  digest : List UInt8
  finished : Bool
  deriving DecidableEq, Repr

/-- `CMD5::reset`. -/
def Object.reset (obj : Object) : Object :=
  { obj with finished := false, count := .zero, state := MD5.init }

/-- `CMD5::update`. -/
def Object.update (obj : Object) (input : List UInt8) : Object :=
  let index := obj.count.index
  let obj := { obj with finished := false, count := obj.count.add (UInt32.ofNat input.length) }
  let partLen := 64 - index
  if partLen.toNat ≤ input.length then
    let buffer := memcpyAt obj.buffer index.toNat (input.take partLen.toNat)
    let (i, state) :=
      blocksFrom transform input input.length input.length partLen (transform obj.state buffer)
    { obj with state := state, buffer := memcpyAt buffer 0 (input.drop i.toNat) }
  else { obj with buffer := memcpyAt obj.buffer index.toNat input }

/-- `PADDING`. -/
def PADDING : List UInt8 := 0x80 :: List.replicate 63 0

/-- `CMD5::final`. -/
def Object.final (obj : Object) : Object :=
  let oldState := obj.state
  let oldCount := obj.count
  let bits := encode [obj.count.lo, obj.count.hi]
  let index := obj.count.index
  let padLen := if index < 56 then 56 - index else 120 - index
  let obj := (obj.update (PADDING.take padLen.toNat)).update bits
  { obj with digest := encode obj.state.toList, state := oldState, count := oldCount }

/-- `CMD5::digest`: the object behind the call, with the digest it returns. -/
def Object.getDigest (obj : Object) : Object :=
  if !obj.finished then ({ obj with finished := true } : Object).final else obj

/-- The calls. -/
inductive Call
  | reset
  | update (input : List UInt8)
  | digest

/-- A run of an object: the digests that it returns. -/
def run : Object → List Call → List (List UInt8)
  | _, [] => []
  | obj, .reset :: calls => run obj.reset calls
  | obj, .update input :: calls => run (obj.update input) calls
  | obj, .digest :: calls => obj.getDigest.digest :: run obj.getDigest calls

/-! ## The steps -/

/-- The registers in a circle. -/
def reg (n : ℕ) : Reg :=
  match n % 4 with
  | 0 => .a
  | 1 => .b
  | 2 => .c
  | _ => .d

theorem reg_congr {m n : ℕ} (h : m % 4 = n % 4) : reg m = reg n := by
  unfold reg
  rw [h]

theorem reg_ne {m n : ℕ} (h : m % 4 ≠ n % 4) : reg m ≠ reg n := by
  have hall : ∀ i < 4, ∀ j < 4, i ≠ j → reg i ≠ reg j := by decide
  rw [reg_congr (Nat.mod_mod m 4).symm, reg_congr (Nat.mod_mod n 4).symm]
  exact hall _ (Nat.mod_lt _ (by decide)) _ (Nat.mod_lt _ (by decide)) h

/-- The macro of step `t`. -/
def macroAt (t : ℕ) : Macro :=
  if t < 16 then .FF
  else if t < 32 then .GG
  else if t < 48 then .HH
  else .II

theorem macroAt_f (t : ℕ) : (macroAt t).f = MD5.f t := by
  funext x y z
  unfold macroAt MD5.f
  split_ifs <;> rfl

/-- Step `t` with its constant: the names have gone back by one place in each step. -/
def stepAt (t : ℕ × UInt32) : Step :=
  ⟨macroAt t.1, reg (3 * t.1), reg (3 * t.1 + 1), reg (3 * t.1 + 2), reg (3 * t.1 + 3), g t.1,
    MD5.s t.1, t.2⟩

theorem steps_eq : steps = (MD5.K.mapIdx Prod.mk).map stepAt := by decide

theorem g_lt {t : ℕ} : g t < 16 ∨ 64 ≤ t := by
  unfold g
  split_ifs <;> omega

/-- A word of a block is made of its bytes. -/
theorem decode_eq {block : List UInt8} (hblock : block.length = 64) {i : ℕ} (hi : i < 16) :
    decode block i = M block i := by
  have hget (k : ℕ) : block.getD (4 * i + k) 0 = (block.drop (4 * i)).getD k 0 := by
    rw [List.getD_eq_getElem?_getD, List.getD_eq_getElem?_getD, List.getElem?_drop]
  have hlen : (block.drop (4 * i)).length = 64 - 4 * i := by rw [List.length_drop, hblock]
  unfold decode M
  rw [show block.getD (4 * i) 0 = (block.drop (4 * i)).getD 0 0 from hget 0, hget 1, hget 2, hget 3]
  match hrest : block.drop (4 * i) with
  | [] | [_] | [_, _] | [_, _, _] =>
    rw [hrest] at hlen
    simp only [List.length_cons, List.length_nil] at hlen
    omega
  | _ :: _ :: _ :: _ :: _ => exact leWord_eq _ _ _ _

/-- The four values before step `t`. -/
def view (t : ℕ) (R : Registers) : Words :=
  ⟨R.regs (reg (3 * t)), R.regs (reg (3 * t + 1)), R.regs (reg (3 * t + 2)),
    R.regs (reg (3 * t + 3))⟩

/-- **A macro does a step of the algorithm**, seen through the names. -/
theorem view_exec {block : List UInt8} (hblock : block.length = 64) (R : Registers) {t : ℕ}
    (ht : t < 64) (k : UInt32) :
    view (t + 1) (Step.exec (decode block) R (stepAt (t, k)))
      = MD5.step block (view t R) (t, k) := by
  have hg : g t < 16 := g_lt.resolve_right (Nat.not_le.mpr ht)
  have hb : reg (3 * t + 1) ≠ reg (3 * t) := reg_ne (by omega)
  have hc : reg (3 * t + 2) ≠ reg (3 * t) := reg_ne (by omega)
  have hd : reg (3 * t + 3) ≠ reg (3 * t) := reg_ne (by omega)
  unfold Step.exec Registers.set view MD5.step
  dsimp only [stepAt]
  rw [macroAt_f, decode_eq hblock hg,
    reg_congr (show 3 * (t + 1) % 4 = (3 * t + 3) % 4 by omega),
    reg_congr (show (3 * (t + 1) + 1) % 4 = 3 * t % 4 by omega),
    reg_congr (show (3 * (t + 1) + 2) % 4 = (3 * t + 1) % 4 by omega),
    reg_congr (show (3 * (t + 1) + 3) % 4 = (3 * t + 2) % 4 by omega)]
  simp only [Function.update_self, Function.update_of_ne hb, Function.update_of_ne hc,
    Function.update_of_ne hd, UInt32.add_assoc]

/-- All of the first steps, for their constants. -/
theorem view_foldl {block : List UInt8} (hblock : block.length = 64) (R : Registers)
    (ks : List UInt32) (hks : ks.length ≤ 64) :
    view ks.length (((ks.mapIdx Prod.mk).map stepAt).foldl (Step.exec (decode block)) R)
      = (ks.mapIdx Prod.mk).foldl (MD5.step block) (view 0 R) := by
  induction ks using List.reverseRecOn with
  | nil => rfl
  | append_singleton ks k ih =>
    rw [List.length_append, List.length_singleton] at hks ⊢
    rw [List.mapIdx_concat, List.map_append, List.foldl_append, List.foldl_append,
      ← ih (by omega)]
    exact view_exec hblock _ (by omega) k

/-- **`transform` is the compression of the algorithm.** -/
theorem transform_eq_compress (state : Words) {block : List UInt8} (hblock : block.length = 64) :
    transform state block = MD5.compress state block := by
  have hview := view_foldl hblock (load state) MD5.K (by decide)
  have hnames (R : Registers) :
      view MD5.K.length R = ⟨R.regs .a, R.regs .b, R.regs .c, R.regs .d⟩ :=
    rfl
  have hload : view 0 (load state) = state := rfl
  rw [hload, hnames] at hview
  unfold transform MD5.compress
  rw [steps_eq, ← hview, Words.add]

/-! ## An object -/

/-- The object has taken a text, since `reset`. -/
structure Takes (l : List UInt8) (obj : Object) : Prop where
  holds : Holds transform 64 MD5.init l obj.state obj.buffer
  counts : obj.count.Counts l.length

/-- **And it is ready for more of it.** -/
structure Hashes (l : List UInt8) (obj : Object) : Prop extends Takes l obj where
  finished : obj.finished = false

theorem hashes_reset {obj : Object} (h : obj.buffer.length = 64) : Hashes [] obj.reset where
  holds := holds_nil transform (by decide) _ h
  counts := Count.counts_zero
  finished := rfl

/-- What a piece does to the state and the buffer. -/
theorem update_eq {obj : Object} {k : ℕ} (hcount : obj.count.Counts k) {input : List UInt8}
    (hlen : input.length ≤ 2 ^ 32 - 64) :
    obj.update input = { obj with
      state := (update transform 64 obj.state obj.buffer (k % 64) input).1
      buffer := (update transform 64 obj.state obj.buffer (k % 64) input).2
      count := obj.count.add (UInt32.ofNat input.length)
      finished := false } := by
  have hj : obj.count.index.toNat = k % 64 := hcount.index
  have hj64 : k % 64 < 64 := Nat.mod_lt _ (by decide)
  have hpart : (64 - obj.count.index).toNat = 64 - k % 64 := by
    have hle : obj.count.index ≤ 64 := by
      rw [UInt32.le_iff_toNat_le, hj]
      exact hj64.le
    rw [UInt32.toNat_sub_of_le _ _ hle, hj]
    rfl
  unfold Object.update
  dsimp only
  by_cases hfull : (64 - obj.count.index).toNat ≤ input.length
  · have hupdate := update_eq_blocksFrom transform le_rfl hlen hj64
      (show 64 ≤ k % 64 + input.length by omega) hpart obj.state obj.buffer
    rw [List.take_length] at hupdate
    rw [if_pos hfull, hupdate, hj]
  · rw [if_neg hfull, update_of_lt transform (show k % 64 + input.length < 64 by omega), hj]

/-- **A piece is appended to the text.** -/
theorem Takes.update {l : List UInt8} {obj : Object} (h : Takes l obj) (input : List UInt8)
    (hlen : input.length ≤ 2 ^ 32 - 64) : Hashes (l ++ input) (obj.update input) := by
  have hcast : (UInt32.ofNat input.length).toNat = input.length :=
    UInt32.toNat_ofNat_of_lt' (show input.length < 2 ^ 32 by omega)
  have hcounts := h.counts.add (UInt32.ofNat input.length)
  rw [hcast, ← List.length_append] at hcounts
  rw [update_eq h.counts hlen]
  exact ⟨⟨h.holds.update (by decide) input, hcounts⟩, rfl⟩

/-! ## The digest -/

/-- The bytes of a word as they are written. -/
theorem encode_word (w : UInt32) :
    [(w &&& 0xff).toUInt8, ((w >>> 8) &&& 0xff).toUInt8, ((w >>> 16) &&& 0xff).toUInt8,
      ((w >>> 24) &&& 0xff).toUInt8] = leBytes 4 w.toNat := by
  have hmask (v : UInt32) : (v &&& 0xff).toUInt8 = v.toUInt8 := by
    apply UInt8.toNat_inj.mp
    rw [UInt32.toNat_toUInt8, UInt32.toNat_toUInt8, UInt32.toNat_and]
    change (v.toNat &&& (2 ^ 8 - 1)) % 256 = _
    rw [Nat.and_two_pow_sub_one_eq_mod]
    omega
  have hzero : w.toUInt8 = UInt8.ofNat (w.toNat % 256) := by
    apply UInt8.toNat_inj.mp
    rw [UInt32.toNat_toUInt8, UInt8.toNat_ofNat']
    omega
  rw [hmask, hmask, hmask, hmask, hzero, toUInt8_shiftRight _ (by decide),
    toUInt8_shiftRight _ (by decide), toUInt8_shiftRight _ (by decide)]
  simp only [leBytes, Nat.div_div_eq_div_mul]
  rfl

theorem encode_eq (input : List UInt32) : encode input = input.flatMap fun w => leBytes 4 w.toNat :=
  List.flatMap_congr fun w _ => encode_word w

/-- The last 8 bytes are the number of bits. -/
theorem encode_count {c : Count} {k : ℕ} (h : c.Counts k) :
    encode [c.lo, c.hi] = leBytes 8 (8 * k) := by
  have hlo : c.lo.toNat < 256 ^ 4 := c.lo.toNat_lt
  have hhi : c.hi.toNat < 256 ^ 4 := c.hi.toNat_lt
  have hval : ofLE (leBytes 4 c.lo.toNat ++ leBytes 4 c.hi.toNat) = 8 * k % 256 ^ 8 := by
    rw [ofLE_append, ofLE_leBytes, ofLE_leBytes, length_leBytes, Nat.mod_eq_of_lt hlo,
      Nat.mod_eq_of_lt hhi]
    change _ = 8 * k % 2 ^ 64
    rw [← h]
    omega
  have hbytes := leBytes_ofLE (leBytes 4 c.lo.toNat ++ leBytes 4 c.hi.toNat)
  rw [hval, List.length_append, length_leBytes, length_leBytes, leBytes_mod] at hbytes
  rw [hbytes, encode_eq, List.flatMap_cons, List.flatMap_singleton]

/-- The text that a later digest is of: with 56 or more bytes in the last block they have become
zeros and the length. -/
def afterDigest (l : List UInt8) : List UInt8 :=
  if l.length % 64 < 56 then l
  else l.take (64 * (l.length / 64))
    ++ (List.replicate 56 0 ++ leBytes 8 (8 * l.length)).take (l.length % 64)

theorem length_afterDigest (l : List UInt8) : (afterDigest l).length = l.length := by
  have hmod : l.length % 64 < 64 := Nat.mod_lt _ (by decide)
  have hwhole := Nat.div_add_mod l.length 64
  unfold afterDigest
  split_ifs
  · rfl
  · rw [List.length_append, List.length_take_of_le (by omega), List.length_take,
      List.length_append, List.length_replicate, length_leBytes, Nat.min_eq_left (by omega),
      hwhole]

/-- The bytes of `PADDING` that `final` takes. -/
theorem take_PADDING {c : Count} {k : ℕ} (h : c.Counts k) :
    PADDING.take (if c.index < 56 then 56 - c.index else 120 - c.index).toNat
      = 0x80 :: List.replicate ((119 - k % 64) % 64) 0 := by
  have hj : c.index.toNat = k % 64 := h.index
  have hj64 : k % 64 < 64 := Nat.mod_lt _ (by decide)
  have hlen : (if c.index < 56 then 56 - c.index else 120 - c.index).toNat
      = (119 - k % 64) % 64 + 1 := by
    have h120 : c.index ≤ 120 := by
      rw [UInt32.le_iff_toNat_le, hj]
      change k % 64 ≤ 120
      omega
    have h56 : c.index < 56 ↔ k % 64 < 56 := by
      rw [UInt32.lt_iff_toNat_lt, hj]
      rfl
    split_ifs with hlt <;> rw [h56] at hlt
    · have hle : c.index ≤ 56 := by
        rw [UInt32.le_iff_toNat_le, hj]
        exact hlt.le
      rw [UInt32.toNat_sub_of_le _ _ hle, hj]
      change 56 - k % 64 = _
      omega
    · rw [UInt32.toNat_sub_of_le _ _ h120, hj]
      change 120 - k % 64 = _
      omega
  rw [hlen]
  unfold PADDING
  rw [List.take_succ_cons, List.take_replicate, Nat.min_eq_left (by omega)]

/-- The buffer behind the padding: where this fits, the bytes in front of it are as they were,
and else there is nothing of them. -/
theorem take_padded {s s' : Words} {buffer bits : List UInt8} {j : ℕ} (hj : j < 64)
    (hbuffer : buffer.length = 64) (hbits : bits.length = 8) :
    ((update transform 64 s' (update transform 64 s buffer j
        (0x80 :: List.replicate ((119 - j) % 64) 0)).2 56 bits).2).take j
      = if j < 56 then buffer.take j else (List.replicate 56 0 ++ bits).take j := by
  have hlen : (0x80 :: List.replicate ((119 - j) % 64) 0 : List UInt8).length
      = (119 - j) % 64 + 1 := by
    rw [List.length_cons, List.length_replicate]
  have hlast (B : List UInt8) : (update transform 64 s' B 56 bits).2 = memcpyAt B 56 bits := by
    rw [update_of_lt_two transform (by decide) (by omega) (by omega),
      List.take_of_length_le hbits.le, List.drop_of_length_le hbits.le, memcpyAt_nil]
  rw [hlast]
  split_ifs with hfits
  · have hpad : j + (0x80 :: List.replicate ((119 - j) % 64) 0 : List UInt8).length = 56 := by
      rw [hlen]
      omega
    rw [update_of_lt transform (by omega)]
    dsimp only
    rw [take_memcpyAt_of_le bits hfits.le (by rw [length_memcpyAt (by omega)]; omega),
      take_memcpyAt_of_le _ le_rfl (by omega)]
  · -- the padding runs over the end, and its zeros start the next block
    have hfirst : ((0x80 :: List.replicate ((119 - j) % 64) 0 : List UInt8).take (64 - j)).length
        = 64 - j := List.length_take_of_le (by rw [hlen]; omega)
    have hzeros : (0x80 :: List.replicate ((119 - j) % 64) 0 : List UInt8).drop (64 - j)
        = List.replicate 56 0 := by
      rw [show 64 - j = (63 - j) + 1 by omega, List.drop_succ_cons, List.drop_replicate,
        show (119 - j) % 64 - (63 - j) = 56 by omega]
    have hfull : (memcpyAt buffer j ((0x80 :: List.replicate ((119 - j) % 64) 0
        : List UInt8).take (64 - j))).length = 64 := by
      rw [length_memcpyAt (by omega), hbuffer]
    rw [update_of_lt_two transform hj (by rw [hlen]; omega) (by rw [hlen]; omega), hzeros]
    generalize memcpyAt buffer j _ = B at hfull ⊢
    have hstart := take_memcpyAt (List.replicate 56 (0 : UInt8)) (Nat.zero_le B.length)
    rw [List.length_replicate, List.take_zero, List.nil_append, Nat.zero_add] at hstart
    have hB : (memcpyAt B 0 (List.replicate 56 0)).length = 64 := by
      rw [length_memcpyAt (by rw [List.length_replicate]; omega), hfull]
    have hall := take_memcpyAt (j := 56) bits
      (show 56 ≤ (memcpyAt B 0 (List.replicate 56 0)).length by omega)
    have hend : (memcpyAt (memcpyAt B 0 (List.replicate 56 0)) 56 bits).length = 64 := by
      rw [length_memcpyAt (by omega), hB]
    rw [hbits, hstart, List.take_of_length_le (by omega)] at hall
    rw [hall]

/-- **The digest is the hash of the text**, and the object is left with the text changed. -/
theorem Takes.final {l : List UInt8} {obj : Object} (h : Takes l obj) :
    obj.final.digest = MD5.hash l ∧ Hashes (afterDigest l) obj.final := by
  have hj64 : l.length % 64 < 64 := Nat.mod_lt _ (by decide)
  have hpadlen : (0x80 :: List.replicate ((119 - l.length % 64) % 64) (0 : UInt8)).length
      = (119 - l.length % 64) % 64 + 1 := by
    rw [List.length_cons, List.length_replicate]
  have hbits : (leBytes 8 (8 * l.length)).length = 8 := length_leBytes _ _
  have hdvd := dvd_length_pad l hbits
  -- the two updates
  have hone := h.update (0x80 :: List.replicate ((119 - l.length % 64) % 64) 0)
    (by omega)
  have htwo := hone.update (leBytes 8 (8 * l.length)) (by omega)
  have hobj : obj.final
      = { (obj.update (0x80 :: List.replicate ((119 - l.length % 64) % 64) 0)).update
            (leBytes 8 (8 * l.length)) with
          digest := encode ((obj.update (0x80 :: List.replicate ((119 - l.length % 64) % 64)
            0)).update (leBytes 8 (8 * l.length))).state.toList
          state := obj.state
          count := obj.count } := by
    unfold Object.final
    dsimp only
    rw [take_PADDING h.counts, encode_count h.counts]
  have hbuffer : ((obj.update (0x80 :: List.replicate ((119 - l.length % 64) % 64) 0)).update
        (leBytes 8 (8 * l.length))).buffer.take (l.length % 64)
      = if l.length % 64 < 56 then obj.buffer.take (l.length % 64)
        else (List.replicate 56 0 ++ leBytes 8 (8 * l.length)).take (l.length % 64) := by
    have hmid : (l ++ 0x80 :: List.replicate ((119 - l.length % 64) % 64) 0).length % 64 = 56 := by
      rw [List.length_append, hpadlen]
      omega
    rw [update_eq hone.counts (by omega), hmid, update_eq h.counts (by omega)]
    exact take_padded hj64 h.holds.length_buffer hbits
  generalize (obj.update _).update _ = obj' at htwo hobj hbuffer
  rw [hobj]
  refine ⟨?_, ⟨⟨?_, ?_⟩, ?_⟩, htwo.finished⟩
  · have hstate := htwo.holds.eq_foldl hdvd
    have hfold : (Chunks.chunks 64 (pad l (leBytes 8 (8 * l.length)))).foldl transform MD5.init
        = (Chunks.chunks 64 (pad l (leBytes 8 (8 * l.length)))).foldl MD5.compress
            MD5.init :=
      List.foldl_ext _ _ _ fun s c hc =>
        transform_eq_compress s (Chunks.length_eq_of_mem_chunks (by decide) hdvd hc)
    dsimp only
    rw [encode_eq, MD5.hash, hstate, ← hfold]
    rfl
  · exact htwo.holds.length_buffer
  · have habs := h.holds.absorb_eq
    dsimp only
    rw [length_afterDigest, hbuffer]
    unfold afterDigest
    split_ifs with hfits
    · exact habs
    · rw [absorb_take_append transform, habs]
      rw [List.length_take, List.length_append, List.length_replicate, hbits]
      omega
  · dsimp only
    rw [length_afterDigest]
    exact h.counts

/-- `digest` does not find the flag set. -/
theorem Hashes.getDigest {l : List UInt8} {obj : Object} (h : Hashes l obj) :
    obj.getDigest.digest = MD5.hash l ∧ Hashes (afterDigest l) obj.getDigest := by
  have hset : Takes l { obj with finished := true } := ⟨h.holds, h.counts⟩
  unfold Object.getDigest
  rw [h.finished]
  exact hset.final

/-! ## Runs -/

/-- The texts of a run: those whose hashes it returns. -/
def texts : List UInt8 → List Call → List (List UInt8)
  | _, [] => []
  | _, .reset :: calls => texts [] calls
  | l, .update input :: calls => texts (l ++ input) calls
  | l, .digest :: calls => l :: texts (afterDigest l) calls

/-- The pieces of a run are short enough for its index. -/
def Short : Call → Prop
  | .update input => input.length ≤ 2 ^ 32 - 64
  | _ => True

instance : DecidablePred Short
  | .reset => .isTrue trivial
  | .update input => inferInstanceAs (Decidable (input.length ≤ 2 ^ 32 - 64))
  | .digest => .isTrue trivial

theorem Hashes.run {l : List UInt8} {obj : Object} (h : Hashes l obj) {calls : List Call}
    (hcalls : ∀ call ∈ calls, Short call) : run obj calls = (texts l calls).map MD5.hash := by
  induction calls generalizing l obj with
  | nil => rfl
  | cons call calls ih =>
    have htail : ∀ c ∈ calls, Short c := fun c hc => hcalls c (List.mem_cons_of_mem _ hc)
    cases call with
    | reset => exact ih (hashes_reset h.holds.length_buffer) htail
    | update input => exact ih (h.update input (hcalls _ (List.mem_cons_self ..))) htail
    | digest =>
      rw [CMD5.run, texts, List.map_cons, h.getDigest.1, ih h.getDigest.2 htail]

/-- **The digests of a run are the hashes of its texts**: of what has come since `reset`, changed by
the digests that were taken of it. -/
theorem run_eq_texts {obj : Object} (hbuffer : obj.buffer.length = 64) {calls : List Call}
    (hcalls : ∀ call ∈ calls, Short call) :
    run obj.reset calls = (texts [] calls).map MD5.hash :=
  (hashes_reset hbuffer).run hcalls

theorem run_eq_texts_twice :
    run (Object.reset ⟨⟨1, 2, 3, 4⟩, ⟨5, 6⟩, List.replicate 64 7, [], true⟩)
        [.update (List.replicate 57 97), .digest, .digest]
      = (texts [] [.update (List.replicate 57 97), .digest, .digest]).map MD5.hash :=
  run_eq_texts List.length_replicate (by decide)

/-- A digest changes the text just where it is taken with 56 or more bytes in the last block, and
these are not already zeros and the length. -/
theorem afterDigest_eq_iff (l : List UInt8) :
    afterDigest l = l ↔ l.length % 64 < 56
      ∨ l.drop (64 * (l.length / 64))
        = (List.replicate 56 0 ++ leBytes 8 (8 * l.length)).take (l.length % 64) := by
  unfold afterDigest
  split_ifs with hfits
  · exact ⟨fun _ => .inl hfits, fun _ => rfl⟩
  · refine ⟨fun h => .inr ?_, fun h => ?_⟩
    · conv at h => rhs; rw [← List.take_append_drop (64 * (l.length / 64)) l]
      exact (List.append_cancel_left h).symm
    · rw [← h.resolve_left hfits, List.take_append_drop]

end CMD5
