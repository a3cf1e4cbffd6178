import QService.BufferMgr
import QService.Framing
import QService.Host

/-!
# `zlibDecompression`

A text is inflated into the buffer that an object shares between all its calls, however
large that is by now. While `inflate` has more to give than there is room for, the buffer
is doubled, and `inflate` goes on behind the old bytes.

What a text inflates to is a parameter, and so is what `inflate` answers as far as it is
free to: with more to come it may or may not call that an error, and when the
output just fits, it may or may not have seen the end. `inflate` counts in `uInt`, though, and
the code hands it the size of the buffer and that of the text as they are. What that
leaves is `exact_iff_roomy`: a text is inflated exactly, from any buffer of a given size, unless
its own size or that of the buffer does not fit a `uInt` and what is left of it is too
little.
-/

namespace Zlib

/-! ## What `inflate` does -/

/-- What there is behind the output of a text: the end of the stream, nothing as yet, or
what cannot be inflated. -/
inductive Ending
  | streamEnd
  | needInput
  | corrupt
  deriving DecidableEq

/-- A format of compressed texts: what a text inflates to and how that ends. What follows
the end of a stream does not matter. -/
structure Format where
  out : List UInt8 → List UInt8
  ending : List UInt8 → Ending
  ending_append : ∀ s t, ending s = .streamEnd → ending (s ++ t) = .streamEnd
  out_append : ∀ s t, ending s = .streamEnd → out (s ++ t) = out s

/-- What a text stands for: nothing, unless it holds a whole stream. -/
def Format.meaning (F : Format) (s : List UInt8) : Option (List UInt8) :=
  if F.ending s = .streamEnd then some (F.out s) else none

/-- What the functions of zlib return. -/
inductive ZCode
  | ok
  | streamEnd
  | needDict
  | errno
  | streamError
  | dataError
  | memError
  | bufError
  | versionError
  deriving DecidableEq

/-- More room is needed, or more input. -/
def ZCode.WantsMore (c : ZCode) : Prop := c = .bufError ∨ c = .ok

/-- What `inflate` returns when it has met the ending of a text. -/
def ZCode.Tells (c : ZCode) : Ending → Prop
  | .streamEnd => c = .streamEnd
  | .needInput => c.WantsMore
  | .corrupt => c ≠ .streamEnd ∧ ¬ c.WantsMore

theorem ZCode.WantsMore.ne_streamEnd {c : ZCode} (h : c.WantsMore) : c ≠ .streamEnd := by
  rcases h with rfl | rfl <;> decide

/-- Only the end of a stream is told as one. -/
theorem ZCode.Tells.ne_streamEnd {c : ZCode} {e : Ending} (h : c.Tells e)
    (he : e ≠ .streamEnd) : c ≠ .streamEnd := by
  cases e with
  | streamEnd => exact absurd rfl he
  | needInput => exact WantsMore.ne_streamEnd h
  | corrupt => exact h.1

/-- `z_stream`. What else `inflate` knows depends on the text and on the rooms it was given
so far. -/
structure ZStream where
  nextOut : ℕ
  availOut : ℕ
  totalOut : ℕ
  rooms : List ℕ

/-- What of the output is still to come. -/
def Format.left (F : Format) (s : List UInt8) (z : ZStream) : List UInt8 :=
  (F.out s).drop z.totalOut

/-- What `inflate`, with `inflateInit2` and `inflateEnd`, may return. -/
structure Inflate (F : Format) where
  init : ZCode
  code : List UInt8 → ZStream → ZCode
  finish : ZCode
  init_ok : init = .ok
  finish_ok : finish = .ok
  code_of_lt : ∀ s z, z.availOut < (F.left s z).length → (code s z).WantsMore
  code_of_eq : ∀ s z, z.availOut = (F.left s z).length →
    (code s z).WantsMore ∨ (code s z).Tells (F.ending s)
  code_of_gt : ∀ s z, (F.left s z).length < z.availOut → (code s z).Tells (F.ending s)

/-- An `inflate` that never sees an ending before it has room to spare. -/
def Inflate.lazy (F : Format) : Inflate F where
  init := .ok
  code s z :=
    if z.availOut ≤ (F.left s z).length then .bufError
    else match F.ending s with
      | .streamEnd => .streamEnd
      | .needInput => .bufError
      | .corrupt => .dataError
  finish := .ok
  init_ok := rfl
  finish_ok := rfl
  code_of_lt s z h := by
    rw [if_pos h.le]
    exact Or.inl rfl
  code_of_eq s z h := by
    rw [if_pos h.le]
    exact Or.inl (Or.inl rfl)
  code_of_gt s z h := by
    rw [if_neg (by omega)]
    cases F.ending s with
    | streamEnd => rfl
    | needInput => exact Or.inl rfl
    | corrupt => exact ⟨by decide, by rintro (h | h) <;> cases h⟩

/-! ## The code -/

/-- The variables of `zlibDecompression`. `returned` is what it has returned: the bytes at
the pointer, or none for NULL. -/
structure State where
  pBuffer : List UInt8
  iBufferLen : ℕ
  stStream : ZStream
  returned : Option (Option (List UInt8))

/-- A block with other bytes from an offset on. -/
def writeAt (block : List UInt8) (i : ℕ) (bs : List UInt8) : List UInt8 :=
  block.take i ++ bs ++ block.drop (i + bs.length)

/-- What `inflate` writes: as much of the output as there is room for. -/
def put (F : Format) (s : List UInt8) (z : ZStream) : List UInt8 := (F.left s z).take z.availOut

/-- The effect of `inflate`. -/
def deliver (F : Format) (s : List UInt8) (σ : State) : State :=
  let bs := put F s σ.stStream
  { σ with
    pBuffer := writeAt σ.pBuffer σ.stStream.nextOut bs
    stStream :=
      { nextOut := σ.stStream.nextOut + bs.length
        availOut := σ.stStream.availOut - bs.length
        totalOut := σ.stStream.totalOut + bs.length
        rooms := σ.stStream.availOut :: σ.stStream.rooms } }

/-- `inflate` with `Z_FINISH`. -/
def Inflate.inflate {F : Format} (I : Inflate F) (s : List UInt8) (σ : State) : ZCode × State :=
  (I.code s σ.stStream, deliver F s σ)

section Code

variable {F : Format} (I : Inflate F) (w : Width) (heap : List UInt8 → ℕ → UInt8) (mem : ℕ)

/-- The case that needs more memory. -/
def moreMemory (σ : State) : LoopStep State :=
  let iNewLen := 2 * σ.iBufferLen % w.modulus
  match Buffer.reNewOrNull heap mem σ.pBuffer iNewLen with
  | none => .stop { σ with pBuffer := [], returned := some none }
  | some pBuffer =>
    .next
      { σ with
        pBuffer := pBuffer
        iBufferLen := iNewLen
        stStream :=
          { σ.stStream with nextOut := σ.iBufferLen, availOut := σ.iBufferLen % 2 ^ 32 } }

/-- The body of the loop. -/
def inflateBody (s : List UInt8) (σ : State) : LoopStep State :=
  match I.inflate s σ with
  | (.streamEnd, σ) =>
    if I.finish = .ok then
      .stop { σ with returned := some (some (σ.pBuffer.take σ.stStream.totalOut)) }
    else .stop { σ with returned := some none }
  | (.bufError, σ) =>
    -- room to spare: the input is at fault
    if 0 < σ.stStream.availOut then .stop { σ with returned := some none }
    else moreMemory w heap mem σ
  | (.ok, σ) => moreMemory w heap mem σ
  | (_, σ) => .stop { σ with returned := some none }

/-- The size of the shared buffer, if there is one. -/
def bufferLen (block s : List UInt8) : ℕ :=
  if block.length = 0 then s.length else block.length

/-- What `inflate` sees of a text: `avail_in` is a `uInt`. -/
def input (s : List UInt8) : List UInt8 := s.take (s.length % 2 ^ 32)

/-- The variables before the loop. -/
def State.start (pBuffer : List UInt8) (iBufferLen : ℕ) : State where
  pBuffer := pBuffer
  iBufferLen := iBufferLen
  stStream :=
    { nextOut := 0
      availOut := iBufferLen % 2 ^ 32
      totalOut := 0
      rooms := [] }
  returned := none

/-- `CEncrypt::zlibDecompression`, for at most `fuel` rounds of the loop. -/
def zlibDecompression (block s : List UInt8) (fuel : ℕ) : State :=
  match Buffer.newOrNull heap mem block (bufferLen block s) with
  | none => { State.start [] (bufferLen block s) with returned := some none }
  | some pBuffer =>
    match I.init with
    | .ok =>
      LoopStep.whileTrue (inflateBody I w heap mem (input s)) fuel
        (State.start pBuffer (bufferLen block s))
    | _ => { State.start pBuffer (bufferLen block s) with returned := some none }

end Code

/-! ## Blocks -/

theorem length_writeAt {block bs : List UInt8} {i : ℕ} (h : i + bs.length ≤ block.length) :
    (writeAt block i bs).length = block.length := by
  rw [writeAt, List.length_append, List.length_append, List.length_drop,
    List.length_take_of_le (by omega)]
  omega

theorem take_writeAt {block bs : List UInt8} {i : ℕ} (h : i ≤ block.length) :
    (writeAt block i bs).take (i + bs.length) = block.take i ++ bs := by
  refine List.take_left' ?_
  rw [List.length_append, List.length_take_of_le h]

@[simp] theorem writeAt_nil (block : List UInt8) (i : ℕ) : writeAt block i [] = block := by
  rw [writeAt, List.append_nil, List.length_nil, Nat.add_zero, List.take_append_drop]

/-- Behind the bytes that are written and before them a block stays as it is. -/
theorem getElem?_writeAt {block bs : List UInt8} {i j : ℕ} (hi : i ≤ block.length)
    (h : j < i ∨ i + bs.length ≤ j) : (writeAt block i bs)[j]? = block[j]? := by
  have hlen : (block.take i ++ bs).length = i + bs.length := by
    rw [List.length_append, List.length_take_of_le hi]
  rcases h with h | h
  · rw [writeAt, List.append_assoc, List.getElem?_append_left (by
      rw [List.length_take_of_le hi]; exact h), List.getElem?_take_of_lt h]
  · rw [writeAt, List.getElem?_append_right (by omega), List.getElem?_drop, hlen]
    congr 1
    omega

/-! ## One round -/

section Round

variable {F : Format} {I : Inflate F} {w : Width} {heap : List UInt8 → ℕ → UInt8} {mem : ℕ}
variable {s : List UInt8} {σ σ' : State}

/-- The room given to `inflate` is in the buffer, and the buffer in memory. -/
structure State.Fits (mem : ℕ) (σ : State) : Prop where
  pos : 0 < σ.iBufferLen
  length_pBuffer : σ.pBuffer.length = σ.iBufferLen
  le_mem : σ.iBufferLen ≤ mem
  room : σ.stStream.nextOut + σ.stStream.availOut ≤ σ.iBufferLen

theorem length_put (F : Format) (s : List UInt8) (z : ZStream) :
    (put F s z).length = min z.availOut (F.left s z).length := List.length_take

theorem length_left (F : Format) (s : List UInt8) (z : ZStream) :
    (F.left s z).length = (F.out s).length - z.totalOut := List.length_drop

theorem State.Fits.deliver (h : σ.Fits mem) : (deliver F s σ).Fits mem := by
  have hput : (put F s σ.stStream).length ≤ σ.stStream.availOut := by
    rw [length_put]
    exact min_le_left _ _
  have hroom := h.room
  have hlen := h.length_pBuffer
  refine ⟨h.pos, ?_, h.le_mem, ?_⟩
  · exact (length_writeAt (by omega)).trans hlen
  · show σ.stStream.nextOut + (put F s σ.stStream).length
      + (σ.stStream.availOut - (put F s σ.stStream).length) ≤ σ.iBufferLen
    omega

/-- The variables after the buffer has been doubled. -/
def grown (σ : State) (fresh : List UInt8) : State :=
  { σ with
    pBuffer := σ.pBuffer ++ fresh
    iBufferLen := 2 * σ.iBufferLen
    stStream := { σ.stStream with nextOut := σ.iBufferLen, availOut := σ.iBufferLen % 2 ^ 32 } }

theorem State.Fits.grown (h : σ.Fits mem) {fresh : List UInt8}
    (hfresh : fresh.length = σ.iBufferLen) (hmem : 2 * σ.iBufferLen ≤ mem) :
    (grown σ fresh).Fits mem := by
  have hpos := h.pos
  have hlen := h.length_pBuffer
  have hmod := Nat.mod_le σ.iBufferLen (2 ^ 32)
  refine ⟨?_, ?_, hmem, ?_⟩
  · show 0 < 2 * σ.iBufferLen
    omega
  · show (σ.pBuffer ++ fresh).length = 2 * σ.iBufferLen
    rw [List.length_append]
    omega
  · show σ.iBufferLen + σ.iBufferLen % 2 ^ 32 ≤ 2 * σ.iBufferLen
    omega

/-- With memory for it the buffer is doubled. -/
theorem moreMemory_of_le (heap : List UInt8 → ℕ → UInt8) (h : σ.Fits mem)
    (hw : mem < w.modulus / 2) (hmem : 2 * σ.iBufferLen ≤ mem) :
    ∃ fresh, moreMemory w heap mem σ = .next (grown σ fresh)
      ∧ fresh.length = σ.iBufferLen := by
  have hpos := h.pos
  have hlen := h.length_pBuffer
  have hmod : 2 * σ.iBufferLen % w.modulus = 2 * σ.iBufferLen := Nat.mod_eq_of_lt (by omega)
  have hne : σ.pBuffer ≠ [] := List.ne_nil_of_length_pos (by omega)
  obtain ⟨fresh, heq, hfresh⟩ := Buffer.reNewOrNull_eq_some heap hne
    (by omega : σ.pBuffer.length < 2 * σ.iBufferLen) hmem
  refine ⟨fresh, ?_, by omega⟩
  rw [moreMemory, hmod]
  dsimp only
  rw [heq]
  rfl

/-- Without it there is nothing to return. -/
theorem moreMemory_of_gt (h : σ.Fits mem) (hw : mem < w.modulus / 2)
    (hmem : mem < 2 * σ.iBufferLen) :
    moreMemory w heap mem σ = .stop { σ with pBuffer := [], returned := some none } := by
  have hpos := h.pos
  have hlen := h.length_pBuffer
  have hle := h.le_mem
  have hmod : 2 * σ.iBufferLen % w.modulus = 2 * σ.iBufferLen := Nat.mod_eq_of_lt (by omega)
  have hne : σ.pBuffer ≠ [] := List.ne_nil_of_length_pos (by omega)
  rw [moreMemory, hmod]
  dsimp only
  rw [Buffer.reNewOrNull_eq_none hne (by omega) hmem]

/-- The end of the stream: all that `inflate` has given out is returned. -/
theorem inflateBody_streamEnd (hc : I.code s σ.stStream = .streamEnd) :
    inflateBody I w heap mem s σ
      = .stop { deliver F s σ with
          returned := some (some ((deliver F s σ).pBuffer.take
            (deliver F s σ).stStream.totalOut)) } := by
  unfold inflateBody Inflate.inflate
  rw [hc]
  exact if_pos I.finish_ok

/-- More is wanted and the room is used up: a larger buffer. -/
theorem inflateBody_full (hc : (I.code s σ.stStream).WantsMore)
    (hfull : (deliver F s σ).stStream.availOut = 0) :
    inflateBody I w heap mem s σ = moreMemory w heap mem (deliver F s σ) := by
  unfold inflateBody Inflate.inflate
  rcases hc with hc | hc
  · rw [hc]
    exact if_neg (by rw [hfull]; exact lt_irrefl 0)
  · rw [hc]

/-- Short of the end of a stream, a round grows the buffer or returns NULL. -/
theorem inflateBody_of_ne (w : Width) (heap : List UInt8 → ℕ → UInt8) (mem : ℕ)
    (hc : I.code s σ.stStream ≠ .streamEnd) :
    inflateBody I w heap mem s σ = moreMemory w heap mem (deliver F s σ)
      ∨ ∃ p, inflateBody I w heap mem s σ
          = .stop { deliver F s σ with pBuffer := p, returned := some none } := by
  unfold inflateBody Inflate.inflate
  cases hcode : I.code s σ.stStream with
  | streamEnd => exact absurd hcode hc
  | bufError =>
    dsimp only
    split_ifs with h
    · exact Or.inr ⟨_, rfl⟩
    · exact Or.inl rfl
  | ok => exact Or.inl rfl
  | _ => exact Or.inr ⟨_, rfl⟩

/-- **A round that goes on** has doubled the buffer. -/
theorem inflateBody_next (h : σ.Fits mem) (hw : mem < w.modulus / 2)
    (hb : inflateBody I w heap mem s σ = .next σ') :
    I.code s σ.stStream ≠ .streamEnd ∧ 2 * σ.iBufferLen ≤ mem
      ∧ ∃ fresh, fresh.length = σ.iBufferLen ∧ σ' = grown (deliver F s σ) fresh := by
  have hne : I.code s σ.stStream ≠ .streamEnd := by
    intro hc
    rw [inflateBody_streamEnd hc] at hb
    cases hb
  rcases inflateBody_of_ne w heap mem hne with hm | ⟨p, hp⟩
  · rw [hm] at hb
    by_cases hmem : 2 * σ.iBufferLen ≤ mem
    · obtain ⟨fresh, heq, hfresh⟩ := moreMemory_of_le heap (h.deliver (F := F) (s := s)) hw
        hmem
      rw [heq] at hb
      cases hb
      exact ⟨hne, hmem, fresh, hfresh, rfl⟩
    · rw [moreMemory_of_gt h.deliver hw (not_le.mp hmem)] at hb
      cases hb
  · rw [hp] at hb
    cases hb

/-- **A round that returns short of the end of a stream** returns NULL. -/
theorem inflateBody_stop (h : σ.Fits mem) (hw : mem < w.modulus / 2)
    (hc : I.code s σ.stStream ≠ .streamEnd) (hb : inflateBody I w heap mem s σ = .stop σ') :
    σ'.returned = some none := by
  rcases inflateBody_of_ne w heap mem hc with hm | ⟨p, hp⟩
  · rw [hm] at hb
    by_cases hmem : 2 * σ.iBufferLen ≤ mem
    · obtain ⟨fresh, heq, -⟩ := moreMemory_of_le heap (h.deliver (F := F) (s := s)) hw
        hmem
      rw [heq] at hb
      cases hb
    · rw [moreMemory_of_gt h.deliver hw (not_le.mp hmem)] at hb
      cases hb
      rfl
  · rw [hp] at hb
    cases hb
    rfl

end Round

/-! ## All rounds -/

section Rounds

variable {F : Format} {I : Inflate F} {w : Width} {heap : List UInt8 → ℕ → UInt8}
variable {mem c : ℕ} {block s : List UInt8}

/-- **The rule for `zlibDecompression`.** What holds before the loop and is kept by every
doubling of the buffer gives what every return from there establishes. The loop does
return, for the buffer does not outgrow the memory. -/
theorem zlibDecompression_rule (hw : mem < w.modulus / 2) (hc : 0 < c) (hmem : c ≤ mem)
    (hblock : bufferLen block s = c) (J Q : State → Prop)
    (hstart : ∀ p, p.length = c → (block ≠ [] → p = block) → J (State.start p c))
    (hnext : ∀ σ fresh, σ.Fits mem → J σ → I.code (input s) σ.stStream ≠ .streamEnd →
      2 * σ.iBufferLen ≤ mem → J (grown (deliver F (input s) σ) fresh))
    (hstop : ∀ σ σ', σ.Fits mem → J σ → inflateBody I w heap mem (input s) σ = .stop σ' → Q σ')
    {fuel : ℕ} (hfuel : mem < fuel) : Q (zlibDecompression I w heap mem block s fuel) := by
  have hlen : block.length = 0 ∨ block.length = c := by
    unfold bufferLen at hblock
    split_ifs at hblock with h
    · exact Or.inl h
    · exact Or.inr hblock
  obtain ⟨p, hnew, hp, hpb⟩ := Buffer.newOrNull_eq_some heap hlen hmem
  unfold zlibDecompression
  rw [hblock, hnew, I.init_ok]
  refine LoopStep.whileTrue_rule (fun σ => σ.Fits mem ∧ J σ) Q (mem - ·.iBufferLen)
    (fun σ σ' hσ hb => ?_) (fun σ σ' hσ => hstop σ σ' hσ.1 hσ.2) fuel _ ⟨?_, hstart p hp hpb⟩ ?_
  · obtain ⟨hne, hle, fresh, hfresh, rfl⟩ := inflateBody_next hσ.1 hw hb
    refine ⟨⟨hσ.1.deliver.grown hfresh hle, hnext σ fresh hσ.1 hσ.2 hne hle⟩, ?_⟩
    have hpos := hσ.1.pos
    show mem - 2 * σ.iBufferLen < mem - σ.iBufferLen
    omega
  · refine ⟨hc, hp, hmem, ?_⟩
    show 0 + c % 2 ^ 32 ≤ c
    have := Nat.mod_le c (2 ^ 32)
    omega
  · show mem - c < fuel
    omega

/-- **Without the end of a stream NULL is returned.** -/
theorem returned_of_ne (hw : mem < w.modulus / 2) (hc : 0 < c) (hmem : c ≤ mem)
    (hblock : bufferLen block s = c) (hend : F.ending (input s) ≠ .streamEnd) {fuel : ℕ}
    (hfuel : mem < fuel) :
    (zlibDecompression I w heap mem block s fuel).returned = some none := by
  have hcode : ∀ z, I.code (input s) z ≠ .streamEnd := by
    intro z
    rcases lt_trichotomy z.availOut (F.left (input s) z).length with h | h | h
    · exact (I.code_of_lt _ z h).ne_streamEnd
    · rcases I.code_of_eq _ z h with h | h
      · exact h.ne_streamEnd
      · exact h.ne_streamEnd hend
    · exact (I.code_of_gt _ z h).ne_streamEnd hend
  exact zlibDecompression_rule hw hc hmem hblock (fun _ => True) (·.returned = some none)
    (fun _ _ _ => trivial) (fun _ _ _ _ _ _ => trivial)
    (fun σ σ' hσ _ hb => inflateBody_stop hσ hw (hcode _) hb) hfuel

/-- While a whole stream is given out, `inflate` answers otherwise than with its end only
when it has used up its room. -/
theorem wantsMore_of_ne (hend : F.ending s = .streamEnd) {z : ZStream}
    (hc : I.code s z ≠ .streamEnd) :
    z.availOut ≤ (F.left s z).length ∧ (I.code s z).WantsMore := by
  rcases lt_trichotomy z.availOut (F.left s z).length with h | h | h
  · exact ⟨h.le, I.code_of_lt s z h⟩
  · refine ⟨h.le, (I.code_of_eq s z h).resolve_right fun htells => hc ?_⟩
    rwa [hend] at htells
  · have htells := I.code_of_gt s z h
    rw [hend] at htells
    exact absurd htells hc

/-- With its end, only when all is given out. -/
theorem le_of_streamEnd {z : ZStream} (hc : I.code s z = .streamEnd) :
    (F.left s z).length ≤ z.availOut := by
  by_contra h
  exact (I.code_of_lt s z (not_le.mp h)).ne_streamEnd hc

/-- The buffer starts with what has been given out, and what is still to come goes behind
that. -/
structure Right (F : Format) (s : List UInt8) (σ : State) : Prop where
  le : σ.stStream.totalOut ≤ (F.out s).length
  take : σ.pBuffer.take σ.stStream.totalOut = (F.out s).take σ.stStream.totalOut
  nextOut : σ.stStream.nextOut = σ.stStream.totalOut ∨ σ.stStream.totalOut = (F.out s).length

theorem totalOut_deliver (F : Format) (s : List UInt8) (σ : State) :
    (deliver F s σ).stStream.totalOut = σ.stStream.totalOut
      + min σ.stStream.availOut ((F.out s).length - σ.stStream.totalOut) := by
  rw [← length_left, ← length_put]
  rfl

/-- **`inflate` keeps the buffer right.** -/
theorem Right.take_deliver {σ : State} (h : Right F s σ) (hfits : σ.Fits mem) :
    (deliver F s σ).pBuffer.take (deliver F s σ).stStream.totalOut
      = (F.out s).take (deliver F s σ).stStream.totalOut := by
  have hroom := hfits.room
  have hlen := hfits.length_pBuffer
  rcases h.nextOut with hn | hn
  · have hput : (F.out s).take (σ.stStream.totalOut + (put F s σ.stStream).length)
        = (F.out s).take σ.stStream.totalOut ++ put F s σ.stStream := by
      rw [List.take_add, length_put, put, Format.left, ← List.take_eq_take_min]
    show (writeAt σ.pBuffer σ.stStream.nextOut (put F s σ.stStream)).take
      (σ.stStream.totalOut + (put F s σ.stStream).length) = _
    rw [← hn, take_writeAt (by omega), hn, h.take, ← hput]
    rfl
  · have hnil : put F s σ.stStream = [] := by
      rw [put, Format.left, hn, List.drop_length, List.take_nil]
    show (writeAt σ.pBuffer σ.stStream.nextOut (put F s σ.stStream)).take
      (σ.stStream.totalOut + (put F s σ.stStream).length)
        = (F.out s).take (σ.stStream.totalOut + (put F s σ.stStream).length)
    rw [hnil, writeAt_nil]
    exact h.take

/-- **The end of the stream returns its output**, if the buffer is right. -/
theorem Right.returned {σ σ' : State} (h : Right F s σ) (hfits : σ.Fits mem)
    (hc : I.code s σ.stStream = .streamEnd) (hb : inflateBody I w heap mem s σ = .stop σ') :
    σ'.returned = some (some (F.out s)) := by
  have hle := h.le
  have hleft := le_of_streamEnd hc
  have htotal := totalOut_deliver F s σ
  rw [length_left] at hleft
  have hall : (deliver F s σ).stStream.totalOut = (F.out s).length := by omega
  rw [inflateBody_streamEnd hc] at hb
  cases hb
  show some (some _) = _
  rw [h.take_deliver hfits, hall, List.take_length]

/-- There is room to spare, or there will be after the buffer has been doubled, now or when
it is full. -/
def Enough (mem : ℕ) (F : Format) (s : List UInt8) (σ : State) : Prop :=
  (F.left s σ.stStream).length < σ.stStream.availOut
    ∨ (F.left s σ.stStream).length = σ.stStream.availOut ∧ 0 < σ.iBufferLen % 2 ^ 32
      ∧ 2 * σ.iBufferLen ≤ mem
    ∨ σ.stStream.nextOut = σ.stStream.totalOut
      ∧ σ.stStream.totalOut + σ.stStream.availOut = σ.iBufferLen ∧ σ.iBufferLen < 2 ^ 32

theorem Right.grown {σ : State} (h : Right F s σ) (hfits : σ.Fits mem)
    (he : Enough mem F s σ) (hle : σ.stStream.availOut ≤ (F.left s σ.stStream).length)
    (fresh : List UInt8) : Right F s (grown (deliver F s σ) fresh) := by
  have htake := h.take_deliver hfits
  have htotal := totalOut_deliver F s σ
  have hle' := h.le
  rw [length_left] at hle
  have hout : (deliver F s σ).stStream.totalOut ≤ (F.out s).length := by omega
  have hin : (deliver F s σ).stStream.totalOut ≤ (deliver F s σ).pBuffer.length := by
    have hlen := congrArg List.length htake
    rw [List.length_take, List.length_take_of_le hout] at hlen
    omega
  refine ⟨hout, ?_, ?_⟩
  · show ((deliver F s σ).pBuffer ++ fresh).take (deliver F s σ).stStream.totalOut = _
    rw [List.take_append_of_le_length hin, htake]
    rfl
  · show σ.iBufferLen = (deliver F s σ).stStream.totalOut
      ∨ (deliver F s σ).stStream.totalOut = (F.out s).length
    unfold Enough at he
    rw [length_left] at he
    omega

theorem Enough.grown {σ : State} (he : Enough mem F s σ) (hr : Right F s σ)
    (hout : (F.out s).length < 2 ^ 31)
    (hle : σ.stStream.availOut ≤ (F.left s σ.stStream).length) (fresh : List UInt8) :
    Enough mem F s (grown (deliver F s σ) fresh) := by
  have htotal := totalOut_deliver F s σ
  have hle' := hr.le
  unfold Enough at he ⊢
  rw [length_left] at he hle ⊢
  show (F.out s).length - (deliver F s σ).stStream.totalOut < σ.iBufferLen % 2 ^ 32
    ∨ (F.out s).length - (deliver F s σ).stStream.totalOut = σ.iBufferLen % 2 ^ 32
      ∧ 0 < 2 * σ.iBufferLen % 2 ^ 32 ∧ 2 * (2 * σ.iBufferLen) ≤ mem
    ∨ σ.iBufferLen = (deliver F s σ).stStream.totalOut
      ∧ (deliver F s σ).stStream.totalOut + σ.iBufferLen % 2 ^ 32 = 2 * σ.iBufferLen
      ∧ 2 * σ.iBufferLen < 2 ^ 32
  rcases he with he | ⟨he, hpos, -⟩ | ⟨-, hsum, -⟩
  · omega
  · exact Or.inl (by omega)
  · exact Or.inr (Or.inr (by omega))

theorem Enough.two_mul_le {σ : State} (he : Enough mem F s σ) (hr : Right F s σ)
    (hroom : 2 * (F.out s).length ≤ mem)
    (hle : σ.stStream.availOut ≤ (F.left s σ.stStream).length) : 2 * σ.iBufferLen ≤ mem := by
  have hle' := hr.le
  unfold Enough at he
  rw [length_left] at he hle
  omega

/-- The output of `n` bytes finds room from a buffer of `c` bytes on. -/
def Roomy (mem c n : ℕ) : Prop :=
  c < 2 ^ 32 ∨ n < c % 2 ^ 32 ∨ n = c % 2 ^ 32 ∧ 0 < n ∧ 2 * c ≤ mem

/-- **A whole stream that finds room is inflated.** -/
theorem returned_of_roomy (hw : mem < w.modulus / 2) (hc : 0 < c) (hmem : c ≤ mem)
    (hblock : bufferLen block s = c) (hend : F.ending (input s) = .streamEnd)
    (hout : (F.out (input s)).length < 2 ^ 31) (htwo : 2 * (F.out (input s)).length ≤ mem)
    (hroom : Roomy mem c (F.out (input s)).length) {fuel : ℕ} (hfuel : mem < fuel) :
    (zlibDecompression I w heap mem block s fuel).returned
      = some (some (F.out (input s))) := by
  refine zlibDecompression_rule hw hc hmem hblock
    (fun σ => Right F (input s) σ ∧ Enough mem F (input s) σ)
    (·.returned = some (some (F.out (input s))))
    (fun p _ _ => ⟨⟨Nat.zero_le _, rfl, Or.inl rfl⟩, ?_⟩) (fun σ fresh hσ hJ hne _ => ?_)
    (fun σ σ' hσ hJ hb => ?_) hfuel
  · show (F.out (input s)).length < c % 2 ^ 32
      ∨ (F.out (input s)).length = c % 2 ^ 32 ∧ 0 < c % 2 ^ 32 ∧ 2 * c ≤ mem
      ∨ 0 = 0 ∧ 0 + c % 2 ^ 32 = c ∧ c < 2 ^ 32
    unfold Roomy at hroom
    omega
  · obtain ⟨hr, he⟩ := hJ
    obtain ⟨hle, -⟩ := wantsMore_of_ne hend hne
    exact ⟨hr.grown hσ he hle fresh, he.grown hr hout hle fresh⟩
  · obtain ⟨hr, he⟩ := hJ
    by_cases hne : I.code (input s) σ.stStream = .streamEnd
    · exact hr.returned hσ hne hb
    -- the room is used up, and there is memory for more: the round does not return
    · obtain ⟨hle, hmore⟩ := wantsMore_of_ne hend hne
      have hfull : (deliver F (input s) σ).stStream.availOut = 0 := by
        show σ.stStream.availOut - (put F (input s) σ.stStream).length = 0
        rw [length_put, min_eq_left hle, Nat.sub_self]
      obtain ⟨fresh, hnext, -⟩ := moreMemory_of_le heap (hσ.deliver (F := F) (s := input s))
        hw (he.two_mul_le hr htwo hle)
      rw [inflateBody_full hmore hfull, hnext] at hb
      cases hb

/-! ## Where the buffer is too large -/

/-- A byte of the buffer that `inflate` leaves as it was. -/
structure Stale (a : ℕ) (b : UInt8) (σ : State) : Prop where
  byte : σ.pBuffer[a]? = some b
  away : a < σ.stStream.nextOut ∨ σ.stStream.nextOut + σ.stStream.availOut ≤ a

theorem Stale.deliver {a : ℕ} {b : UInt8} {σ : State} (h : Stale a b σ) (hσ : σ.Fits mem) :
    (deliver F s σ).pBuffer[a]? = some b := by
  have hroom := hσ.room
  have hlen := hσ.length_pBuffer
  have hput := length_put F s σ.stStream
  refine (getElem?_writeAt (by omega) ?_).trans h.byte
  have haway := h.away
  omega

/-- **A stale byte below the output is returned in place of the right one.** -/
theorem returned_ne_of_stale (hw : mem < w.modulus / 2) (hc : 0 < c) (hmem : c ≤ mem)
    (hblock : bufferLen block s = c) {a : ℕ} {b x : UInt8} (ha : c % 2 ^ 32 ≤ a) (hac : a < c)
    (hb : block[a]? = some b) {out : List UInt8} (hx : out[a]? = some x) (hbx : b ≠ x)
    {fuel : ℕ} (hfuel : mem < fuel) :
    (zlibDecompression I w heap mem block s fuel).returned ≠ some (some out) := by
  refine zlibDecompression_rule hw hc hmem hblock
    (fun σ => Stale a b σ ∧ a < σ.iBufferLen)
    (·.returned ≠ some (some out)) (fun p hp hpb => ?_)
    (fun σ fresh hσ hJ hne _ => ?_) (fun σ σ' hσ hJ hbody => ?_) hfuel
  · have hne : block ≠ [] := by
      rintro rfl
      cases hb
    refine ⟨⟨by rw [hpb hne]; exact hb, Or.inr ?_⟩, hac⟩
    show 0 + c % 2 ^ 32 ≤ a
    omega
  · have hlen := (hσ.deliver (F := F) (s := input s)).length_pBuffer
    refine ⟨⟨?_, Or.inl hJ.2⟩, ?_⟩
    · show ((deliver F (input s) σ).pBuffer ++ fresh)[a]? = some b
      rw [List.getElem?_append_left (hJ.2.trans_eq hlen.symm), hJ.1.deliver hσ]
    · show a < 2 * σ.iBufferLen
      omega
  · by_cases hne : I.code (input s) σ.stStream = .streamEnd
    · rw [inflateBody_streamEnd hne] at hbody
      cases hbody
      intro h
      have hout := Option.some.inj (Option.some.inj h)
      rw [← hout, List.getElem?_take, hJ.1.deliver hσ] at hx
      split_ifs at hx
      exact hbx (Option.some.inj hx)
    · rw [inflateBody_stop hσ hw hne hbody]
      intro h
      cases Option.some.inj h

/-- **An output that just fits is lost** where there is no room behind it and `inflate` has
not seen the end. -/
theorem returned_lazy (hw : mem < w.modulus / 2) (hc : 0 < c) (hmem : c ≤ mem)
    (hblock : bufferLen block s = c) (hout : (F.out (input s)).length = c % 2 ^ 32)
    (hroom : c % 2 ^ 32 = 0 ∨ mem < 2 * c) {fuel : ℕ} (hfuel : mem < fuel) :
    (zlibDecompression (Inflate.lazy F) w heap mem block s fuel).returned = some none := by
  have hcode : ∀ σ : State, σ.stStream.availOut = (F.left (input s) σ.stStream).length →
      (Inflate.lazy F).code (input s) σ.stStream ≠ .streamEnd := by
    intro σ h
    show (if σ.stStream.availOut ≤ (F.left (input s) σ.stStream).length then ZCode.bufError
      else _) ≠ _
    rw [if_pos h.le]
    decide
  refine zlibDecompression_rule hw hc hmem hblock
    (fun σ => σ.stStream.availOut = (F.left (input s) σ.stStream).length
      ∧ (σ.iBufferLen % 2 ^ 32 = 0 ∨ mem < 2 * σ.iBufferLen))
    (·.returned = some none) (fun p _ _ => ⟨?_, hroom⟩) (fun σ fresh hσ hJ hne hle => ?_)
    (fun σ σ' hσ hJ hb => inflateBody_stop hσ hw (hcode σ hJ.1) hb) hfuel
  · rw [length_left]
    exact hout.symm
  · obtain ⟨hJ, hzero⟩ := hJ
    have htotal := totalOut_deliver F (input s) σ
    rw [length_left] at hJ
    rw [length_left]
    have hmod : σ.iBufferLen % 2 ^ 32 = 0 := hzero.resolve_right (by omega)
    refine ⟨?_, Or.inl ?_⟩
    · show σ.iBufferLen % 2 ^ 32
        = (F.out (input s)).length - (deliver F (input s) σ).stStream.totalOut
      omega
    · show 2 * σ.iBufferLen % 2 ^ 32 = 0
      omega

end Rounds

/-! ## What is exact -/

section Exact

variable {F : Format} {w : Width} {mem c : ℕ} {s : List UInt8}

/-- From a shared buffer of `c` bytes, or from none and a text of as many, whatever is in
it, a text is inflated to what it stands for, in a number of rounds. -/
def Exact (F : Format) (w : Width) (mem : ℕ) (s : List UInt8) (c : ℕ) : Prop :=
  ∀ (I : Inflate F) (heap : List UInt8 → ℕ → UInt8) (block : List UInt8),
    bufferLen block s = c → ∃ rounds, ∀ fuel, rounds ≤ fuel →
      (zlibDecompression I w heap mem block s fuel).returned = some (F.meaning s)

theorem append_input (s : List UInt8) : input s ++ s.drop (s.length % 2 ^ 32) = s :=
  List.take_append_drop _ _

/-- What fails after enough memory for every round fails. -/
theorem not_exact_of (I : Inflate F) (heap : List UInt8 → ℕ → UInt8) {block : List UInt8}
    (hblock : bufferLen block s = c)
    (h : ∀ fuel, mem < fuel →
      (zlibDecompression I w heap mem block s fuel).returned ≠ some (F.meaning s)) :
    ¬ Exact F w mem s c := by
  intro hexact
  obtain ⟨rounds, hrounds⟩ := hexact I heap block hblock
  exact h (max rounds (mem + 1)) (by omega) (hrounds _ (le_max_left _ _))

theorem bufferLen_replicate (hc : 0 < c) (b : UInt8) (s : List UInt8) :
    bufferLen (List.replicate c b) s = c := by
  rw [bufferLen, List.length_replicate, if_neg (by omega)]

/-- An output longer than what is left of the size of the buffer gets a hole. -/
theorem not_exact_of_lt (hw : mem < w.modulus / 2) (hmem : c ≤ mem) (hc : 2 ^ 32 ≤ c)
    (hend : F.ending s = .streamEnd) (hlt : c % 2 ^ 32 < (F.out s).length) :
    ¬ Exact F w mem s c := by
  have hpos : 0 < c := by omega
  have hac : c % 2 ^ 32 < c := by omega
  have hx := List.getElem?_eq_getElem hlt
  generalize (F.out s)[c % 2 ^ 32] = x at hx
  have hne : x + 1 ≠ x := by grind
  have hb : (List.replicate c (x + 1))[c % 2 ^ 32]? = some (x + 1) :=
    List.getElem?_replicate_of_lt hac
  have hblock := bufferLen_replicate hpos (x + 1) s
  refine not_exact_of (Inflate.lazy F) (fun _ _ => 0) hblock fun fuel hfuel => ?_
  rw [Format.meaning, if_pos hend]
  exact returned_ne_of_stale hw hpos hmem hblock le_rfl hac hb hx hne hfuel

/-- A stream of which `inflate` sees a part only is not inflated. -/
theorem not_exact_of_cut (hw : mem < w.modulus / 2) (hc : 0 < c) (hmem : c ≤ mem)
    (hend : F.ending s = .streamEnd) (hinput : F.ending (input s) ≠ .streamEnd) :
    ¬ Exact F w mem s c := by
  refine not_exact_of (Inflate.lazy F) (fun _ _ => 0) (bufferLen_replicate hc 0 s)
    fun fuel hfuel => ?_
  rw [returned_of_ne hw hc hmem (bufferLen_replicate hc 0 s) hinput hfuel, Format.meaning,
    if_pos hend]
  exact fun h => absurd (Option.some.inj h) (Option.some_ne_none _).symm

/-- Nor is one whose output just fits, if no room comes after that. -/
theorem not_exact_of_eq (hw : mem < w.modulus / 2) (hc : 0 < c) (hmem : c ≤ mem)
    (hend : F.ending s = .streamEnd) (hout : (F.out (input s)).length = c % 2 ^ 32)
    (hroom : c % 2 ^ 32 = 0 ∨ mem < 2 * c) : ¬ Exact F w mem s c := by
  refine not_exact_of (Inflate.lazy F) (fun _ _ => 0) (bufferLen_replicate hc 0 s)
    fun fuel hfuel => ?_
  rw [returned_lazy hw hc hmem (bufferLen_replicate hc 0 s) hout hroom hfuel, Format.meaning,
    if_pos hend]
  exact fun h => absurd (Option.some.inj h) (Option.some_ne_none _).symm

/-- A whole stream in what `inflate` sees is that of the text. -/
theorem whole_of_input (h : F.ending (input s) = .streamEnd) :
    F.ending s = .streamEnd ∧ F.out (input s) = F.out s := by
  have hend := F.ending_append _ (s.drop (s.length % 2 ^ 32)) h
  have hsame := F.out_append _ (s.drop (s.length % 2 ^ 32)) h
  rw [append_input] at hend hsame
  exact ⟨hend, hsame.symm⟩

/-- **When a text is inflated exactly.** Either it holds no whole stream, or the part of it
that `inflate` sees does, and the output finds room. -/
theorem exact_iff_roomy (hw : mem < w.modulus / 2) (hc : 0 < c) (hmem : c ≤ mem)
    (hout : (F.out s).length < 2 ^ 31) (htwo : 2 * (F.out s).length ≤ mem) :
    Exact F w mem s c
      ↔ (F.ending s = .streamEnd →
          F.ending (input s) = .streamEnd ∧ Roomy mem c (F.out s).length) := by
  constructor
  · intro hexact hend
    have hinput : F.ending (input s) = .streamEnd := by
      by_contra hne
      exact not_exact_of_cut hw hc hmem hend hne hexact
    refine ⟨hinput, ?_⟩
    by_contra hroom
    unfold Roomy at hroom
    by_cases hlt : c % 2 ^ 32 < (F.out s).length
    · exact not_exact_of_lt hw hmem (by omega) hend hlt hexact
    · have hsame := congrArg List.length (whole_of_input hinput).2
      exact not_exact_of_eq hw hc hmem hend (by omega) (by omega) hexact
  · intro h I heap block hblock
    refine ⟨mem + 1, fun fuel hfuel => ?_⟩
    rw [Format.meaning]
    split_ifs with hend
    · obtain ⟨hinput, hroom⟩ := h hend
      rw [← (whole_of_input hinput).2] at hroom hout htwo ⊢
      exact returned_of_roomy hw hc hmem hblock hinput hout htwo hroom hfuel
    · exact returned_of_ne hw hc hmem hblock (fun h => hend (whole_of_input h).1) hfuel

/-- The format of one stream. -/
def Format.ofStream (z o : List UInt8) : Format where
  out s := if z <+: s then o else []
  ending s := if z <+: s then .streamEnd else if s <+: z then .needInput else .corrupt
  ending_append s t h := by
    split_ifs at h with hz
    exact if_pos (hz.trans (List.prefix_append s t))
  out_append s t h := by
    split_ifs at h with hz
    rw [if_pos hz, if_pos (hz.trans (List.prefix_append s t))]

/-- The bytes `abc` in a zlib stream of one stored block. -/
def stored : List UInt8 := [0x78, 1, 1, 3, 0, 0xfc, 0xff, 0x61, 0x62, 0x63, 2, 0x4d, 1, 0x27]

theorem exact_stored :
    Exact (Format.ofStream stored [0x61, 0x62, 0x63]) .bits64 (2 ^ 40) stored 1 :=
  (exact_iff_roomy (by decide) (by decide) (by decide) (by decide) (by decide)).mpr
    fun _ => ⟨by decide, Or.inl (by decide)⟩

/-- With a shared buffer of 4 GiB, of whose size `inflate` sees nothing, a stream of three
bytes is not inflated. -/
theorem not_exact_stored :
    (2 ^ 32 ≤ 2 ^ 40 ∧ 2 ^ 40 < Width.bits64.modulus / 2)
      ∧ ¬ Exact (Format.ofStream stored [0x61, 0x62, 0x63]) .bits64 (2 ^ 40) stored (2 ^ 32) :=
  ⟨⟨by decide, by decide⟩,
    not_exact_of_lt (by decide) (by decide) le_rfl (by decide) (by decide)⟩

end Exact

end Zlib
