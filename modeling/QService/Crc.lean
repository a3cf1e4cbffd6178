import Mathlib.Tactic

/-!
# Cyclic redundancy checks

A check is a register that a message is fed into, bit by bit. The bit that
leaves the register and the bit that is fed in say together whether the polynomial is
added to what is left in the register. There are two kinds: the register moves up and
the highest bit leaves it (`Register.high`), or it moves down and the lowest bit
leaves it, which is called reflected (`Register.low`).

Feeding is linear: the sum of two registers and the sum of two messages give the sum
of the results (`feed_xor`). And a message that is what leaves the register adds no
polynomial at all (`feed_outs`). Both together are what a table is for
(`feed_eq`): feeding some bits moves the register, and what is added to it depends only on
the sum of the bits that leave it and the bits of the message.

Where nothing is forgotten on the way, a change of a message that is confined to as many bits
as the register has changes the check (`Full.feed_ne_of_burst`).

Nothing here is about one program. Widths and polynomials are arbitrary.
-/

namespace Crc

/-- A register: the bit that leaves it, what is left in it, and the polynomial. -/
structure Register (w : ℕ) where
  out : BitVec w → Bool
  move : BitVec w → BitVec w
  poly : BitVec w
  out_xor : ∀ c d, out (c ^^^ d) = (out c ^^ out d)
  move_xor : ∀ c d, move (c ^^^ d) = move c ^^^ move d

namespace Register

variable {w : ℕ}

/-- The highest bit leaves the register. -/
def high (poly : BitVec w) : Register w where
  out := BitVec.msb
  move c := c <<< 1
  poly := poly
  out_xor _ _ := BitVec.msb_xor
  move_xor c d := BitVec.shiftLeft_xor_distrib c d 1

/-- The lowest bit leaves the register. -/
def low (poly : BitVec w) : Register w where
  out c := c.getLsbD 0
  move c := c >>> 1
  poly := poly
  out_xor _ _ := BitVec.getLsbD_xor
  move_xor c d := BitVec.ushiftRight_xor_distrib c d 1

variable (r : Register w)

/-- A bit is fed into the register. -/
def feedBit (c : BitVec w) (bit : Bool) : BitVec w :=
  if r.out c ^^ bit then r.move c ^^^ r.poly else r.move c

/-- **The check, bit by bit**: a message is fed into the register. -/
def feed (c : BitVec w) (bits : List Bool) : BitVec w := bits.foldl r.feedBit c

/-- The first `n` bits that leave the register, if nothing is added to it. -/
def outs : ℕ → BitVec w → List Bool
  | 0, _ => []
  | n + 1, c => r.out c :: outs n (r.move c)

@[simp] theorem length_outs (n : ℕ) (c : BitVec w) : (r.outs n c).length = n := by
  induction n generalizing c with
  | zero => rfl
  | succ n ih => rw [outs, List.length_cons, ih]

theorem feed_cons (c : BitVec w) (bit : Bool) (bits : List Bool) :
    r.feed c (bit :: bits) = r.feed (r.feedBit c bit) bits := rfl

theorem feed_append (c : BitVec w) (l m : List Bool) :
    r.feed c (l ++ m) = r.feed (r.feed c l) m := List.foldl_append

/-- What a bit adds to the register. -/
def added (bit : Bool) : BitVec w := if bit then r.poly else 0

theorem added_xor (a b : Bool) : r.added (a ^^ b) = r.added a ^^^ r.added b := by
  cases a <;> cases b <;> simp [added]

theorem feedBit_eq (c : BitVec w) (bit : Bool) :
    r.feedBit c bit = r.move c ^^^ r.added (r.out c ^^ bit) := by
  rw [feedBit, added]
  split_ifs
  · rfl
  · exact BitVec.xor_zero.symm

/-- A step is linear. -/
theorem feedBit_xor (c d : BitVec w) (a b : Bool) :
    r.feedBit (c ^^^ d) (a ^^ b) = r.feedBit c a ^^^ r.feedBit d b := by
  simp only [feedBit_eq, r.out_xor, r.move_xor, added_xor]
  ac_rfl

/-- **Feeding is linear**, in the register and in the message. -/
theorem feed_xor (c d : BitVec w) {l m : List Bool} (h : l.length = m.length) :
    r.feed (c ^^^ d) (l.zipWith xor m) = r.feed c l ^^^ r.feed d m := by
  induction l generalizing c d m with
  | nil =>
    obtain rfl := List.length_eq_zero_iff.mp h.symm
    rfl
  | cons a l ih =>
    obtain ⟨b, m, rfl⟩ := List.exists_cons_of_length_eq_add_one h.symm
    rw [List.zipWith_cons_cons, feed_cons, feed_cons, feed_cons, feedBit_xor]
    exact ih _ _ (Nat.succ.inj h)

/-- **What leaves the register adds nothing to it** when it is fed in. -/
theorem feed_outs (n : ℕ) (c : BitVec w) : r.feed c (r.outs n c) = r.move^[n] c := by
  induction n generalizing c with
  | zero => rfl
  | succ n ih =>
    rw [outs, feed_cons, feedBit_eq, Bool.xor_self, Function.iterate_succ_apply, ← ih (r.move c)]
    exact congrArg (r.feed · _) BitVec.xor_zero

/-- Adding the same twice adds nothing. -/
theorem zipWith_xor_cancel {l m : List Bool} (h : l.length = m.length) :
    l.zipWith xor (l.zipWith xor m) = m := by
  induction l generalizing m with
  | nil => exact (List.length_eq_zero_iff.mp h.symm).symm
  | cons a l ih =>
    obtain ⟨b, m, rfl⟩ := List.exists_cons_of_length_eq_add_one h.symm
    rw [List.zipWith_cons_cons, List.zipWith_cons_cons, ih (Nat.succ.inj h), ← Bool.xor_assoc,
      Bool.xor_self, Bool.false_xor]

/-- **What some bits do to the register**: it moves, and what is added is told by the sum of what
leaves it and what is fed in. -/
theorem feed_eq (c : BitVec w) (bits : List Bool) :
    r.feed c bits = r.move^[bits.length] c
      ^^^ r.feed 0 ((r.outs bits.length c).zipWith xor bits) := by
  have hlen : (r.outs bits.length c).length = bits.length := r.length_outs _ _
  have hsum := r.feed_xor c 0 (l := r.outs bits.length c)
    (m := (r.outs bits.length c).zipWith xor bits) (by simp)
  rw [zipWith_xor_cancel hlen, feed_outs] at hsum
  rw [← hsum]
  exact congrArg (r.feed · bits) BitVec.xor_zero.symm

/-- **A step by a table.** The table has the check of every index, and the index has the bits of
the sum. -/
theorem feed_table {I : Type*} {bits : I → List Bool} {table : I → BitVec w}
    (htable : ∀ i, table i = r.feed 0 (bits i)) {c : BitVec w} {m : List Bool} {i : I}
    (hi : bits i = (r.outs m.length c).zipWith xor m) :
    r.feed c m = r.move^[m.length] c ^^^ table i := by
  rw [feed_eq, htable, hi]

/-! ## The two kinds -/

theorem move_high (poly c : BitVec w) (n : ℕ) : (high poly).move^[n] c = c <<< n := by
  induction n generalizing c with
  | zero => exact (BitVec.shiftLeft_zero c).symm
  | succ n ih =>
    rw [Function.iterate_succ_apply, ih, Nat.add_comm n 1]
    exact (BitVec.shiftLeft_add c 1 n).symm

theorem move_low (poly c : BitVec w) (n : ℕ) : (low poly).move^[n] c = c >>> n := by
  induction n generalizing c with
  | zero => exact (BitVec.ushiftRight_zero c).symm
  | succ n ih =>
    rw [Function.iterate_succ_apply, ih, Nat.add_comm n 1]
    exact (BitVec.shiftRight_add c 1 n).symm

/-- What leaves the register are its bits, from the highest down. -/
theorem outs_high (poly c : BitVec w) (n : ℕ) :
    (high poly).outs n c = (List.range n).map c.getMsbD := by
  induction n generalizing c with
  | zero => rfl
  | succ n ih =>
    rw [outs, ih, List.range_succ_eq_map, List.map_cons, List.map_map]
    refine congrArg₂ List.cons (BitVec.msb_eq_getMsbD_zero c) (List.map_congr_left fun i _ => ?_)
    show (c <<< 1).getMsbD i = c.getMsbD (i + 1)
    rw [BitVec.getMsbD_shiftLeft]

/-- From the lowest up. -/
theorem outs_low (poly c : BitVec w) (n : ℕ) :
    (low poly).outs n c = (List.range n).map c.getLsbD := by
  induction n generalizing c with
  | zero => rfl
  | succ n ih =>
    rw [outs, ih, List.range_succ_eq_map, List.map_cons, List.map_map]
    refine congrArg₂ List.cons rfl (List.map_congr_left fun i _ => ?_)
    show (c >>> 1).getLsbD i = c.getLsbD (i + 1)
    rw [BitVec.getLsbD_ushiftRight, Nat.add_comm]

/-! ## Bursts

A change of a message is seen if it is confined to as many bits as the register has: what is fed
in after it takes nothing back, and of so few bits the register remembers each. -/

variable (r : Register w)

/-- A register that forgets nothing when zeros are fed in, and has seen any `w` bits leave it when
it is empty. -/
structure Full : Prop where
  feedBit_inj : Function.Injective (r.feedBit · false)
  span : ∀ m : List Bool, m.length = w → ∃ c, r.outs w c = m
  move_all : ∀ c, r.move^[w] c = 0

theorem out_zero : r.out 0 = false := by
  have h := r.out_xor 0 0
  rwa [BitVec.xor_self, Bool.xor_self] at h

theorem move_zero : r.move 0 = 0 := by
  have h := r.move_xor 0 0
  rwa [BitVec.xor_self, BitVec.xor_self] at h

theorem outs_zero (n : ℕ) : r.outs n 0 = List.replicate n false := by
  induction n with
  | zero => rfl
  | succ n ih => rw [outs, out_zero, move_zero, ih, List.replicate_succ]

theorem feed_zero_replicate (n : ℕ) : r.feed 0 (List.replicate n false) = 0 := by
  have h := r.feed_xor 0 0 (l := List.replicate n false) (m := List.replicate n false) rfl
  have hz : (List.replicate n false).zipWith xor (List.replicate n false)
      = List.replicate n false := by simp
  rw [hz, BitVec.xor_self, BitVec.xor_self] at h
  exact h

variable {r}

/-- A bit that is fed in takes nothing back, whichever it is. -/
theorem Full.feedBit_injective (hr : r.Full) (bit : Bool) :
    Function.Injective (r.feedBit · bit) := by
  intro c d h
  refine hr.feedBit_inj ?_
  show r.feedBit c false = r.feedBit d false
  have hadd : ∀ e, r.feedBit e bit = r.feedBit e false ^^^ r.added bit := by
    intro e
    rw [feedBit_eq, feedBit_eq, Bool.xor_false, added_xor, BitVec.xor_assoc]
  have h' : r.feedBit c false ^^^ r.added bit = r.feedBit d false ^^^ r.added bit := by
    rw [← hadd, ← hadd]
    exact h
  exact (BitVec.xor_left_inj (r.added bit)).mp h'

/-- Neither does a message. -/
theorem Full.feed_injective (hr : r.Full) (bits : List Bool) :
    Function.Injective (r.feed · bits) := by
  induction bits with
  | nil => exact Function.injective_id
  | cons bit bits ih => exact ih.comp (hr.feedBit_injective bit)

/-- **Few bits that leave an empty register empty are zeros.** -/
theorem Full.eq_false_of_feed (hr : r.Full) {m : List Bool} (hm : m.length ≤ w)
    (h : r.feed 0 m = 0) : ∀ b ∈ m, b = false := by
  -- with zeros behind them they are what leaves some register,
  obtain ⟨c, hc⟩ := hr.span (m ++ List.replicate (w - m.length) false) (by simp; omega)
  have hpad : r.feed 0 (m ++ List.replicate (w - m.length) false) = 0 := by
    rw [feed_append, h, feed_zero_replicate]
  have hxor : (r.outs w c).zipWith xor (List.replicate w false) = r.outs w c := by
    refine List.ext_getElem (by simp) fun i _ _ => ?_
    rw [List.getElem_zipWith, List.getElem_replicate, Bool.xor_false]
  have hfeed := r.feed_eq c (List.replicate w false)
  rw [List.length_replicate, hxor, hr.move_all, hc, hpad, BitVec.xor_self] at hfeed
  -- which the zeros it is fed make empty: it was empty
  have hzero : c = 0 := hr.feed_injective (List.replicate w false)
    (hfeed.trans (r.feed_zero_replicate w).symm)
  intro b hb
  have hmem : b ∈ List.replicate w false := by
    rw [← r.outs_zero, ← hzero, hc]
    exact List.mem_append_left _ hb
  exact List.eq_of_mem_replicate hmem

/-- **A change within `w` bits is seen.** -/
theorem Full.feed_ne_of_burst (hr : r.Full) (c : BitVec w) {l m : List Bool}
    (hlen : l.length = m.length) (hne : l ≠ m) {k : ℕ}
    (h : ∀ i, i < k ∨ k + w ≤ i → l[i]? = m[i]?) : r.feed c l ≠ r.feed c m := by
  -- before the change and behind it the messages are one
  have hfront : l.take k = m.take k := List.ext_getElem? fun i => by
    rw [List.getElem?_take, List.getElem?_take]
    split_ifs with hi
    · exact h i (.inl hi)
    · rfl
  have hback : (l.drop k).drop w = (m.drop k).drop w := List.ext_getElem? fun i => by
    rw [List.getElem?_drop, List.getElem?_drop, List.getElem?_drop, List.getElem?_drop]
    exact h (k + (w + i)) (.inr (by omega))
  have hsplit : ∀ n : List Bool, r.feed c n
      = r.feed (r.feed (r.feed c (n.take k)) ((n.drop k).take w)) ((n.drop k).drop w) := by
    intro n
    rw [← feed_append, ← feed_append, List.take_append_drop, List.take_append_drop]
  intro heq
  rw [hsplit l, hsplit m, hfront, hback] at heq
  have hmid := hr.feed_injective _ heq
  -- and the sum of the two middles leaves an empty register empty
  set a := (l.drop k).take w with ha
  set b := (m.drop k).take w with hb
  have hab : a.length = b.length := by simp [ha, hb, hlen]
  have hsum : r.feed 0 (a.zipWith xor b) = 0 := by
    have hx := r.feed_xor (r.feed c (m.take k)) (r.feed c (m.take k)) hab
    rwa [BitVec.xor_self, hmid, BitVec.xor_self] at hx
  have hzero := hr.eq_false_of_feed (by simp [ha]) hsum
  have hmids : a = b := by
    refine List.ext_getElem hab fun i hi hi' => ?_
    have hbit := hzero _ (List.getElem_mem (l := a.zipWith xor b) (n := i) (by simp [hi, hi']))
    rw [List.getElem_zipWith] at hbit
    exact bne_eq_false_iff_eq.mp hbit
  refine hne ?_
  rw [← List.take_append_drop k l, ← List.take_append_drop w (l.drop k), hfront, ← ha, hmids,
    hback, hb, List.take_append_drop, List.take_append_drop]

/-- A register forgets nothing if the polynomial has a one where nothing else comes in, and what
leaves it and what is left say what it was. -/
theorem feedBit_inj_of {j : ℕ} (hmove : ∀ c, (r.move c).getLsbD j = false)
    (hpoly : r.poly.getLsbD j = true)
    (h : ∀ c d, r.out c = r.out d → r.move c = r.move d → c = d) :
    Function.Injective (r.feedBit · false) := by
  have hbit : ∀ c, (r.feedBit c false).getLsbD j = r.out c := by
    intro c
    rw [feedBit, Bool.xor_false]
    split_ifs with hc
    · rw [BitVec.getLsbD_xor, hmove, hpoly, hc]
      rfl
    · rw [hmove, Bool.eq_false_iff.mpr hc]
  intro c d hcd
  have hout : r.out c = r.out d := by
    rw [← hbit c, ← hbit d]
    exact congrArg (BitVec.getLsbD · j) hcd
  refine h c d hout ?_
  have hsum : r.feedBit c false = r.feedBit d false := hcd
  rw [feedBit_eq, feedBit_eq, hout] at hsum
  exact (BitVec.xor_left_inj _).mp hsum

/-- A register that moves up is full if its polynomial ends with a one, -/
theorem full_high {poly : BitVec w} (hpoly : poly.getLsbD 0 = true) : (high poly).Full where
  feedBit_inj := by
    refine feedBit_inj_of (j := 0) (fun c => by simp [high]) hpoly fun c d hout hmove => ?_
    refine BitVec.eq_of_getLsbD_eq fun i hi => ?_
    rcases Nat.lt_or_ge (i + 1) w with hw | hw
    · have hbit := congrArg (BitVec.getLsbD · (i + 1)) hmove
      simpa [high, hw, ← BitVec.getLsbD_eq_getElem] using hbit
    · have htop : i = w - 1 := by omega
      have hmsb : c.msb = d.msb := hout
      rwa [BitVec.msb_eq_getLsbD_last, BitVec.msb_eq_getLsbD_last, ← htop] at hmsb
  span m hm := by
    subst hm
    refine ⟨BitVec.ofBoolListBE m, ?_⟩
    rw [outs_high]
    refine List.ext_getElem (by simp) fun i _ hi => ?_
    simp [hi]
  move_all c := by
    rw [move_high]
    simp

/-- and one that moves down if it begins with a one. -/
theorem full_low {poly : BitVec w} (hpoly : poly.msb = true) : (low poly).Full where
  feedBit_inj := by
    have htop : poly.getLsbD (w - 1) = true := by
      rwa [BitVec.msb_eq_getLsbD_last] at hpoly
    refine feedBit_inj_of (j := w - 1) (fun c => ?_) htop fun c d hout hmove => ?_
    · show (c >>> 1).getLsbD (w - 1) = false
      rw [BitVec.getLsbD_ushiftRight]
      exact BitVec.getLsbD_of_ge c _ (by omega)
    · refine BitVec.eq_of_getLsbD_eq fun i _ => ?_
      cases i with
      | zero => exact hout
      | succ i =>
        have hbit := congrArg (BitVec.getLsbD · i) hmove
        simpa [low, Nat.add_comm] using hbit
  span m hm := by
    subst hm
    refine ⟨BitVec.ofBoolListLE m, ?_⟩
    rw [outs_low]
    refine List.ext_getElem (by simp) fun i _ hi => ?_
    rw [List.getElem_map, List.getElem_range, BitVec.getLsbD_ofBoolListLE,
      List.getD_eq_getElem?_getD, List.getElem?_eq_getElem hi, Option.getD_some]
  move_all c := by
    rw [move_low]
    exact BitVec.ushiftRight_eq_zero le_rfl

end Register

end Crc
