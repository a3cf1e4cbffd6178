import Mathlib.Tactic
import Mathlib.Data.List.NodupEquivFin

/-!
# Snowflake IDs

`CSnowflakeID` makes an ID of the milliseconds of the clock, ten bits of the
machine number and twelve bits of an index. The index runs through its 4096
values and starts again, whatever the clock does in the meantime: nothing
resets it when the millisecond changes, and nothing waits for the next
millisecond when it comes round.

So the `k`-th ID of an object is the reading of the clock with the index `k`
modulo 4096 (`getElem?_generateAll`), and with a clock that never goes back
the IDs are distinct exactly while no millisecond sees more than 4096 calls
(`nodup_generateAll_iff`). Whatever the clock does, two IDs are the same only as
the three parts say (`generateAll_collision`).
-/

/-! ## Repetitions in a list that never goes down -/

section Sorted

variable {l : List ℕ} {n : ℕ}

/-- **In a list that never goes down, equal values are neighbours**: `n`
places apart the values agree somewhere exactly if some value occurs more than
`n` times. -/
theorem exists_getElem_eq_iff_exists_lt_count (hl : l.Pairwise (· ≤ ·)) :
    (∃ (i : ℕ) (h : i + n < l.length), l[i] = l[i + n]) ↔ ∃ t, n < l.count t := by
  have hmono {i j : ℕ} (hij : i ≤ j) (hj : j < l.length) : l[i] ≤ l[j] := by
    obtain rfl | hlt := hij.eq_or_lt
    · exact le_rfl
    · exact List.pairwise_iff_getElem.mp hl i j _ hj hlt
  constructor
  · rintro ⟨i, h, heq⟩
    have hrun : (l.drop i).take (n + 1) = List.replicate (n + 1) l[i] := by
      refine List.eq_replicate_iff.mpr ⟨by simp; omega, fun b hb => ?_⟩
      obtain ⟨k, hk, rfl⟩ := List.getElem_of_mem hb
      rw [List.length_take] at hk
      rw [List.getElem_take, List.getElem_drop]
      exact le_antisymm ((hmono (by omega) h).trans heq.ge) (hmono (by omega) (by omega))
    refine ⟨l[i], List.replicate_sublist_iff.mp ?_⟩
    rw [← hrun]
    exact (List.take_sublist _ _).trans (List.drop_sublist _ _)
  · rintro ⟨t, ht⟩
    obtain ⟨f, hf⟩ := List.sublist_iff_exists_orderEmbedding_getElem?_eq.mp
      (List.replicate_sublist_iff.mpr ht)
    have hat (k : ℕ) (hk : k ≤ n) : ∃ h : f k < l.length, l[f k] = t := by
      have := hf k
      rw [List.getElem?_replicate_of_lt (Nat.lt_succ_of_le hk)] at this
      exact List.getElem?_eq_some_iff.mp this.symm
    obtain ⟨h₀, hfirst⟩ := hat 0 (Nat.zero_le n)
    obtain ⟨hₙ, hlast⟩ := hat n le_rfl
    have hgap : n + f 0 ≤ f n := f.strictMono.add_le_nat n 0
    refine ⟨f 0, by omega, le_antisymm (hmono (Nat.le_add_right _ _) (by omega)) ?_⟩
    calc l[f 0 + n] ≤ l[f n] := hmono (by omega) hₙ
      _ = l[f 0] := hlast.trans hfirst.symm

end Sorted

/-! ## The object -/

/-- What `evutil_gettimeofday` fills in: `struct timeval`. -/
structure TimeVal where
  tvSec : ℕ
  tvUsec : ℕ
  usec_lt : tvUsec < 1000000

/-- The reading in milliseconds. -/
def TimeVal.ms (tv : TimeVal) : ℕ :=
  (tv.tvSec * 1000000 + tv.tvUsec) / 1000

/-- `CSnowflakeID`. The index is private, starts at zero and is kept below
`0x1000` by `Generate`. -/
structure SnowflakeID where
  iMachineID : BitVec 32
  iIndex : BitVec 32
  index_lt : iIndex.toNat < 0x1000

namespace SnowflakeID

/-- `CSnowflakeID::CSnowflakeID`. -/
def create : SnowflakeID := ⟨0, 0, by decide⟩

/-- `CSnowflakeID::setMachineID`. -/
def setMachineID (obj : SnowflakeID) (iMachineID : BitVec 32) : SnowflakeID :=
  { obj with iMachineID := iMachineID }

/-- `CSnowflakeID::getTime`, in `uint64_t`. -/
def getTime (tv : TimeVal) : BitVec 64 :=
  let uTime64 := BitVec.ofNat 64 tv.tvUsec / 1000#64
  uTime64 + BitVec.ofNat 64 tv.tvSec * 1000#64

/-- What `m_iIndex++` and the reset behind it leave. -/
def nextIndex (iIndex : BitVec 32) : BitVec 32 :=
  if iIndex + 1#32 = 0x1000#32 then 0#32 else iIndex + 1#32

theorem toNat_nextIndex {iIndex : BitVec 32} (h : iIndex.toNat < 0x1000) :
    (nextIndex iIndex).toNat = (iIndex.toNat + 1) % 0x1000 := by
  have hsucc : (iIndex + 1#32).toNat = iIndex.toNat + 1 := by
    rw [BitVec.toNat_add, BitVec.toNat_ofNat]
    omega
  unfold nextIndex
  split_ifs with hmax
  · have := congrArg BitVec.toNat hmax
    rw [hsucc, BitVec.toNat_ofNat] at this
    rw [this, BitVec.toNat_ofNat]
  · have hne : iIndex.toNat + 1 ≠ 0x1000 := fun h' =>
      hmax (BitVec.eq_of_toNat_eq (by rw [hsucc, h']; rfl))
    rw [hsucc, Nat.mod_eq_of_lt (by omega)]

/-- `CSnowflakeID::Generate`: the ID and the object after the call. -/
def generate (obj : SnowflakeID) (tv : TimeVal) : BitVec 64 × SnowflakeID :=
  -- the 41 bits of the time
  let uID64 := getTime tv <<< 22
  -- the ten bits of the machine, an `int` that is converted by `|=`
  let uID64 := uID64 ||| ((obj.iMachineID &&& 0x3FF#32) <<< 12).signExtend 64
  -- the twelve bits of the index
  let uID64 := uID64 ||| (obj.iIndex &&& 0xFFF#32).signExtend 64
  (uID64, { obj with
    iIndex := nextIndex obj.iIndex
    index_lt := by
      rw [toNat_nextIndex obj.index_lt]
      exact Nat.mod_lt _ (by decide) })

/-- The IDs of one object, one call of `Generate` at each reading of the
clock. -/
def generateAll (obj : SnowflakeID) : List TimeVal → List (BitVec 64)
  | [] => []
  | tv :: tvs => (obj.generate tv).1 :: (obj.generate tv).2.generateAll tvs

/-! ## The three parts of an ID -/

/-- The ID of a millisecond, a machine and an index. -/
def packID (ms machine index : ℕ) : ℕ :=
  ms * 2 ^ 22 + machine % 2 ^ 10 * 2 ^ 12 + index % 2 ^ 12

theorem packID_inj {ms ms' machine index index' : ℕ} :
    packID ms machine index = packID ms' machine index'
      ↔ ms = ms' ∧ index % 2 ^ 12 = index' % 2 ^ 12 := by
  unfold packID
  omega

theorem toNat_getTime (tv : TimeVal) : (getTime tv).toNat = tv.ms % 2 ^ 64 := by
  have hu := tv.usec_lt
  have hms : tv.ms = tv.tvUsec / 1000 + tv.tvSec * 1000 := by
    unfold TimeVal.ms
    omega
  have husec : (BitVec.ofNat 64 tv.tvUsec / 1000#64).toNat = tv.tvUsec / 1000 := by
    rw [BitVec.toNat_udiv, BitVec.toNat_ofNat, Nat.mod_eq_of_lt (by omega)]
    rfl
  have hsec : (BitVec.ofNat 64 tv.tvSec * 1000#64).toNat = tv.tvSec * 1000 % 2 ^ 64 := by
    rw [BitVec.toNat_mul, BitVec.toNat_ofNat]
    exact Nat.mod_mul_mod tv.tvSec 1000 (2 ^ 64)
  rw [getTime, BitVec.toNat_add, husec, hsec, hms]
  omega

/-- A 32-bit word without its sign bit keeps its value as 64 bits. -/
theorem toNat_signExtend_of_lt {x : BitVec 32} (h : x.toNat < 2 ^ 31) :
    (x.signExtend 64).toNat = x.toNat := by
  have hmsb : x.msb = false := by
    rw [BitVec.msb_eq_decide]
    exact decide_eq_false (by omega)
  rw [BitVec.signExtend_eq_setWidth_of_msb_false hmsb, BitVec.toNat_setWidth]
  exact Nat.mod_eq_of_lt (by omega)

/-- **The parts do not overlap**: the ID is the sum of its three parts, each
in its own bits. Of the time 42 bits are left. -/
theorem toNat_generate (obj : SnowflakeID) (tv : TimeVal) :
    (obj.generate tv).1.toNat
      = packID (tv.ms % 2 ^ 42) obj.iMachineID.toNat obj.iIndex.toNat := by
  have hmachine : ((obj.iMachineID &&& 0x3FF#32) <<< 12).toNat
      = (obj.iMachineID.toNat % 2 ^ 10) <<< 12 := by
    have hand : (obj.iMachineID &&& 0x3FF#32).toNat = obj.iMachineID.toNat % 2 ^ 10 :=
      Nat.and_two_pow_sub_one_eq_mod _ 10
    rw [BitVec.toNat_shiftLeft, hand, Nat.shiftLeft_eq]
    exact Nat.mod_eq_of_lt (by omega)
  have hindex : (obj.iIndex &&& 0xFFF#32).toNat = obj.iIndex.toNat % 2 ^ 12 :=
    Nat.and_two_pow_sub_one_eq_mod _ 12
  have htime : (getTime tv <<< 22).toNat = ((tv.ms % 2 ^ 42) <<< 10) <<< 12 := by
    rw [BitVec.toNat_shiftLeft, toNat_getTime, Nat.shiftLeft_eq, Nat.shiftLeft_eq,
      Nat.shiftLeft_eq]
    omega
  have hlt : (obj.iMachineID.toNat % 2 ^ 10) <<< 12 < 2 ^ 31 := by
    rw [Nat.shiftLeft_eq]
    omega
  calc (obj.generate tv).1.toNat
      = ((tv.ms % 2 ^ 42) <<< 10) <<< 12 ||| (obj.iMachineID.toNat % 2 ^ 10) <<< 12
          ||| obj.iIndex.toNat % 2 ^ 12 := by
        unfold generate
        rw [BitVec.toNat_or, BitVec.toNat_or, htime, toNat_signExtend_of_lt (hmachine.trans_lt hlt),
          hmachine, toNat_signExtend_of_lt (by rw [hindex]; omega), hindex]
    _ = ((tv.ms % 2 ^ 42) <<< 10 + obj.iMachineID.toNat % 2 ^ 10) <<< 12
          + obj.iIndex.toNat % 2 ^ 12 := by
        rw [← Nat.shiftLeft_or_distrib, ← Nat.shiftLeft_add_eq_or_of_lt (by omega) (tv.ms % 2 ^ 42),
          ← Nat.shiftLeft_add_eq_or_of_lt (by omega)]
    _ = packID (tv.ms % 2 ^ 42) obj.iMachineID.toNat obj.iIndex.toNat := by
        rw [Nat.shiftLeft_eq, Nat.shiftLeft_eq, packID]
        omega

@[simp] theorem iMachineID_generate (obj : SnowflakeID) (tv : TimeVal) :
    (obj.generate tv).2.iMachineID = obj.iMachineID := rfl

theorem toNat_iIndex_generate (obj : SnowflakeID) (tv : TimeVal) :
    (obj.generate tv).2.iIndex.toNat = (obj.iIndex.toNat + 1) % 0x1000 :=
  toNat_nextIndex obj.index_lt

/-! ## The IDs of a run -/

@[simp] theorem length_generateAll (obj : SnowflakeID) (tvs : List TimeVal) :
    (obj.generateAll tvs).length = tvs.length := by
  induction tvs generalizing obj with
  | nil => rfl
  | cons tv tvs ih => rw [generateAll, List.length_cons, ih, List.length_cons]

/-- **The `k`-th ID** has the reading of its own call, and the index `k` calls
further on. -/
theorem getElem?_generateAll (obj : SnowflakeID) (tvs : List TimeVal) (k : ℕ) :
    (obj.generateAll tvs)[k]?.map BitVec.toNat
      = tvs[k]?.map fun tv =>
        packID (tv.ms % 2 ^ 42) obj.iMachineID.toNat (obj.iIndex.toNat + k) := by
  induction tvs generalizing obj k with
  | nil => rfl
  | cons tv tvs ih =>
    cases k with
    | zero => exact congrArg some (toNat_generate obj tv)
    | succ k =>
      have hpack (tv : TimeVal) :
          packID (tv.ms % 2 ^ 42) obj.iMachineID.toNat ((obj.iIndex.toNat + 1) % 0x1000 + k)
            = packID (tv.ms % 2 ^ 42) obj.iMachineID.toNat (obj.iIndex.toNat + (k + 1)) :=
        packID_inj.mpr ⟨rfl, by omega⟩
      rw [generateAll, List.getElem?_cons_succ, List.getElem?_cons_succ,
        ih (obj.generate tv).2 k, iMachineID_generate, toNat_iIndex_generate]
      simp only [hpack]

/-- Two calls give the same ID exactly if their milliseconds have the same 42 bits and
the index has come round between them. -/
theorem getElem?_generateAll_eq_iff (obj : SnowflakeID) {tvs : List TimeVal} {i j : ℕ}
    (hi : i < tvs.length) (hj : j < tvs.length) :
    (obj.generateAll tvs)[i]? = (obj.generateAll tvs)[j]?
      ↔ tvs[i].ms % 2 ^ 42 = tvs[j].ms % 2 ^ 42 ∧ i % 0x1000 = j % 0x1000 := by
  have hinj : Function.Injective (Option.map (BitVec.toNat : BitVec 64 → ℕ)) :=
    Option.map_injective fun _ _ => BitVec.eq_of_toNat_eq
  rw [← hinj.eq_iff, getElem?_generateAll, getElem?_generateAll,
    List.getElem?_eq_getElem hi, List.getElem?_eq_getElem hj, Option.map_some, Option.map_some,
    Option.some_inj, packID_inj]
  exact and_congr_right fun _ => by omega

/-- A reading of 41 bits is told by 42 of them. -/
theorem mod_ms_of_lt {tvs : List TimeVal} (h : ∀ tv ∈ tvs, tv.ms < 2 ^ 41) {i : ℕ}
    (hi : i < tvs.length) : tvs[i].ms % 2 ^ 42 = tvs[i].ms :=
  Nat.mod_eq_of_lt ((h _ (List.getElem_mem hi)).trans (by decide))

/-- **What happens when the index comes round** within a millisecond: the
IDs of two calls 4096 apart are the same. -/
theorem not_nodup_of_wrap (obj : SnowflakeID) {tvs : List TimeVal} {i : ℕ}
    (hi : i + 0x1000 < tvs.length)
    (heq : tvs[i].ms = tvs[i + 0x1000].ms) : ¬(obj.generateAll tvs).Nodup := by
  intro hnodup
  have hsame := (getElem?_generateAll_eq_iff obj (i := i) (by omega) hi).mpr
    ⟨congrArg (· % 2 ^ 42) heq, by omega⟩
  exact List.nodup_iff_getElem?_ne_getElem?.mp hnodup i (i + 0x1000) (by omega)
    (by rwa [length_generateAll]) hsame

/-- **The IDs are distinct** exactly while no millisecond sees more than 4096
calls. -/
theorem nodup_generateAll_iff (iMachineID : BitVec 32) (tvs : List TimeVal)
    (hmono : tvs.Pairwise fun tv tv' => tv.ms ≤ tv'.ms) (hlt : ∀ tv ∈ tvs, tv.ms < 2 ^ 41) :
    ((create.setMachineID iMachineID).generateAll tvs).Nodup
      ↔ ∀ t, (tvs.map TimeVal.ms).count t ≤ 0x1000 := by
  have hsorted : (tvs.map TimeVal.ms).Pairwise (· ≤ ·) := List.pairwise_map.mpr hmono
  have hdup := exists_getElem_eq_iff_exists_lt_count (n := 0x1000) hsorted
  simp only [List.length_map, List.getElem_map] at hdup
  constructor
  · intro hnodup t
    by_contra hcount
    obtain ⟨i, hi, heq⟩ := hdup.mpr ⟨t, not_le.mp hcount⟩
    exact not_nodup_of_wrap _ hi heq hnodup
  · intro hcount
    refine List.nodup_iff_getElem?_ne_getElem?.mpr fun i j hij hj hsame => ?_
    rw [length_generateAll] at hj
    rw [getElem?_generateAll_eq_iff _ (by omega) hj, mod_ms_of_lt hlt, mod_ms_of_lt hlt] at hsame
    obtain ⟨hms, hmod⟩ := hsame
    -- a whole round of the index lies between the two calls
    have hfar : i + 0x1000 ≤ j := by omega
    have hle : tvs[i + 0x1000].ms ≤ tvs[j].ms := by
      obtain heq | hlt' := hfar.eq_or_lt
      · simp only [heq, le_refl]
      · exact List.pairwise_iff_getElem.mp hmono _ _ (by omega) hj hlt'
    have hge : tvs[i].ms ≤ tvs[i + 0x1000].ms :=
      List.pairwise_iff_getElem.mp hmono _ _ (by omega) (by omega) (by omega)
    obtain ⟨t, ht⟩ := hdup.mp ⟨i, by omega, le_antisymm hge (hle.trans hms.ge)⟩
    exact absurd (hcount t) (not_le.mpr ht)

/-- Three calls in two milliseconds. -/
theorem nodup_generateAll_three :
    ((create.setMachineID 10#32).generateAll
      [⟨1, 0, by decide⟩, ⟨1, 1, by decide⟩, ⟨1, 2000, by decide⟩]).Nodup := by
  refine (nodup_generateAll_iff 10#32 _ (by decide) (by decide)).mpr fun t => ?_
  exact List.count_le_length.trans (by decide)

/-- A clock that does not move for 4097 calls. -/
theorem not_nodup_generateAll_replicate :
    ¬∀ (iMachineID : BitVec 32) (tvs : List TimeVal),
      (tvs.Pairwise fun tv tv' => tv.ms ≤ tv'.ms) → (∀ tv ∈ tvs, tv.ms < 2 ^ 41) →
        ((create.setMachineID iMachineID).generateAll tvs).Nodup := by
  intro hall
  have hlt : ∀ tv ∈ List.replicate 0x1001 (⟨1, 0, by decide⟩ : TimeVal), tv.ms < 2 ^ 41 := by
    intro tv htv
    rw [List.eq_of_mem_replicate htv]
    decide
  refine not_nodup_of_wrap (create.setMachineID 10#32) (i := 0) ?_ ?_
    (hall 10#32 (List.replicate 0x1001 ⟨1, 0, by decide⟩) ?_ hlt)
  · rw [List.length_replicate]
    decide
  · rw [List.getElem_replicate, List.getElem_replicate]
  · exact List.pairwise_replicate.mpr (Or.inr le_rfl)

/-! ## Collisions -/

/-- IDs of different machines differ. -/
theorem packID_ne {ms ms' machine machine' index index' : ℕ}
    (h : machine % 2 ^ 10 ≠ machine' % 2 ^ 10) :
    packID ms machine index ≠ packID ms' machine' index' := by
  unfold packID
  omega

/-- The time counts more than the machine and the index. -/
theorem packID_lt {ms ms' : ℕ} (h : ms < ms') (machine machine' index index' : ℕ) :
    packID ms machine index < packID ms' machine' index' := by
  unfold packID
  omega

/-- The ten bits of the machine are its number modulo 1024, also of a negative one. -/
theorem mod_machine_eq_iff (x y : BitVec 32) :
    x.toNat % 2 ^ 10 = y.toNat % 2 ^ 10 ↔ x.toInt % 1024 = y.toInt % 1024 := by
  rw [BitVec.toInt_eq_toNat_cond, BitVec.toInt_eq_toNat_cond]
  split_ifs <;> omega

/-- What an ID of a run is. -/
theorem exists_of_mem_generateAll {obj : SnowflakeID} {tvs : List TimeVal} {id : BitVec 64}
    (h : id ∈ obj.generateAll tvs) :
    ∃ tv ∈ tvs, ∃ index,
      id.toNat = packID (tv.ms % 2 ^ 42) obj.iMachineID.toNat index := by
  obtain ⟨k, hk⟩ := List.mem_iff_getElem?.mp h
  have hid := getElem?_generateAll obj tvs k
  rw [hk, Option.map_some] at hid
  obtain ⟨tv, htv, hpack⟩ := Option.map_eq_some_iff.mp hid.symm
  exact ⟨tv, List.mem_of_getElem? htv, _, hpack.symm⟩

/-- **The collision law.** Two calls of one object give the same ID exactly if their milliseconds
agree modulo 2 ^ 42 and a multiple of 4096 calls lies between them. Two objects whose machines
differ modulo 1024 never give the same ID. And of two readings below 2 ^ 42 milliseconds the smaller
one gives the smaller ID, whatever the objects are. -/
theorem generateAll_collision (obj : SnowflakeID) (tvs : List TimeVal) :
    (∀ (i j : ℕ) (hij : i < j) (hj : j < tvs.length),
      (obj.generateAll tvs)[i]? = (obj.generateAll tvs)[j]?
        ↔ tvs[i].ms ≡ tvs[j].ms [MOD 2 ^ 42] ∧ 4096 ∣ j - i)
      ∧ (∀ (obj' : SnowflakeID) (tvs' : List TimeVal),
        obj.iMachineID.toInt % 1024 ≠ obj'.iMachineID.toInt % 1024 →
          ∀ id ∈ obj.generateAll tvs, id ∉ obj'.generateAll tvs')
      ∧ ∀ (obj' : SnowflakeID) (tv tv' : TimeVal), tv.ms < tv'.ms → tv'.ms < 2 ^ 42 →
        (obj.generate tv).1 < (obj'.generate tv').1 := by
  refine ⟨fun i j hij hj => ?_, fun obj' tvs' hmachine id hid hid' => ?_,
    fun obj' tv tv' hlt hlt' => ?_⟩
  · rw [getElem?_generateAll_eq_iff obj (by omega) hj]
    refine and_congr_right fun _ => ?_
    omega
  · obtain ⟨tv, -, index, heq⟩ := exists_of_mem_generateAll hid
    obtain ⟨tv', -, index', heq'⟩ := exists_of_mem_generateAll hid'
    rw [Ne, ← mod_machine_eq_iff] at hmachine
    exact packID_ne hmachine (heq.symm.trans heq')
  · rw [BitVec.lt_def, toNat_generate, toNat_generate, Nat.mod_eq_of_lt (hlt.trans hlt'),
      Nat.mod_eq_of_lt hlt']
    exact packID_lt hlt ..

end SnowflakeID
