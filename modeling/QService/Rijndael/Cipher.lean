import Mathlib.Data.Matrix.Basic
import Mathlib.LinearAlgebra.Matrix.Circulant
import QService.AES
import QService.Rijndael.Field
import QService.Rijndael.KeyAlternating

/-!
# AES

The cipher as its standard describes it, by operations on a square of field elements: each
is inverted in the field and sent through an affine map, the rows are turned, the
columns are multiplied by a circulant matrix, and a round key is added. The round
keys come out of a recursion over the words of the key.

Nothing here is taken from the code, which has tables in place of all of that.
-/

namespace Rijndael

open Matrix

/-- Rows and columns have numbers from 0 on. -/
scoped instance neZero_four : NeZero 4 := ⟨by decide⟩

/-- The bytes of a block, column by column. -/
abbrev State := Matrix (Fin 4) (Fin 4) GF256

/-! ## Bytes -/

def ofByte (b : UInt8) : GF256 := ⟨b.toBitVec⟩

def toByte (a : GF256) : UInt8 := ⟨a.bits⟩

/-- The affine map of the substitution. -/
def affine (a : GF256) : GF256 :=
  ⟨a.bits ^^^ a.bits.rotateLeft 1 ^^^ a.bits.rotateLeft 2 ^^^ a.bits.rotateLeft 3
    ^^^ a.bits.rotateLeft 4 ^^^ 0x63⟩

def unaffine (a : GF256) : GF256 :=
  ⟨a.bits.rotateLeft 1 ^^^ a.bits.rotateLeft 3 ^^^ a.bits.rotateLeft 6 ^^^ 0x05⟩

theorem unaffine_affine : ∀ a, unaffine (affine a) = a :=
  GF256.forall_of_forall_lt (by decide +kernel)

theorem affine_unaffine : ∀ a, affine (unaffine a) = a :=
  GF256.forall_of_forall_lt (by decide +kernel)

/-- The substitution of a byte. -/
def subByte : Equiv.Perm GF256 where
  toFun a := affine a⁻¹
  invFun a := (unaffine a)⁻¹
  left_inv a := by
    show (unaffine (affine a⁻¹))⁻¹ = a
    rw [unaffine_affine, inv_inv]
  right_inv a := by
    show affine (unaffine a)⁻¹⁻¹ = a
    rw [inv_inv, affine_unaffine]

/-! ## Rounds -/

/-- `SubBytes`. -/
def subBytes : Equiv.Perm State := subByte.mapMatrix

/-- `ShiftRows`: each row is turned by its number. -/
def shiftRows : Equiv.Perm State where
  toFun s := of fun r c => s r (c + r)
  invFun s := of fun r c => s r (c - r)
  left_inv s := Matrix.ext fun r c => congrArg (s r) (sub_add_cancel c r)
  right_inv s := Matrix.ext fun r c => congrArg (s r) (add_sub_cancel_right c r)

def mixMatrix : State := circulant ![⟨2⟩, ⟨1⟩, ⟨1⟩, ⟨3⟩]

def unmixMatrix : State := circulant ![⟨14⟩, ⟨9⟩, ⟨13⟩, ⟨11⟩]

theorem unmixMatrix_mul : unmixMatrix * mixMatrix = 1 := by
  rw [unmixMatrix, mixMatrix, circulant_mul, ← circulant_single_one]
  exact congrArg circulant (by decide +kernel)

/-- `MixColumns`. -/
def mixColumns : State ≃+ State where
  toFun s := mixMatrix * s
  invFun s := unmixMatrix * s
  left_inv s := by
    show unmixMatrix * (mixMatrix * s) = s
    rw [← Matrix.mul_assoc, unmixMatrix_mul, Matrix.one_mul]
  right_inv s := by
    show mixMatrix * (unmixMatrix * s) = s
    rw [← Matrix.mul_assoc, mul_eq_one_comm.mp unmixMatrix_mul, Matrix.one_mul]
  map_add' s t := Matrix.mul_add mixMatrix s t

/-- The rounds. -/
def aes : KeyAlternating State where
  sub := subBytes
  shift := shiftRows
  mix := mixColumns
  sub_shift _ := rfl

/-! ## Keys -/

/-- A column of a state, or a word of a key. -/
abbrev Column := Fin 4 → GF256

/-- A word of a key of bytes. -/
def keyWord (key : List UInt8) (i : ℕ) : Column := fun r => ofByte (key.getD (4 * i + r) 0)

def subWord (u : Column) : Column := fun r => subByte (u r)

def rotWord (u : Column) : Column := fun r => u (r + 1)

/-- `Rcon`, from 0 on. -/
def roundConstant (i : ℕ) : Column := fun r => if r = 0 then ⟨2⟩ ^ i else 0

/-- `KeyExpansion`, with a key of `nk` words. -/
def expanded (nk : ℕ) (key : ℕ → Column) (i : ℕ) : Column :=
  if i < nk ∨ nk = 0 then key i
  else
    let temp := expanded nk key (i - 1)
    expanded nk key (i - nk)
      + if i % nk = 0 then subWord (rotWord temp) + roundConstant (i / nk - 1)
        else if 6 < nk ∧ i % nk = 4 then subWord temp
        else temp
termination_by i
decreasing_by all_goals omega

/-- The round keys are four words each. -/
def roundKey (w : ℕ → Column) (i : ℕ) : State := of fun r c => w (4 * i + c) r

/-- `Cipher`, with so many rounds. -/
def cipher (E : KeyAlternating State) (w : ℕ → Column) (nr : ℕ) (s : State) : State :=
  E.crypt (roundKey w 0) ((List.range (nr - 1)).map fun i => roundKey w (i + 1))
    (roundKey w nr) s

/-! ## Blocks -/

/-- The state of a block. -/
def ofBlock (b : AES.Block) : State := of fun r c => ofByte (b.bytes.getD (4 * c + r) 0)

def toBlock (s : State) : AES.Block where
  bytes := [0, 1, 2, 3].flatMap fun c => [0, 1, 2, 3].map fun r => toByte (s r c)
  length_bytes := rfl

/-- **AES** with a key of so many words and six rounds more. -/
def encryptBlock (nk : ℕ) (key : List UInt8) (b : AES.Block) : AES.Block :=
  toBlock (cipher aes (expanded nk (keyWord key)) (nk + 6) (ofBlock b))

end Rijndael
