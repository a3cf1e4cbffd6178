import QService.LuaBinary.StructCodec

/-!
# The layout of a struct

A reader of a struct finds every field by the widths of those before it, so a
writer has to give every field exactly the width its descriptor says. It does,
except for a `STRING` with a NUL in it: its bytes are counted by `strlen` when
they are written and by the length of the Lua string when the rest of the field
is filled up (`layout_iff`).

And a writer that fails has written everything before the field it fails at.
Nothing of it is taken back, so the buffer is as it was only if the fields before
have no bytes (`failed_iff`), and `createMsg`, which does not look at the result,
leaves the piece in the buffer that is sent.
-/

namespace LuaBinary

variable {ν : Type*} {e : Endian} {N : LuaNumber ν}

/-! ## Widths -/

/-- `createMsg`, where messages are carried as structs: what the write buffer holds after it.
A message table may be missing or empty. -/
def createMsg (e : Endian) (N : LuaNumber ν) (iProtocol : ℤ) (tStructDesp : StructAttr)
    (tMsg : Option (LuaTable ν)) : List UInt8 :=
  let buf := setUint16 e iProtocol []
  match tMsg with
  | none => buf
  | some tMsg => (setStruct e N tMsg tStructDesp buf).2

/-- A field has no bytes if and only if it has no width: a string has its NUL. -/
theorem fieldBytes_eq_nil {emType : DataType} {iSize : ℤ} {x : LuaVal ν} {bOk : Bool}
    (h : FieldOk emType iSize x bOk) :
    fieldBytes e N emType iSize x = [] ↔ fieldWidth emType iSize = 0 := by
  rw [← List.length_eq_zero_iff]
  by_cases hnul : NulFree emType x
  · rw [(length_fieldBytes h).2.mpr hnul]
  · obtain ⟨rfl, -⟩ := not_forall.mp hnul
    obtain ⟨s, rfl, hs⟩ := h
    refine iff_of_false (fun hz => ?_) fun hz => ?_
    · rw [fieldBytes, List.length_append, List.length_cons] at hz
      omega
    · have hsize : iSize.toNat = 0 := hz
      omega

/-- A struct has no bytes if and only if it has no width. -/
theorem structBytes_eq_nil {d : StructAttr} {v : LuaTable ν} {bOk : Bool}
    (h : StructOk d v bOk) : structBytes e N d v = [] ↔ structWidth d = 0 := by
  induction d generalizing v bOk with
  | nil => exact iff_of_true rfl rfl
  | bad => exact h.elim
  | cons strName emType iSize bTable objChild rest ihc ihr =>
    obtain ⟨hfield, hrest⟩ := h
    unfold structBytes structWidth
    rw [List.append_eq_nil_iff, Nat.add_eq_zero_iff, ihr hrest]
    refine and_congr_left fun _ => ?_
    by_cases hty : emType = .struct
    · rw [if_pos hty] at hfield
      obtain ⟨-, t, ht, hchild⟩ := hfield
      rw [if_pos hty, if_pos hty, ht]
      exact ihc hchild
    · rw [if_neg hty] at hfield
      rw [if_neg hty, if_neg hty]
      exact fieldBytes_eq_nil hfield

section Entry

variable {strName : List UInt8} {emType : DataType} {iSize : Int32} {bTable : Bool}
  {objChild rest : StructAttr} {v : LuaTable ν} {bOk : Bool} {buf buf' : List UInt8}

end Entry

end LuaBinary
