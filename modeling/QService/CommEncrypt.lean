import Mathlib.Tactic

/-!
# The cipher stages of a link

`CCommEncrypt` runs every message of a link through the stages that the
configuration lists for it: one list for clients, one for the links between
servers. Each stage reads the message (the first one) or the buffer `m_objBuffer`
(the others) and leaves its result in that buffer, which all calls share.

What it is meant to compute is the composition of the stages of the selected
list, left to right for `Encode` and right to left for `Decode` (`composeStages`).
Both functions return early when the *client* list is empty, whichever list
the call selects. `exact_iff` says which configurations this leaves exact:
for the clients every one, for the server links those where both lists are
empty or neither is. Otherwise a message goes out in plain text, or the
result is what the last call left in the buffer.
-/

/-- `enum EncryptType`. -/
inductive EncryptType
  | aes
  | rsa
  | zlib
  deriving DecidableEq, Repr

/-- The stages, as functions from byte strings to byte strings that may fail. -/
structure Stages where
  aesEncode : List UInt8 → Option (List UInt8)
  aesDecode : List UInt8 → Option (List UInt8)
  privateKeyEncrypt : List UInt8 → Option (List UInt8)
  publicKeyEncrypt : List UInt8 → Option (List UInt8)
  publicKeyDecrypt : List UInt8 → Option (List UInt8)
  zlibCompress : List UInt8 → Option (List UInt8)
  zlibDecompression : List UInt8 → Option (List UInt8)

namespace Stages

/-- The stage that `Encode` runs for a type. A server link uses the private key. -/
def encodeStage (C : Stages) (bSVLink : Bool) : EncryptType → List UInt8 → Option (List UInt8)
  | .aes => C.aesEncode
  | .rsa => if bSVLink then C.privateKeyEncrypt else C.publicKeyEncrypt
  | .zlib => C.zlibCompress

/-- The stage that `Decode` runs for a type: the peer has encrypted with the
private key, on either kind of link. -/
def decodeStage (C : Stages) : EncryptType → List UInt8 → Option (List UInt8)
  | .aes => C.aesDecode
  | .rsa => C.publicKeyDecrypt
  | .zlib => C.zlibDecompression

end Stages

/-- A `CCommEncrypt`: the two lists of types and the bytes of `m_objBuffer`. -/
structure CommEncrypt where
  clinetType : List EncryptType
  svLinkType : List EncryptType
  buffer : List UInt8
  deriving DecidableEq, Repr

namespace CommEncrypt

/-- Before any call of `addType`. -/
def init : CommEncrypt := ⟨[], [], []⟩

/-- `CCommEncrypt::addType`. -/
def addType (S : CommEncrypt) (emType : EncryptType) (bSVLink : Bool) : CommEncrypt :=
  if bSVLink then { S with svLinkType := S.svLinkType ++ [emType] }
  else { S with clinetType := S.clinetType ++ [emType] }

/-- `pType`, the list that a call selects. -/
def types (S : CommEncrypt) (bSVLink : Bool) : List EncryptType :=
  if bSVLink then S.svLinkType else S.clinetType

/-- The loop over the stages: what is returned (`none` for NULL) and the buffer.
`bFirst` says that no stage has run yet. -/
def runStages (stage : EncryptType → List UInt8 → Option (List UInt8)) (msg : List UInt8) :
    Bool → List EncryptType → List UInt8 → Option (List UInt8) × List UInt8
  | _, [], buffer => (some buffer, buffer)
  | bFirst, emType :: types, buffer =>
    match stage emType (if bFirst then msg else buffer) with
    | none => (none, buffer)
    | some tmp => runStages stage msg false types tmp

/-- The common body of `Encode` and `Decode`, with the types in the order they
are run in. -/
def crypt (stage : EncryptType → List UInt8 → Option (List UInt8)) (types : List EncryptType)
    (msg : List UInt8) (S : CommEncrypt) : Option (List UInt8) × CommEncrypt :=
  if S.clinetType = [] then (some msg, S)
  else if msg = [] then (some msg, S)
  else
    let r := runStages stage msg true types S.buffer
    (r.1, { S with buffer := r.2 })

/-- `CCommEncrypt::Encode`. -/
def encode (C : Stages) (msg : List UInt8) (bSVLink : Bool) (S : CommEncrypt) :
    Option (List UInt8) × CommEncrypt :=
  crypt (C.encodeStage bSVLink) (S.types bSVLink) msg S

/-- `CCommEncrypt::Decode`, which runs the types backwards. -/
def decode (C : Stages) (msg : List UInt8) (bSVLink : Bool) (S : CommEncrypt) :
    Option (List UInt8) × CommEncrypt :=
  crypt C.decodeStage (S.types bSVLink).reverse msg S

/-- A call of `CCommEncrypt`. -/
inductive Call
  | encode (msg : List UInt8) (bSVLink : Bool)
  | decode (msg : List UInt8) (bSVLink : Bool)

/-- The object after a call. -/
def call (C : Stages) (S : CommEncrypt) : Call → CommEncrypt
  | .encode msg bSVLink => (S.encode C msg bSVLink).2
  | .decode msg bSVLink => (S.decode C msg bSVLink).2

/-- The object configured with the two lists, after a history of calls. -/
def after (C : Stages) (client server : List EncryptType) (history : List Call) :
    CommEncrypt := history.foldl (call C) ⟨client, server, []⟩

/-! ## What the calls are meant to compute -/

/-- The composition of the stages, in the order of the list. -/
def composeStages (stage : EncryptType → List UInt8 → Option (List UInt8))
    (types : List EncryptType) (msg : List UInt8) : Option (List UInt8) :=
  types.foldlM (fun m emType => stage emType m) msg

/-- **The calls on a link apply exactly its stages**: whatever the stages are and
whatever was called before, a non-empty message is encoded by the composition
of the stages of the selected list and decoded by the backwards composition of
their inverse stages. -/
def Exact (client server : List EncryptType) (bSVLink : Bool) : Prop :=
  ∀ (C : Stages) (history : List Call) (msg : List UInt8), msg ≠ [] →
    let types := if bSVLink then server else client
    ((after C client server history).encode C msg bSVLink).1
        = composeStages (C.encodeStage bSVLink) types msg
      ∧ ((after C client server history).decode C msg bSVLink).1
        = composeStages C.decodeStage types.reverse msg

/-! ## The loop -/

/-- After the first stage the loop composes the stages on the buffer. -/
theorem runStages_false (stage : EncryptType → List UInt8 → Option (List UInt8))
    (msg : List UInt8) (types : List EncryptType) (buffer : List UInt8) :
    (runStages stage msg false types buffer).1 = composeStages stage types buffer := by
  induction types generalizing buffer with
  | nil => rfl
  | cons emType types ih =>
    unfold runStages composeStages
    rw [List.foldlM_cons, if_neg Bool.false_ne_true]
    cases stage emType buffer with
    | none => rfl
    | some tmp => exact ih tmp

/-- **The loop over a list that is not empty composes its stages**, and does not
see the buffer it starts with. -/
theorem runStages_true (stage : EncryptType → List UInt8 → Option (List UInt8))
    (msg : List UInt8) {types : List EncryptType} (h : types ≠ []) (buffer : List UInt8) :
    (runStages stage msg true types buffer).1 = composeStages stage types msg := by
  cases types with
  | nil => exact absurd rfl h
  | cons emType types =>
    unfold runStages composeStages
    rw [List.foldlM_cons, if_pos rfl]
    cases stage emType msg with
    | none => rfl
    | some tmp => exact runStages_false stage msg types tmp

/-! ## One call -/

section Call

variable {S : CommEncrypt} {stage : EncryptType → List UInt8 → Option (List UInt8)}
  {types : List EncryptType} {msg : List UInt8}

/-- Without client stages a message comes back as it is. -/
theorem crypt_of_client_nil (h : S.clinetType = []) :
    (crypt stage types msg S).1 = some msg := by
  rw [crypt, if_pos h]

/-- With client stages a message goes through the types it is given. -/
theorem crypt_of_client_ne_nil (h : S.clinetType ≠ []) (hmsg : msg ≠ []) (htypes : types ≠ []) :
    (crypt stage types msg S).1 = composeStages stage types msg := by
  rw [crypt, if_neg h, if_neg hmsg]
  exact runStages_true stage msg htypes S.buffer

/-- With client stages and no types to run, the result is the old buffer. -/
theorem crypt_of_types_nil (h : S.clinetType ≠ []) (hmsg : msg ≠ []) :
    (crypt stage [] msg S).1 = some S.buffer := by
  rw [crypt, if_neg h, if_neg hmsg]
  rfl

theorem crypt_types : (crypt stage types msg S).2.clinetType = S.clinetType
    ∧ (crypt stage types msg S).2.svLinkType = S.svLinkType := by
  unfold crypt
  split_ifs <;> exact ⟨rfl, rfl⟩

end Call

/-- No call changes the configuration. -/
theorem after_types (C : Stages) (client server : List EncryptType) (history : List Call) :
    (after C client server history).clinetType = client
      ∧ (after C client server history).svLinkType = server := by
  suffices key : ∀ S : CommEncrypt,
      (history.foldl (call C) S).clinetType = S.clinetType
        ∧ (history.foldl (call C) S).svLinkType = S.svLinkType from key _
  induction history with
  | nil => exact fun _ => ⟨rfl, rfl⟩
  | cons c history ih =>
    intro S
    have hc : (S.call C c).clinetType = S.clinetType
        ∧ (S.call C c).svLinkType = S.svLinkType := by
      cases c with
      | encode msg bSVLink => exact crypt_types
      | decode msg bSVLink => exact crypt_types
    obtain ⟨h₁, h₂⟩ := ih (S.call C c)
    exact ⟨h₁.trans hc.1, h₂.trans hc.2⟩

/-- The list that a call selects, whatever was called before. -/
theorem types_after (C : Stages) (client server : List EncryptType) (history : List Call)
    (bSVLink : Bool) :
    (after C client server history).types bSVLink = if bSVLink then server else client := by
  obtain ⟨h₁, h₂⟩ := after_types C client server history
  rw [types, h₁, h₂]

/-! ## The configurations that are exact -/

theorem exact_of_nonempty {client server : List EncryptType} {bSVLink : Bool}
    (hclient : client ≠ []) (htypes : (if bSVLink then server else client) ≠ []) :
    Exact client server bSVLink := by
  intro C history msg hmsg
  have hne : (after C client server history).clinetType ≠ [] := by
    rw [(after_types C client server history).1]
    exact hclient
  constructor
  · rw [encode, types_after]
    exact crypt_of_client_ne_nil hne hmsg htypes
  · rw [decode, types_after]
    exact crypt_of_client_ne_nil hne hmsg (List.reverse_ne_nil_iff.mpr htypes)

theorem exact_of_empty {client server : List EncryptType} {bSVLink : Bool}
    (hclient : client = []) (htypes : (if bSVLink then server else client) = []) :
    Exact client server bSVLink := by
  intro C history msg _
  have hnil : (after C client server history).clinetType = [] := by
    rw [(after_types C client server history).1, hclient]
  rw [htypes]
  exact ⟨crypt_of_client_nil hnil, crypt_of_client_nil hnil⟩

/-- Stages that append a byte, to tell a call that ran one from a call that did
not. -/
def marking : Stages :=
  let stage := fun msg => some (msg ++ [0])
  ⟨stage, stage, stage, stage, stage, stage, stage⟩

theorem encodeStage_marking (bSVLink : Bool) (emType : EncryptType) (msg : List UInt8) :
    marking.encodeStage bSVLink emType msg = some (msg ++ [0]) := by
  cases emType <;> cases bSVLink <;> rfl

/-- A composition of marking stages changes every message. -/
theorem composeStages_marking_ne (bSVLink : Bool) {types : List EncryptType} (h : types ≠ [])
    (msg : List UInt8) :
    composeStages (marking.encodeStage bSVLink) types msg ≠ some msg := by
  have hlen : ∀ (types : List EncryptType) (m r : List UInt8),
      composeStages (marking.encodeStage bSVLink) types m = some r →
        r.length = m.length + types.length := by
    intro types
    induction types with
    | nil =>
      intro m r hr
      cases hr
      rfl
    | cons emType types ih =>
      intro m r hr
      rw [composeStages, List.foldlM_cons, encodeStage_marking] at hr
      have hrest := ih (m ++ [0]) r hr
      rw [List.length_append, List.length_singleton] at hrest
      rw [hrest, List.length_cons]
      omega
  intro heq
  have h₁ := hlen types msg msg heq
  have h₂ := List.length_pos_iff.mpr h
  omega

/-- **`CCommEncrypt` applies exactly the configured stages of the selected link,
with no trace of earlier calls, if and only if** the call is for a client
link, or the two lists are both empty or both not. -/
theorem exact_iff (client server : List EncryptType) (bSVLink : Bool) :
    Exact client server bSVLink
      ↔ bSVLink = false ∨ (client = [] ↔ server = []) := by
  constructor
  · intro hexact
    cases bSVLink with
    | false => exact .inl rfl
    | true =>
      refine .inr ⟨fun hclient => ?_, fun hserver => ?_⟩
      · -- the message comes back in plain text, so no stage may be configured
        by_contra hserver
        refine composeStages_marking_ne true hserver [1] ?_
        exact (hexact marking [] [1] (by decide)).1.symm.trans (crypt_of_client_nil hclient)
      · -- the result is the buffer, which is empty before the first call
        by_contra hclient
        have h := (hexact marking [] [1] (by decide)).1
        rw [encode, types_after, if_pos rfl, hserver] at h
        rw [crypt_of_types_nil hclient (by decide)] at h
        exact absurd (Option.some.inj h) (List.cons_ne_nil 1 []).symm
  · rintro (rfl | hiff)
    · by_cases hclient : client = []
      · exact exact_of_empty hclient hclient
      · exact exact_of_nonempty hclient hclient
    · by_cases hclient : client = []
      · refine exact_of_empty hclient ?_
        rw [hclient, hiff.mp hclient, ite_self]
      · refine exact_of_nonempty hclient ?_
        cases bSVLink with
        | false => exact hclient
        | true => exact fun hserver => hclient (hiff.mpr hserver)

/-- **On a server link a message goes out in plain text** when only the server
list has stages, **and as the previous message** when only the client list
does. -/
theorem encode_plain_or_previous :
    ((after marking [] [.aes] []).encode marking [1, 2] true).1 = some [1, 2]
      ∧ ((after marking [.aes] [] [.encode [7] false]).encode marking [1, 2] true).1
        = some [7, 0]
      ∧ ¬ Exact [] [.aes] true ∧ ¬ Exact [.aes] [] true := by
  refine ⟨by decide, by decide, fun h => ?_, fun h => ?_⟩
  · exact absurd (h marking [] [1, 2] (by decide)).1 (by decide)
  · exact absurd (h marking [] [1, 2] (by decide)).1 (by decide)

end CommEncrypt
