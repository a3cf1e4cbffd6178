import QService.CommEncrypt

/-!
# The cipher stages of the two sides of a link

`CClientEncrypt` is the client's half of a client link. It runs the same kind
of loop as `CCommEncrypt`, with the other halves of the RSA keys: the server
encrypts with the public key and the client decrypts with the private one,
the client encrypts with the private key and the server decrypts with the
public one. On a link between servers both ends run `CCommEncrypt`, which
encrypts with the private key there.

Each stage undoes its counterpart (`PeerStages.Lawful`), so what one side
encodes the other decodes, on every list of stages (`peers_inverse`). The
induction is on the list; that no stage makes an empty message of one that is
not is what keeps the shortcut for empty messages out of the way.
-/

/-- The stages of both sides of a link: the client also decrypts with the
private key. -/
structure PeerStages extends Stages where
  privateKeyDecrypt : List UInt8 → Option (List UInt8)

namespace PeerStages

/-- The stage that the client's `Encode` runs for a type. -/
def clientEncodeStage (C : PeerStages) : EncryptType → List UInt8 → Option (List UInt8)
  | .aes => C.aesEncode
  | .rsa => C.privateKeyEncrypt
  | .zlib => C.zlibCompress

/-- The stage that the client's `Decode` runs for a type. -/
def clientDecodeStage (C : PeerStages) : EncryptType → List UInt8 → Option (List UInt8)
  | .aes => C.aesDecode
  | .rsa => C.privateKeyDecrypt
  | .zlib => C.zlibDecompression

end PeerStages

/-- A `CClientEncrypt`: its list of types and the bytes of its `m_objBuffer`. -/
structure ClientEncrypt where
  type : List EncryptType
  buffer : List UInt8
  deriving DecidableEq, Repr

namespace ClientEncrypt

/-- `CClientEncrypt::addType`. -/
def addType (K : ClientEncrypt) (emType : EncryptType) : ClientEncrypt :=
  { K with type := K.type ++ [emType] }

/-- The common body of the client's `Encode` and `Decode`. -/
def crypt (stage : EncryptType → List UInt8 → Option (List UInt8)) (types : List EncryptType)
    (msg : List UInt8) (K : ClientEncrypt) : Option (List UInt8) × ClientEncrypt :=
  if K.type = [] then (some msg, K)
  else if msg = [] then (some msg, K)
  else
    let r := CommEncrypt.runStages stage msg true types K.buffer
    (r.1, { K with buffer := r.2 })

/-- `CClientEncrypt::Encode`. -/
def encode (C : PeerStages) (msg : List UInt8) (K : ClientEncrypt) :
    Option (List UInt8) × ClientEncrypt := crypt C.clientEncodeStage K.type msg K

/-- `CClientEncrypt::Decode`, which runs the types backwards. -/
def decode (C : PeerStages) (msg : List UInt8) (K : ClientEncrypt) :
    Option (List UInt8) × ClientEncrypt := crypt C.clientDecodeStage K.type.reverse msg K

end ClientEncrypt

namespace CommEncrypt

/-! ## A stage and its inverse -/

/-- `dec` undoes `enc` on messages that are not empty, and `enc` makes none of
them empty. -/
def Undoes (dec enc : List UInt8 → Option (List UInt8)) : Prop :=
  ∀ msg out, msg ≠ [] → enc msg = some out → out ≠ [] ∧ dec out = some msg

/-- **Stages run forwards are undone by their inverses run backwards.** -/
theorem composeStages_undoes {enc dec : EncryptType → List UInt8 → Option (List UInt8)}
    (h : ∀ emType, Undoes (dec emType) (enc emType)) (types : List EncryptType) :
    Undoes (composeStages dec types.reverse) (composeStages enc types) := by
  induction types with
  | nil =>
    intro msg out hmsg henc
    obtain rfl := Option.some.inj henc
    exact ⟨hmsg, rfl⟩
  | cons emType types ih =>
    intro msg out hmsg henc
    unfold composeStages at henc
    rw [List.foldlM_cons] at henc
    obtain ⟨tmp, hfirst, hrest⟩ := Option.bind_eq_some_iff.mp henc
    obtain ⟨htmp, hdec⟩ := h emType msg tmp hmsg hfirst
    obtain ⟨hout, hback⟩ := ih tmp out htmp hrest
    refine ⟨hout, ?_⟩
    unfold composeStages at hback ⊢
    rw [List.reverse_cons, List.foldlM_append, hback]
    show ([emType].foldlM (fun m emType => dec emType m) tmp) = some msg
    rw [List.foldlM_cons, hdec]
    rfl

/-- A call of the server composes its stages, or gives the message back. -/
theorem crypt_eq (stage : EncryptType → List UInt8 → Option (List UInt8))
    {types : List EncryptType} (msg : List UInt8) (S : CommEncrypt)
    (htypes : types = [] ↔ S.clinetType = []) :
    (crypt stage types msg S).1
      = if msg = [] then some [] else composeStages stage types msg := by
  by_cases hS : S.clinetType = []
  · rw [crypt_of_client_nil hS, htypes.mpr hS]
    by_cases hmsg : msg = []
    · rw [if_pos hmsg, hmsg]
    · rw [if_neg hmsg]
      rfl
  · by_cases hmsg : msg = []
    · rw [crypt, if_neg hS, if_pos hmsg, if_pos hmsg, hmsg]
    · rw [if_neg hmsg]
      exact crypt_of_client_ne_nil hS hmsg (fun h => hS (htypes.mp h))

/-- A side that composes the inverse stages backwards gives the message back. -/
theorem undo_of_undoes {enc dec : EncryptType → List UInt8 → Option (List UInt8)}
    (h : ∀ emType, Undoes (dec emType) (enc emType)) {types : List EncryptType}
    {msg out : List UInt8}
    (henc : (if msg = [] then some [] else composeStages enc types msg) = some out) :
    (if out = [] then some [] else composeStages dec types.reverse out) = some msg := by
  by_cases hmsg : msg = []
  · rw [if_pos hmsg] at henc
    rw [if_pos (Option.some.inj henc).symm, hmsg]
  · rw [if_neg hmsg] at henc
    obtain ⟨hout, hdec⟩ := composeStages_undoes h types msg out hmsg henc
    rw [if_neg hout, hdec]

end CommEncrypt

namespace PeerStages

open CommEncrypt

/-- **Every stage is undone by its counterpart**: AES and zlib by their inverses,
the public key by the private one and the private key by the public one. -/
structure Lawful (C : PeerStages) : Prop where
  aes : Undoes C.aesDecode C.aesEncode
  zlib : Undoes C.zlibDecompression C.zlibCompress
  rsaPublic : Undoes C.privateKeyDecrypt C.publicKeyEncrypt
  rsaPrivate : Undoes C.publicKeyDecrypt C.privateKeyEncrypt

variable {C : PeerStages}

theorem Lawful.clientDecode (h : C.Lawful) (emType : EncryptType) :
    Undoes (C.clientDecodeStage emType) (C.encodeStage false emType) := by
  cases emType with
  | aes => exact h.aes
  | rsa => exact h.rsaPublic
  | zlib => exact h.zlib

theorem Lawful.clientEncode (h : C.Lawful) (emType : EncryptType) :
    Undoes (C.decodeStage emType) (C.clientEncodeStage emType) := by
  cases emType with
  | aes => exact h.aes
  | rsa => exact h.rsaPrivate
  | zlib => exact h.zlib

theorem Lawful.svLink (h : C.Lawful) (emType : EncryptType) :
    Undoes (C.decodeStage emType) (C.encodeStage true emType) := by
  cases emType with
  | aes => exact h.aes
  | rsa => exact h.rsaPrivate
  | zlib => exact h.zlib

end PeerStages

namespace ClientEncrypt

open CommEncrypt

/-- The same for a call of the client. -/
theorem crypt_eq (stage : EncryptType → List UInt8 → Option (List UInt8))
    {types : List EncryptType} (msg : List UInt8) (K : ClientEncrypt)
    (htypes : types = [] ↔ K.type = []) :
    (crypt stage types msg K).1
      = if msg = [] then some [] else composeStages stage types msg := by
  unfold crypt
  by_cases hK : K.type = []
  · rw [if_pos hK, htypes.mpr hK]
    by_cases hmsg : msg = []
    · rw [if_pos hmsg, hmsg]
    · rw [if_neg hmsg]
      rfl
  · rw [if_neg hK]
    by_cases hmsg : msg = []
    · rw [if_pos hmsg, if_pos hmsg, hmsg]
    · rw [if_neg hmsg, if_neg hmsg]
      exact runStages_true stage msg (fun h => hK (htypes.mp h)) K.buffer

/-- **The two sides of a link are inverse.** Whatever the stages in the lists and
whatever earlier calls have left in the buffers: what a server encodes for a
client the client decodes, what the client encodes the server decodes, and
what one server encodes for another with the same two lists, neither of them
empty, the other decodes. -/
theorem peers_inverse (C : PeerStages) (hC : C.Lawful) (msg out : List UInt8) :
    (∀ (S : CommEncrypt) (K : ClientEncrypt), K.type = S.clinetType →
        (S.encode C.toStages msg false).1 = some out → (K.decode C out).1 = some msg)
      ∧ (∀ (S : CommEncrypt) (K : ClientEncrypt), K.type = S.clinetType →
        (K.encode C msg).1 = some out → (S.decode C.toStages out false).1 = some msg)
      ∧ ∀ S S' : CommEncrypt, S.clinetType ≠ [] → S.svLinkType ≠ [] →
        S'.clinetType = S.clinetType → S'.svLinkType = S.svLinkType →
        (S.encode C.toStages msg true).1 = some out →
        (S'.decode C.toStages out true).1 = some msg := by
  refine ⟨fun S K hK henc => ?_, fun S K hK henc => ?_, fun S S' hcl hsv hcl' hsv' henc => ?_⟩
  · rw [CommEncrypt.encode, types, if_neg Bool.false_ne_true,
      CommEncrypt.crypt_eq _ _ _ Iff.rfl] at henc
    rw [decode, crypt_eq _ _ _ List.reverse_eq_nil_iff, hK]
    exact undo_of_undoes hC.clientDecode henc
  · rw [encode, crypt_eq _ _ _ Iff.rfl, hK] at henc
    rw [CommEncrypt.decode, types, if_neg Bool.false_ne_true,
      CommEncrypt.crypt_eq _ _ _ List.reverse_eq_nil_iff]
    exact undo_of_undoes hC.clientEncode henc
  · have htypes : ∀ {T : CommEncrypt}, T.clinetType = S.clinetType →
        T.svLinkType = S.svLinkType → (T.svLinkType = [] ↔ T.clinetType = []) := by
      intro T h₁ h₂
      rw [h₁, h₂]
      exact ⟨fun h => absurd h hsv, fun h => absurd h hcl⟩
    rw [CommEncrypt.encode, types, if_pos rfl, 
      CommEncrypt.crypt_eq _ _ _ (htypes rfl rfl)] at henc
    rw [CommEncrypt.decode, types, if_pos rfl, CommEncrypt.crypt_eq _ _ _
      (List.reverse_eq_nil_iff.trans (htypes hcl' hsv')), hsv']
    exact undo_of_undoes hC.svLink henc

/-- zlib on the message `a` and on what it makes of it; the other stages have no
key and fail. -/
def zlibOnly : PeerStages :=
  let fail := fun _ : List UInt8 => (none : Option (List UInt8))
  let once : List UInt8 := [120, 156, 75, 4, 0, 0, 98, 0, 98]
  let twice : List UInt8 :=
    [120, 156, 171, 152, 227, 205, 194, 192, 144, 196, 144, 4, 0, 12, 206, 2, 40]
  { aesEncode := fail
    aesDecode := fail
    privateKeyEncrypt := fail
    publicKeyEncrypt := fail
    publicKeyDecrypt := fail
    privateKeyDecrypt := fail
    zlibCompress := fun msg =>
      if msg = [97] then some once else if msg = once then some twice else none
    zlibDecompression := fun msg =>
      if msg = once then some [97] else if msg = twice then some once else none }

theorem zlibOnly_lawful : zlibOnly.Lawful where
  aes := nofun
  rsaPublic := nofun
  rsaPrivate := nofun
  zlib msg out _ henc := by
    simp only [zlibOnly] at henc ⊢
    split_ifs at henc with h₁ h₂
    · obtain rfl := Option.some.inj henc
      exact ⟨by decide, by rw [h₁]; decide⟩
    · obtain rfl := Option.some.inj henc
      exact ⟨by decide, by rw [h₂]; decide⟩

/-- The message `a`, compressed twice on the way to the client, on the way back
and between two servers. -/
theorem peers_inverse_zlibTwice :
    let L : List EncryptType := [.zlib, .zlib]
    let out : List UInt8 :=
      [120, 156, 171, 152, 227, 205, 194, 192, 144, 196, 144, 4, 0, 12, 206, 2, 40]
    (decode zlibOnly out ⟨L, []⟩).1 = some [97]
      ∧ (CommEncrypt.decode zlibOnly.toStages out false ⟨L, L, []⟩).1 = some [97]
      ∧ (CommEncrypt.decode zlibOnly.toStages out true ⟨L, L, []⟩).1 = some [97] := by
  intro L out
  obtain ⟨h₁, h₂, h₃⟩ := peers_inverse zlibOnly zlibOnly_lawful [97] out
  exact ⟨h₁ ⟨L, L, []⟩ ⟨L, []⟩ rfl (by decide), h₂ ⟨L, L, []⟩ ⟨L, []⟩ rfl (by decide),
    h₃ ⟨L, L, []⟩ ⟨L, L, []⟩ (by decide) (by decide) rfl rfl (by decide)⟩

end ClientEncrypt
