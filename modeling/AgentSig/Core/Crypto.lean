import AgentSig.Core.SignatureBase

/-!
# Signing and verifying messages

The signature of a message is that of the octets of its base (RFC 9421, Section 3.3.6). Signing returns
the values of two header fields and changes no message. Verifying checks a signature of a parsed input
against one public key; what the message gets wrong is a rejection, and wrong options are an error.

## Main definitions

* `SigningBackend`: `sign` and `verify` of the host
* `signHttpMessage`, `SignatureHeaderPatch`: signing, and what it returns
* `RequestParts.append`: a request with the two fields at its end
* `verifyHttpSignatureCryptography`: verifying

## Main results

* `signHttpMessage_eq_ok`, `verify_eq_valid`: the steps of a successful run
-/

namespace AgentSig.Core

open Commons StructuredFields

/-- The `type` of a key object. -/
inductive KeyType
  | secret
  | publicKey
  | privateKey
  deriving DecidableEq, Repr

/-- A key object of the host: its types, and what tells it apart. -/
structure KeyObject where
  type : KeyType
  asymmetricKeyType : Option Text
  material : List UInt8
  deriving DecidableEq, Repr

/-- `sign(null, …)` and `verify(null, …)` of the host, which may throw. -/
structure SigningBackend where
  sign : List UInt8 → KeyObject → Option (List UInt8)
  verify : List UInt8 → KeyObject → List UInt8 → Option Bool

/-- What signing and verifying throw: the errors of the core, and those of the host. -/
inductive CryptoError
  | core (error : CoreError)
  | backend
  deriving DecidableEq, Repr

/-- The errors of the core, among all. -/
def withCrypto {α : Type} : Except CoreError α → Except CryptoError α
  | .ok a => .ok a
  | .error e => .error (.core e)

/-- What the host throws is passed on. -/
def ofBackend {α : Type} : Option α → Except CryptoError α
  | some a => .ok a
  | none => .error .backend

@[simp] theorem withCrypto_eq_ok {α : Type} {x : Except CoreError α} {a : α} :
    withCrypto x = .ok a ↔ x = .ok a := by
  cases x <;> simp [withCrypto]

@[simp] theorem ofBackend_eq_ok {α : Type} {x : Option α} {a : α} :
    ofBackend x = .ok a ↔ x = some a := by
  cases x <;> simp [ofBackend]

/-- `requireKey`; an argument that is no key object is none. -/
def requireKey (key : Option KeyObject) (type : KeyType) : Except CoreError KeyObject :=
  match key with
  | none => throw (.signature .invalidKey)
  | some key => do
    require (key.type = type ∧ key.asymmetricKeyType = some (ascii "ed25519")) (.signature .invalidKey)
    return key

/-- `requireAlgorithm`. -/
def requireAlgorithm (input : SignatureInput) : Except CoreError Unit :=
  require (∀ algorithm ∈ OrderedMap.lookup input.parameters (ascii "alg"),
    algorithm = .string (ascii "ed25519")) (.signature .algorithmMismatch)

/-- `SignatureHeaderPatch`. -/
structure SignatureHeaderPatch where
  label : Text
  signatureInput : Text
  signature : Text
  deriving DecidableEq, Repr

/-- The dictionary of one signature input. -/
def inputField (label : Text) (inner : InnerList) : Field := .dictionary [(label, .innerList inner)]

/-- The dictionary of one signature. -/
def signatureField (label : Text) (signature : List UInt8) : Field :=
  .dictionary [(label, .item ⟨.bytes signature, []⟩)]

/-- `signHttpMessage`. -/
def signHttpMessage (B : SigningBackend) (P : Platform) (L : CoreLimits)
    (options : CanonicalizationOptions) (message : HttpMessage) (input : SignatureInput)
    (privateKey : Option KeyObject) : Except CryptoError SignatureHeaderPatch := do
  let privateKey ← withCrypto (requireKey privateKey .privateKey)
  let inner ← withCrypto (signatureInnerList L input)
  withCrypto (requireAlgorithm input)
  let base ← withCrypto (createSignatureBase P L options message input)
  let signature ← ofBackend (B.sign base.bytes privateKey)
  let signatureInput ← withCrypto (withSfErrors
    (serialize L.structuredFields (inputField input.label inner)))
  let signatureHeader ← withCrypto (withSfErrors
    (serialize L.structuredFields (signatureField input.label signature)))
  withCrypto (checkLimit L .maxSignatureHeaderBytes (signatureInput.length + signatureHeader.length))
  return { label := input.label, signatureInput, signature := signatureHeader }

/-- The two fields of a patch. -/
def SignatureHeaderPatch.fields (patch : SignatureHeaderPatch) : List HeaderField :=
  [⟨ascii "Signature-Input", .text patch.signatureInput⟩, ⟨ascii "Signature", .text patch.signature⟩]

/-- A request with the two fields of a patch at its end. -/
def RequestParts.append (request : RequestParts) (patch : SignatureHeaderPatch) : RequestParts :=
  { request with headers := request.headers ++ patch.fields }

/-- `CryptoVerification`. -/
inductive CryptoVerification
  | signatureValid (input : SignatureInput)
  | rejected (reason : RejectionReason)
  deriving DecidableEq, Repr

/-- The part of `verifyHttpSignatureCryptography` that is tried. -/
def tryVerification (B : SigningBackend) (P : Platform) (L : CoreLimits)
    (options : CanonicalizationOptions) (message : HttpMessage) (signature : ParsedSignature)
    (publicKey : Option KeyObject) : Except CryptoError CryptoVerification := do
  let publicKey ← withCrypto (requireKey publicKey .publicKey)
  let _ ← withCrypto (signatureInnerList L signature.input)
  withCrypto (requireAlgorithm signature.input)
  if signature.signature.length ≠ 64 then return .rejected .signatureMismatch
  else do
    let base ← withCrypto (createSignatureBase P L options message signature.input)
    let valid ← ofBackend (B.verify base.bytes publicKey signature.signature)
    return if valid then .signatureValid signature.input else .rejected .signatureMismatch

/-- The handler of `verifyHttpSignatureCryptography`: a signature error is a rejection. -/
def rejectSignatureError : Except CryptoError CryptoVerification → Except CryptoError CryptoVerification
  | .error (.core (.signature reason)) => .ok (.rejected reason)
  | .error (.core (.limit _ _ _)) => .ok (.rejected .resourceLimit)
  | outcome => outcome

/-- `verifyHttpSignatureCryptography`. -/
def verifyHttpSignatureCryptography (B : SigningBackend) (P : Platform) (L : CoreLimits)
    (options : CanonicalizationOptions) (message : HttpMessage) (signature : ParsedSignature)
    (publicKey : Option KeyObject) : Except CryptoError CryptoVerification :=
  rejectSignatureError (tryVerification B P L options message signature publicKey)

variable {B : SigningBackend} {P : Platform} {L : CoreLimits} {options : CanonicalizationOptions}
  {message : HttpMessage} {input : SignatureInput} {key : Option KeyObject}

theorem requireKey_eq_ok {type : KeyType} {k : KeyObject} : requireKey key type = .ok k ↔
    key = some k ∧ k.type = type ∧ k.asymmetricKeyType = some (ascii "ed25519") := by
  cases key with
  | none => simp [requireKey]
  | some k' =>
    simp only [requireKey, bind_eq_ok, require_eq_ok, exists_const, pure_eq_ok, Option.some.injEq]
    constructor
    · rintro ⟨h, rfl⟩
      exact ⟨rfl, h⟩
    · rintro ⟨rfl, h⟩
      exact ⟨h, rfl⟩

theorem requireAlgorithm_eq_ok {u : Unit} : requireAlgorithm input = .ok u ↔
    ∀ algorithm ∈ OrderedMap.lookup input.parameters (ascii "alg"),
      algorithm = .string (ascii "ed25519") := require_eq_ok

/-- An input that is accepted has its own inner list. -/
theorem signatureInnerList_value {inner : InnerList} (h : signatureInnerList L input = .ok inner) :
    inner = input.innerList := by
  simp only [signatureInnerList, bind_eq_ok, pure_eq_ok] at h
  obtain ⟨_, -, _, -, _, -, _, -, _, -, rfl⟩ := h
  rfl

/-- What a successful signing has done. -/
structure Signed (B : SigningBackend) (P : Platform) (L : CoreLimits)
    (options : CanonicalizationOptions) (message : HttpMessage) (input : SignatureInput)
    (key : KeyObject) (base : SignatureBase) (signature : List UInt8)
    (patch : SignatureHeaderPatch) : Prop where
  keyType : key.type = .privateKey ∧ key.asymmetricKeyType = some (ascii "ed25519")
  inner : signatureInnerList L input = .ok input.innerList
  algorithm : requireAlgorithm input = .ok ()
  created : createSignatureBase P L options message input = .ok base
  signed : B.sign base.bytes key = some signature
  label : patch.label = input.label
  inputText : serialize L.structuredFields (inputField input.label input.innerList) =
    .ok patch.signatureInput
  signatureText : serialize L.structuredFields (signatureField input.label signature) = .ok patch.signature
  length : patch.signatureInput.length + patch.signature.length ≤ L.get .maxSignatureHeaderBytes

/-- The steps of a successful signing. -/
theorem signHttpMessage_eq_ok {patch : SignatureHeaderPatch} :
    signHttpMessage B P L options message input key = .ok patch ↔
      ∃ k base signature, key = some k ∧ Signed B P L options message input k base signature patch := by
  simp only [signHttpMessage, bind_eq_ok, withCrypto_eq_ok, withSfErrors_eq_ok, ofBackend_eq_ok,
    requireKey_eq_ok, checkLimit_eq_ok, exists_const, pure_eq_ok]
  constructor
  · rintro ⟨k, ⟨rfl, hkey⟩, inner, hinner, u, halgorithm, base, hbase, signature, hsign, text, htext,
      header, hheader, hlength, rfl⟩
    obtain rfl := signatureInnerList_value hinner
    exact ⟨k, base, signature, rfl, hkey, hinner, halgorithm, hbase, hsign, rfl, htext, hheader, hlength⟩
  · rintro ⟨k, base, signature, rfl, h⟩
    refine ⟨k, ⟨rfl, h.keyType⟩, _, h.inner, (), h.algorithm, base, h.created, signature, h.signed, _,
      h.inputText, _, h.signatureText, h.length, ?_⟩
    rw [← h.label]

/-- The steps of a successful verification. -/
theorem verify_eq_valid {signature : ParsedSignature} {input : SignatureInput} :
    verifyHttpSignatureCryptography B P L options message signature key = .ok (.signatureValid input) ↔
      signature.input = input ∧ signature.signature.length = 64 ∧
        requireAlgorithm signature.input = .ok () ∧
        ∃ k base, key = some k ∧ k.type = .publicKey ∧ k.asymmetricKeyType = some (ascii "ed25519") ∧
          createSignatureBase P L options message signature.input = .ok base ∧
          B.verify base.bytes k signature.signature = some true := by
  have hhandler {x : Except CryptoError CryptoVerification} :
      rejectSignatureError x = .ok (.signatureValid input) ↔ x = .ok (.signatureValid input) := by
    unfold rejectSignatureError
    split <;> simp
  rw [verifyHttpSignatureCryptography, hhandler]
  simp only [tryVerification, bind_eq_ok, withCrypto_eq_ok, requireKey_eq_ok]
  constructor
  · rintro ⟨k, ⟨rfl, htype, hed⟩, inner, hinner, u, halgorithm, h⟩
    split at h
    · cases pure_eq_ok.mp h
    · rename_i hlength
      simp only [bind_eq_ok, withCrypto_eq_ok, ofBackend_eq_ok, pure_eq_ok] at h
      obtain ⟨base, hbase, valid, hvalid, h⟩ := h
      cases valid with
      | false => cases h
      | true =>
        obtain rfl := CryptoVerification.signatureValid.inj h
        exact ⟨rfl, not_not.mp hlength, halgorithm, k, base, rfl, htype, hed, hbase, hvalid⟩
  · rintro ⟨rfl, hlength, halgorithm, k, base, rfl, htype, hed, hbase, hvalid⟩
    have hinner : ∃ inner, signatureInnerList L signature.input = .ok inner := by
      simp only [createSignatureBase, signatureParameters, bind_eq_ok] at hbase
      obtain ⟨_, ⟨inner, hinner, -⟩, -⟩ := hbase
      exact ⟨inner, hinner⟩
    obtain ⟨inner, hinner⟩ := hinner
    refine ⟨k, ⟨rfl, htype, hed⟩, inner, hinner, (), halgorithm, ?_⟩
    rw [if_neg (not_not.mpr hlength)]
    simp only [bind_eq_ok, withCrypto_eq_ok, ofBackend_eq_ok, pure_eq_ok]
    exact ⟨base, hbase, true, hvalid, rfl⟩

end AgentSig.Core
