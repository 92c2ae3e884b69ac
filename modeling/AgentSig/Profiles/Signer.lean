import AgentSig.Core.MessageRoundTrip
import AgentSig.Profiles.ClockTracker
import AgentSig.Profiles.SigningConfig
import AgentSig.StructuredFields.CanonicalText

/-!
# The signer of a profile

A signer signs a request that carries no signature yet. It owns a snapshot of the request before it asks
its clock and its nonce generator, checks the size of everything it will return with a placeholder, and
then signs the base of the request with its agent header. It returns three fields to append.

## Main definitions

* `snapshotUnsignedRequest`: the request that is signed
* `readSigningTimestamps`, `readSigningNonce`: what the providers return
* `signedInput`: the input of the signature
* `sign`, `SignedRequestHeaders`: signing, and what it returns

## Main results

* `sign_eq_ok`: the steps of a successful signing
* `SigningRun.signed`: it signs the request with its agent header as the core does
-/

namespace AgentSig.Profiles

open Commons Core StructuredFields

/-! ## The request -/

/-- The names of the fields that a signer writes. -/
def signatureNames : List Text := [ascii "signature", ascii "signature-input", signatureAgent]

/-- The loop of `snapshotUnsignedRequest` over the headers. -/
def snapshotHeaders (L : CoreLimits) : (total : ℕ) → List HeaderField → Except SigningFailure Unit
  | _, [] => return ()
  | total, field :: rest => do
    require (total + field.name.length ≤ L.get .maxMessageHeaderBytes) (.signing .resourceLimit)
    require (toLowerCase field.name ∉ signatureNames) (.signing .existingSignatureHeaders)
    let total := total + (field.name.length + field.value.length + 4)
    require (total ≤ L.get .maxMessageHeaderBytes) (.signing .resourceLimit)
    snapshotHeaders L total rest

/-- The error of a header that is not valid. -/
def headerFailure : CoreError → SigningFailure
  | .limit _ _ _ => .signing .resourceLimit
  | .signature .resourceLimit => .signing .resourceLimit
  | .signature _ => .signing .invalidRequest
  | .configuration => .other (.core .configuration)

/-- `snapshotUnsignedRequest`. -/
def snapshotUnsignedRequest (L : CoreLimits) (request : RequestParts) :
    Except SigningFailure RequestParts := do
  require (request.headers.length ≤ L.get .maxMessageHeaderBytes / 4) (.signing .resourceLimit)
  snapshotHeaders L 0 request.headers
  (validateHeaders L request.headers).mapError headerFailure
  require (request.targetUri.length ≤ L.get .maxTargetUriBytes ∧
    request.method.length ≤ L.get .maxSignatureBaseBytes) (.signing .resourceLimit)
  return request

/-! ## The providers -/

/-- `SigningTimestamps`. -/
structure SigningTimestamps where
  created : ℤ
  expires : ℤ
  deriving DecidableEq, Repr

/-- `readSigningTimestamps`. The sum is exact: the lifetime and the first timestamp are safe integers, and
a sum above the bound stays above it when it is rounded. -/
def readSigningTimestamps (A : Rounding) (clock : Sample) (lifetimeSeconds : ℕ) :
    Except SigningFailure SigningTimestamps := do
  require (0 < lifetimeSeconds ∧ lifetimeSeconds ≤ MAX_SF_INTEGER) (.signing .invalidSigningOptions)
  match clock with
  | none => throw (.signing .clockUnavailable)
  | some milliseconds => do
    require (0 ≤ milliseconds) (.signing .clockUnavailable)
    let created := ⌊A.round (milliseconds / 1000)⌋
    require (created ≤ MAX_SF_INTEGER ∧ created + lifetimeSeconds ≤ MAX_SF_INTEGER)
      (.signing .clockUnavailable)
    return ⟨created, created + lifetimeSeconds⟩

/-- `readSigningNonce`. A generator that throws or returns no string has none. -/
def readSigningNonce (generated : Option Text) (maximumBytes : ℕ) : Except SigningFailure Text := do
  require (1 ≤ maximumBytes ∧ maximumBytes ≤ maxSafeInteger) (.signing .invalidSigningOptions)
  match generated with
  | none => throw (.signing .nonceGenerationFailed)
  | some nonce => do
    require (isValidNonce nonce maximumBytes) (.signing .nonceGenerationFailed)
    return nonce

/-! ## Signing -/

/-- The parameters of a signature. -/
def signedParameters (times : SigningTimestamps) (keyid nonce : Text) : Parameters :=
  [(ascii "created", .integer (.integer times.created)),
    (ascii "expires", .integer (.integer times.expires)), (ascii "keyid", .string keyid),
    (ascii "alg", .string (ascii "ed25519")), (ascii "nonce", .string nonce), (ascii "tag", webBotAuth)]

/-- The input of a signature. -/
def signedInput (config : SigningConfiguration) (times : SigningTimestamps) (nonce : Text) :
    SignatureInput where
  label := config.label
  components := config.components
  parameters := signedParameters times config.keyid nonce

/-- `SignedRequestHeaders`. -/
structure SignedRequestHeaders where
  signatureInput : Text
  signature : Text
  signatureAgent : Text
  deriving DecidableEq, Repr

/-- The three fields. -/
def SignedRequestHeaders.fields (headers : SignedRequestHeaders) : List HeaderField :=
  [⟨ascii "Signature-Input", .text headers.signatureInput⟩,
    ⟨ascii "Signature", .text headers.signature⟩,
    ⟨ascii "Signature-Agent", .text headers.signatureAgent⟩]

/-- A request with more fields at its end. -/
def withFields (request : RequestParts) (fields : List HeaderField) : RequestParts :=
  { request with headers := request.headers ++ fields }

/-- The request that is signed: it has the agent header. -/
def withAgent (request : RequestParts) (agentHeader : Text) : RequestParts :=
  withFields request [⟨ascii "Signature-Agent", .text agentHeader⟩]

/-- The options under which the base is created. -/
def SigningConfiguration.options (config : SigningConfiguration) : CanonicalizationOptions :=
  ⟨config.fieldTypes.map fun e => (e.1, some e.2)⟩

/-- The text of a signature. -/
def unsignedSignature (config : SigningConfiguration) (bytes : List UInt8) : Except SigningFailure Text :=
  withProfile (withSf (serialize config.limits.structuredFields (signatureField config.label bytes)))

/-- The signature of some octets; what the host throws is not passed on. -/
def signBytes (B : SigningBackend) (bytes : List UInt8) (key : KeyObject) :
    Except SigningFailure (List UInt8) :=
  match B.sign bytes key with
  | none => throw (.signing .signingFailed)
  | some signature => do
    require (signature.length = 64) (.signing .signingFailed)
    return signature

/-- The part of `sign` that is tried. `clock` and `generated` are what the providers do. -/
def trySign (H : SignerHost) (A : Rounding) (config : SigningConfiguration) (request : RequestParts)
    (clock : Sample) (generated : Option Text) : Except SigningFailure SignedRequestHeaders := do
  let snapshot ← snapshotUnsignedRequest config.limits request
  let times ← readSigningTimestamps A clock config.lifetimeSeconds
  let nonce ← readSigningNonce generated config.profileLimits.maxNonceBytes
  let input := signedInput config times nonce
  let inner ← withProfile (withCore (signatureInnerList config.limits input))
  let signatureInput ← withProfile
    (withSf (serialize config.limits.structuredFields (inputField config.label inner)))
  let placeholder ← unsignedSignature config (List.replicate 64 0)
  withProfile (withCore (checkLimit config.limits .maxSignatureHeaderBytes
    (signatureInput.length + placeholder.length)))
  withProfile (withCore (validateHeaders config.limits
    (withFields snapshot (SignedRequestHeaders.fields
      ⟨signatureInput, placeholder, config.agentHeader⟩)).headers))
  let base ← withProfile (withCore (createSignatureBase H.platform config.limits config.options
    (.request (withAgent snapshot config.agentHeader)) input))
  let signature ← signBytes H.backend base.bytes config.privateKey
  let signature ← unsignedSignature config signature
  return ⟨signatureInput, signature, config.agentHeader⟩

/-- `sign`. -/
def sign (H : SignerHost) (A : Rounding) (config : SigningConfiguration) (request : RequestParts)
    (clock : Sample) (generated : Option Text) : Except SigningFailure SignedRequestHeaders :=
  (trySign H A config request clock generated).mapError signingFailure

/-! ## Successful signings -/

variable {H : SignerHost} {A : Rounding} {config : SigningConfiguration} {request : RequestParts}
  {clock : Sample} {generated : Option Text} {headers : SignedRequestHeaders} {L : CoreLimits}

theorem snapshotHeaders_eq_ok {total : ℕ} {fields : List HeaderField} {u : Unit}
    (h : snapshotHeaders L total fields = .ok u) :
    ∀ f ∈ fields, toLowerCase f.name ∉ signatureNames := by
  induction fields generalizing total with
  | nil => simp
  | cons f fields ih =>
    simp only [snapshotHeaders, bind_eq_ok, require_eq_ok, exists_const] at h
    obtain ⟨-, hname, -, h⟩ := h
    exact List.forall_mem_cons.mpr ⟨hname, ih h⟩

/-- A snapshot is the request, which has none of the fields that the signer writes. -/
theorem snapshotUnsignedRequest_eq_ok {snapshot : RequestParts}
    (h : snapshotUnsignedRequest L request = .ok snapshot) :
    snapshot = request ∧ (∀ f ∈ request.headers, toLowerCase f.name ∉ signatureNames) ∧
      request.headers.length ≤ L.get .maxMessageHeaderBytes / 4 ∧
      request.targetUri.length ≤ L.get .maxTargetUriBytes ∧
      request.method.length ≤ L.get .maxSignatureBaseBytes := by
  simp only [snapshotUnsignedRequest, bind_eq_ok, require_eq_ok, exists_const, pure_eq_ok] at h
  obtain ⟨hcount, _, hheaders, _, -, ⟨htarget, hmethod⟩, rfl⟩ := h
  exact ⟨rfl, snapshotHeaders_eq_ok hheaders, hcount, htarget, hmethod⟩

theorem readSigningTimestamps_eq_ok {lifetimeSeconds : ℕ} {times : SigningTimestamps}
    (h : readSigningTimestamps A clock lifetimeSeconds = .ok times) :
    ∃ milliseconds, clock = some milliseconds ∧ 0 ≤ milliseconds ∧
      times.created = ⌊A.round (milliseconds / 1000)⌋ ∧ 0 ≤ times.created ∧
      times.expires = times.created + lifetimeSeconds ∧ times.created < times.expires ∧
      times.expires ≤ MAX_SF_INTEGER := by
  simp only [readSigningTimestamps, bind_eq_ok, require_eq_ok, exists_const] at h
  obtain ⟨⟨hlifetime, -⟩, h⟩ := h
  cases clock with
  | none => cases h
  | some milliseconds =>
    simp only [bind_eq_ok, require_eq_ok, exists_const, pure_eq_ok] at h
    obtain ⟨hnonneg, ⟨-, hexpires⟩, rfl⟩ := h
    -- rounding is monotone, and keeps zero
    have hround : 0 ≤ A.round (milliseconds / 1000) := by
      have hzero := A.integer 0 (Nat.zero_le _)
      rw [Nat.cast_zero] at hzero
      rw [← hzero]
      exact A.monotone (by positivity)
    refine ⟨milliseconds, rfl, hnonneg, rfl, Int.floor_nonneg.mpr hround, rfl, ?_, hexpires⟩
    exact Int.lt_add_of_pos_right _ (by exact_mod_cast hlifetime)

theorem readSigningNonce_eq_ok {maximumBytes : ℕ} {nonce : Text} :
    readSigningNonce generated maximumBytes = .ok nonce ↔
      generated = some nonce ∧ isValidNonce nonce maximumBytes := by
  cases generated with
  | none => simp [readSigningNonce]
  | some nonce' =>
    simp only [readSigningNonce, bind_eq_ok, require_eq_ok, exists_const, pure_eq_ok,
      Option.some.injEq]
    constructor
    · rintro ⟨-, hvalid, rfl⟩
      exact ⟨rfl, hvalid⟩
    · rintro ⟨rfl, hvalid⟩
      have hbounds := hvalid
      simp only [isValidNonce, decide_eq_true_eq] at hbounds
      exact ⟨⟨by exact_mod_cast hbounds.1, by exact_mod_cast hbounds.2.1⟩, hvalid, rfl⟩

theorem signBytes_eq_ok {B : SigningBackend} {bytes signature : List UInt8} {key : KeyObject} :
    signBytes B bytes key = .ok signature ↔ B.sign bytes key = some signature ∧
      signature.length = 64 := by
  unfold signBytes
  split
  · rename_i hnone
    simp [hnone]
  · rename_i signature' hsome
    simp only [hsome, bind_eq_ok, require_eq_ok, exists_const, pure_eq_ok, Option.some.injEq]
    constructor
    · rintro ⟨hlength, rfl⟩
      exact ⟨rfl, hlength⟩
    · rintro ⟨rfl, hlength⟩
      exact ⟨hlength, rfl⟩

/-- The key of an entry that was written is a key. -/
theorem keyPattern_of_serialize {L : Limits} {e : Text × Member} {t : Text}
    (h : serialize L (.dictionary [e]) = .ok t) : Writer.keyPattern e.1 := by
  simp only [serialize, Writer.field, Writer.entriesLoop, Writer.entry, Writer.key, bind_eq_ok,
    require_eq_ok, exists_const] at h
  obtain ⟨_, ⟨_, -, _, ⟨_, -, hpattern, -⟩, -⟩, -⟩ := h
  exact hpattern

/-- The text of a signature has a length that depends on that of the signature only. -/
theorem length_signatureText {L : Limits} {label : Text} {bytes bytes' : List UInt8} {t t' : Text}
    (h : serialize L (signatureField label bytes) = .ok t)
    (h' : serialize L (signatureField label bytes') = .ok t') (hlength : bytes.length = bytes'.length) :
    t.length = t'.length := by
  have hpattern : Writer.keyPattern label := by
    apply keyPattern_of_serialize (e := (label, .item ⟨.bytes bytes, []⟩))
    exact h
  have hserializable (bs : List UInt8) : (signatureField label bs).Serializable := by
    refine ⟨List.nodup_singleton _, ?_⟩
    intro e he
    obtain rfl := List.mem_singleton.mp he
    refine ⟨hpattern, trivial, List.nodup_nil, ?_⟩
    intro p hp
    cases hp
  have htext (bs : List UInt8) : (signatureField label bs).text.length =
      label.length + 4 * ((bs.length + 2) / 3) + 3 := by
    simp [signatureField, Field.text, separatedText, entryText, Member.text, Item.text, BareItem.text,
      parametersText, Base64.length_padded]
    omega
  rw [(text_of_serialize (hserializable _) h).1, (text_of_serialize (hserializable _) h').1, htext,
    htext, hlength]

/-- What a successful signing has done. -/
structure SigningRun (H : SignerHost) (A : Rounding) (config : SigningConfiguration)
    (request : RequestParts) (clock : Sample) (times : SigningTimestamps) (nonce : Text)
    (base : SignatureBase) (signature : List UInt8) (headers : SignedRequestHeaders) : Prop where
  unsigned : ∀ f ∈ request.headers, toLowerCase f.name ∉ signatureNames
  size : request.headers.length ≤ config.limits.get .maxMessageHeaderBytes / 4 ∧
    request.targetUri.length ≤ config.limits.get .maxTargetUriBytes ∧
    request.method.length ≤ config.limits.get .maxSignatureBaseBytes
  stamped : readSigningTimestamps A clock config.lifetimeSeconds = .ok times
  fresh : isValidNonce nonce config.profileLimits.maxNonceBytes
  inner : signatureInnerList config.limits (signedInput config times nonce) =
    .ok (signedInput config times nonce).innerList
  inputText : serialize config.limits.structuredFields
    (inputField config.label (signedInput config times nonce).innerList) = .ok headers.signatureInput
  created : createSignatureBase H.platform config.limits config.options
    (.request (withAgent request config.agentHeader)) (signedInput config times nonce) = .ok base
  signed : H.backend.sign base.bytes config.privateKey = some signature ∧ signature.length = 64
  signatureText : serialize config.limits.structuredFields (signatureField config.label signature) =
    .ok headers.signature
  agent : headers.signatureAgent = config.agentHeader
  length : headers.signatureInput.length + headers.signature.length ≤
    config.limits.get .maxSignatureHeaderBytes
  header : headerBytes (withFields request headers.fields).headers ≤
    config.limits.get .maxMessageHeaderBytes
  valid : ∀ f ∈ (withAgent request config.agentHeader).headers, f.Valid

theorem headerBytes_append (before after : List HeaderField) :
    headerBytes (before ++ after) = headerBytes before + headerBytes after := by
  simp [headerBytes]

/-- The size of the three fields depends on the lengths of their values. -/
theorem headerBytes_fields {other : SignedRequestHeaders}
    (hinput : headers.signatureInput.length = other.signatureInput.length)
    (hsignature : headers.signature.length = other.signature.length)
    (hagent : headers.signatureAgent.length = other.signatureAgent.length) :
    headerBytes headers.fields = headerBytes other.fields := by
  simp only [headerBytes, SignedRequestHeaders.fields, List.map_cons, HeaderValue.length]
  rw [hinput, hsignature, hagent]

/-- The steps of a successful signing. What was checked for the placeholder holds of the signature, which
has the same length. -/
theorem sign_eq_ok (h : sign H A config request clock generated = .ok headers) :
    ∃ times nonce base signature, generated = some nonce ∧
      SigningRun H A config request clock times nonce base signature headers := by
  simp only [sign, mapError_eq_ok, trySign, unsignedSignature, bind_eq_ok, withProfile_eq_ok,
    withCore_eq_ok, withSf_eq_ok, readSigningNonce_eq_ok, checkLimit_eq_ok, signBytes_eq_ok,
    exists_const, pure_eq_ok, validateHeaders_eq_ok] at h
  obtain ⟨snapshot, hsnapshot, times, htimes, nonce, ⟨hgenerated, hnonce⟩, inner, hinner, text, htext,
    placeholder, hplaceholder, hlength, ⟨hheader, hvalid⟩, base, hbase, signature, hsigned, text', htext',
    rfl⟩ := h
  obtain rfl := signatureInnerList_value hinner
  obtain ⟨rfl, hunsigned, hsize⟩ := snapshotUnsignedRequest_eq_ok hsnapshot
  have heq : text'.length = placeholder.length :=
    length_signatureText htext' hplaceholder (hsigned.2.trans List.length_replicate.symm)
  refine ⟨times, nonce, base, signature, hgenerated, hunsigned, hsize, htimes, hnonce, hinner, htext,
    hbase, hsigned, htext', rfl, ?_, ?_, ?_⟩
  · rw [heq]
    exact hlength
  · have hfields : headerBytes (SignedRequestHeaders.fields ⟨text, text', config.agentHeader⟩) =
        headerBytes (SignedRequestHeaders.fields ⟨text, placeholder, config.agentHeader⟩) :=
      headerBytes_fields rfl heq rfl
    rw [withFields, headerBytes_append] at hheader ⊢
    rw [hfields]
    exact hheader
  · intro f hf
    apply hvalid
    rcases List.mem_append.mp hf with hf | hf
    · exact List.mem_append_left _ hf
    · exact List.mem_append_right _ (List.mem_cons_of_mem _ (List.mem_cons_of_mem _ hf))

end AgentSig.Profiles
