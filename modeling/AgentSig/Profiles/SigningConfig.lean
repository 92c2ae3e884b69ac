import AgentSig.Profiles.CandidateEvaluation
import AgentSig.Profiles.LoadJwks

/-!
# The configuration of a signer

A signer is configured once: its limits and its time policy, the profile, the label, the key and its
thumbprint, the origin that it claims, and the components that it covers. The configured components are
written and read back, so that a signer owns what it covers.

## Main definitions

* `SigningErrorCode`, `SigningFailure`, `signingFailure`: what signing throws
* `SignerHost`: what the host provides
* `SigningOptions`, `SigningConfiguration`, `resolveSigningConfiguration`: the configuration

## Main results

* `resolveSigningConfiguration_eq_ok`: what an accepted configuration has been checked for
-/

namespace AgentSig.Profiles

open Commons Core StructuredFields

/-- `SIGNING_ERROR_CODES`. -/
inductive SigningErrorCode
  | existingSignatureHeaders
  | invalidSigningKey
  | testKeyDisallowed
  | invalidAgentOrigin
  | invalidLabel
  | unsupportedProfile
  | unsupportedComponent
  | invalidRequest
  | invalidSigningOptions
  | clockUnavailable
  | nonceGenerationFailed
  | resourceLimit
  | signingFailed
  deriving DecidableEq, Repr

/-- What signing throws: a `SigningError`, or what other operations throw. -/
inductive SigningFailure
  | signing (code : SigningErrorCode)
  | other (error : ProfileError)
  deriving DecidableEq, Repr

/-- `signingFailure`. -/
def signingFailure : SigningFailure → SigningFailure
  | .other (.support _) => .signing .unsupportedComponent
  | .other (.configuration _) => .signing .invalidSigningOptions
  | .other (.core .configuration) => .signing .invalidSigningOptions
  | .other (.core (.limit _ _ _)) => .signing .resourceLimit
  | .other (.core (.signature .resourceLimit)) => .signing .resourceLimit
  | .other (.core (.signature .unsupported)) => .signing .unsupportedComponent
  | .other (.core (.signature _)) => .signing .invalidRequest
  | e => e

/-- An operation of the profile within signing. -/
def withProfile {α : Type} (x : Except ProfileError α) : Except SigningFailure α := x.mapError .other

@[simp] theorem withProfile_eq_ok {α : Type} {x : Except ProfileError α} {a : α} :
    withProfile x = .ok a ↔ x = .ok a := mapError_eq_ok

/-- What the host provides to a signer and to a verifier: Ed25519, URLs, key sets with SHA-256,
`createPublicKey(key).export({ format: "jwk" })` as the octets of `x`, which may throw, and whether a
string is its own `toLowerCase()`. -/
structure SignerHost where
  backend : SigningBackend
  platform : Platform
  origins : OriginPlatform
  jwks : JwksHost
  publicOctets : KeyObject → Option (List UInt8)
  lowerCase : Text → Bool

/-- `SigningOptions`, besides the clock and the nonce generator. A key that is no key object, an origin
that is no string, and a field type that is none of the three are none. -/
structure SigningOptions where
  privateKey : Option KeyObject
  agentOrigin : Option Text
  profile : Option Text
  label : Option Text
  allowTestKeys : Bool
  timePolicy : TimePolicyOverrides
  limits : ProfileLimitOverrides
  coreLimits : LimitOverrides
  additionalComponents : Option (List CoveredComponent)
  structuredFieldTypes : List (Text × Option FieldType)

/-- `SigningConfiguration`, besides the clock and the nonce generator. -/
structure SigningConfiguration where
  privateKey : KeyObject
  keyid : Text
  profile : WebBotAuthProfile
  label : Text
  agentHeader : Text
  components : List CoveredComponent
  fieldTypes : List (Text × FieldType)
  limits : CoreLimits
  profileLimits : ProfileLimits
  lifetimeSeconds : ℕ

/-! ## The parts of a configuration -/

/-- The profile of the options; the first is the default. -/
def signingProfile (profile : Option Text) : Except SigningFailure WebBotAuthProfile :=
  match profile with
  | none => return .ietfWgProtocol00
  | some name =>
    if name = ascii WebBotAuthProfile.ietfWgProtocol00.text then return .ietfWgProtocol00
    else if name = ascii WebBotAuthProfile.cloudflareDocs20260701.text then
      return .cloudflareDocs20260701
    else throw (.signing .unsupportedProfile)

/-- A dictionary of one Boolean, with which a label is tried. -/
def labelField (label : Text) : Field := .dictionary [(label, .item ⟨.boolean true, []⟩)]

/-- The label of the options, tried with the serializer. -/
def signingLabel (limits : CoreLimits) (label : Option Text) : Except SigningFailure Text := do
  let label := label.getD (ascii "sig1")
  require (label.length ≤ limits.structuredFields.get .maxKeyLength) (.signing .resourceLimit)
  match withSfErrors (serialize limits.structuredFields (labelField label)) with
  | .ok _ => return label
  | .error (.signature .malformed) => throw (.signing .invalidLabel)
  | .error e => throw (.other (.core e))

/-- The private key of the options. -/
def signingKey (privateKey : Option KeyObject) : Except SigningFailure KeyObject :=
  match privateKey with
  | none => throw (.signing .invalidSigningKey)
  | some key => do
    require (key.type = .privateKey ∧ key.asymmetricKeyType = some (ascii "ed25519"))
      (.signing .invalidSigningKey)
    return key

/-- The octets of the public key of a private key. -/
def exportedOctets (H : SignerHost) (key : KeyObject) : Except SigningFailure (List UInt8) :=
  match H.publicOctets key with
  | none => throw (.signing .invalidSigningKey)
  | some octets => return octets

/-- The error of an origin. -/
def originFailure (e : ProfileError) : SigningFailure :=
  match e.rejection? with
  | some (.unverified .resourceLimit) => .signing .resourceLimit
  | some _ => .signing .invalidAgentOrigin
  | none => .other e

/-- The origin of the options. -/
def signingOrigin (O : OriginPlatform) (agentOrigin : Option Text) (maximumBytes : ℤ) :
    Except SigningFailure Text :=
  match agentOrigin with
  | none => throw (.signing .invalidAgentOrigin)
  | some value => (canonicalAgentOrigin O value maximumBytes).mapError originFailure

/-- The item of an origin. -/
def agentItem (origin : Text) : Item := ⟨.string origin, []⟩

/-- The agent header of a profile: an item, or a dictionary with the label. -/
def agentField (profile : WebBotAuthProfile) (label origin : Text) : Field :=
  match profile with
  | .ietfWgProtocol00 => .dictionary [(label, .item (agentItem origin))]
  | .cloudflareDocs20260701 => .item (agentItem origin)

/-- The component that covers the agent header of a profile. -/
def agentComponent (profile : WebBotAuthProfile) (label : Text) : CoveredComponent where
  name := signatureAgent
  parameters := match profile with
    | .ietfWgProtocol00 => [(ascii "key", .string label)]
    | .cloudflareDocs20260701 => []

/-- The components that every signature covers. -/
def requiredComponents (profile : WebBotAuthProfile) (label : Text) : List CoveredComponent :=
  [⟨ascii "@method", []⟩, ⟨ascii "@target-uri", []⟩, agentComponent profile label]

/-- The components of the options. -/
def signingComponents (limits : CoreLimits) (profile : WebBotAuthProfile) (label : Text)
    (additionalComponents : Option (List CoveredComponent)) :
    Except SigningFailure (List CoveredComponent) :=
  let components := requiredComponents profile label
  match additionalComponents with
  | none => return components
  | some extras => do
    require (components.length + extras.length ≤ limits.get .maxComponentsPerSignature)
      (.signing .resourceLimit)
    return components ++ extras

/-- A component of the list that was read back. -/
def ownedComponent (item : Item) : Except SigningFailure CoveredComponent :=
  match item.bare with
  | .string name => return ⟨name, item.parameters⟩
  | _ => throw (.other (.internal "Internal component name invariant"))

/-- The components of the dictionary that was read back. -/
def ownedComponents (parsed : Field) : Except SigningFailure (List CoveredComponent) :=
  match parsed with
  | .dictionary ((_, .innerList inner) :: _) => inner.items.mapM ownedComponent
  | _ => throw (.other (.internal "Internal signing component invariant"))

/-- The components that a signer owns: the configured ones, written and read back. -/
def readBack (limits : CoreLimits) (label : Text) (components : List CoveredComponent) :
    Except SigningFailure (List CoveredComponent) := do
  let inner ← withProfile (withCore (signatureInnerList limits ⟨label, components, []⟩))
  let canonical ← withProfile (withSf (serialize limits.structuredFields (inputField label inner)))
  let parsed ← withProfile (withSf (parse limits.structuredFields (.text canonical) .dictionary))
  ownedComponents parsed

/-- One field type of the options. -/
def signingFieldType (H : SignerHost) (entry : Text × Option FieldType) :
    Except SigningFailure (Text × FieldType) :=
  match entry.2 with
  | some type => do
    require (H.lowerCase entry.1) (.signing .invalidSigningOptions)
    return (entry.1, type)
  | none => throw (.signing .invalidSigningOptions)

/-- The field types of the options, with that of the agent header. -/
def signingFieldTypes (H : SignerHost) (profile : WebBotAuthProfile)
    (structuredFieldTypes : List (Text × Option FieldType)) :
    Except SigningFailure (List (Text × FieldType)) := do
  let types ← structuredFieldTypes.mapM (signingFieldType H)
  require (∀ type ∈ OrderedMap.lookup types signatureAgent, type = agentFieldType profile)
    (.signing .invalidSigningOptions)
  return OrderedMap.set types signatureAgent (agentFieldType profile)

/-! ## The configuration -/

/-- The part of `resolveSigningConfiguration` that is tried. -/
def tryConfiguration (H : SignerHost) (options : SigningOptions) :
    Except SigningFailure SigningConfiguration := do
  let limits ← withProfile (withCore (resolveCoreLimits options.coreLimits))
  let profileLimits ← withProfile (resolveProfileLimits options.limits)
  let time ← withProfile (resolveTimePolicy options.timePolicy)
  let profile ← signingProfile options.profile
  let label ← signingLabel limits options.label
  let privateKey ← signingKey options.privateKey
  let octets ← exportedOctets H privateKey
  let keyid ← withProfile (ed25519Thumbprint H.jwks octets)
  require (isKnownTestKey keyid → options.allowTestKeys) (.signing .testKeyDisallowed)
  let origin ← signingOrigin H.origins options.agentOrigin profileLimits.maxAgentUrlBytes
  let agentHeader ← withProfile
    (withSf (serialize limits.structuredFields (agentField profile label origin)))
  let components ← signingComponents limits profile label options.additionalComponents
  let components ← readBack limits label components
  withProfile (assertSupportedComponents ⟨label, components, []⟩ profile)
  let fieldTypes ← signingFieldTypes H profile options.structuredFieldTypes
  return {
    privateKey, keyid, profile, label, agentHeader, components, fieldTypes, limits, profileLimits
    lifetimeSeconds := time.signingLifetimeSeconds }

/-- `resolveSigningConfiguration`. -/
def resolveSigningConfiguration (H : SignerHost) (options : SigningOptions) :
    Except SigningFailure SigningConfiguration :=
  (tryConfiguration H options).mapError signingFailure

/-! ## Accepted configurations -/

/-- A component as it is read back. -/
def ownedCopy (component : CoveredComponent) : CoveredComponent :=
  ⟨component.name, canonicalParameters component.parameters⟩

variable {H : SignerHost} {limits : CoreLimits} {label : Text} {profile : WebBotAuthProfile}
  {components owned : List CoveredComponent}

theorem mapM_ownedComponent (components : List CoveredComponent) :
    (components.map fun c => (CoveredComponent.item c).canonical).mapM ownedComponent =
      .ok (components.map ownedCopy) := by
  induction components with
  | nil => rfl
  | cons c components ih =>
    rw [List.map_cons, List.mapM_cons, ih]
    rfl

/-- The components that were written are those that are read back. -/
theorem readBack_eq_ok (h : readBack limits label components = .ok owned) :
    owned = components.map ownedCopy := by
  simp only [readBack, bind_eq_ok, withProfile_eq_ok, withCore_eq_ok, withSf_eq_ok] at h
  obtain ⟨inner, hinner, text, htext, parsed, hparsed, howned⟩ := h
  obtain rfl := signatureInnerList_value hinner
  obtain ⟨hwithin, hread⟩ := parse_serialize _ _ _ htext
  obtain ⟨_, -, -, hlength, -⟩ := parse_sound hparsed
  obtain rfl := Except.ok.inj (hparsed.symm.trans (hread _ hwithin hlength))
  have hitems : (SignatureInput.innerList ⟨label, components, []⟩).canonical.items =
      components.map fun c => (CoveredComponent.item c).canonical := List.map_map
  simp only [inputField, Field.canonical, List.map_cons, Member.canonical, ownedComponents] at howned
  rw [hitems, mapM_ownedComponent] at howned
  exact (Except.ok.inj howned).symm

/-- The required components are configured, whatever else is. -/
theorem signingComponents_eq_ok {extras : Option (List CoveredComponent)}
    (h : signingComponents limits profile label extras = .ok components) :
    components = requiredComponents profile label ++ extras.getD [] := by
  cases extras with
  | none =>
    obtain rfl := pure_eq_ok.mp h
    rw [Option.getD_none, List.append_nil]
  | some extras =>
    simp only [signingComponents, bind_eq_ok, pure_eq_ok] at h
    obtain ⟨_, -, rfl⟩ := h
    rfl

theorem ownedCopy_of_required {c : CoveredComponent} (h : c ∈ requiredComponents profile label) :
    ownedCopy c = c := by
  simp only [requiredComponents, List.mem_cons, List.not_mem_nil, or_false] at h
  rcases h with rfl | rfl | rfl
  · rfl
  · rfl
  · cases profile <;> rfl

/-- What an accepted configuration has been checked for. -/
structure SigningConfiguration.Accepted (H : SignerHost) (config : SigningConfiguration)
    (options : SigningOptions) (octets : List UInt8) (origin : Text) : Prop where
  key : config.privateKey.type = .privateKey ∧
    config.privateKey.asymmetricKeyType = some (ascii "ed25519")
  exported : H.publicOctets config.privateKey = some octets
  keyid : ed25519Thumbprint H.jwks octets = .ok config.keyid
  testKey : isKnownTestKey config.keyid → options.allowTestKeys
  claimed : ∃ value ∈ options.agentOrigin,
    canonicalAgentOrigin H.origins value config.profileLimits.maxAgentUrlBytes = .ok origin
  agentHeader : serialize config.limits.structuredFields
    (agentField config.profile config.label origin) = .ok config.agentHeader
  components : config.components = requiredComponents config.profile config.label ++
    (options.additionalComponents.getD []).map ownedCopy
  supported : assertSupportedComponents ⟨config.label, config.components, []⟩ config.profile = .ok ()
  agentType : OrderedMap.lookup config.fieldTypes signatureAgent = some (agentFieldType config.profile)

theorem signingKey_eq_ok {privateKey : Option KeyObject} {key : KeyObject} :
    signingKey privateKey = .ok key ↔ privateKey = some key ∧ key.type = .privateKey ∧
      key.asymmetricKeyType = some (ascii "ed25519") := by
  cases privateKey with
  | none => simp [signingKey]
  | some key' =>
    simp only [signingKey, bind_eq_ok, require_eq_ok, exists_const, pure_eq_ok, Option.some.injEq]
    constructor
    · rintro ⟨h, rfl⟩
      exact ⟨rfl, h⟩
    · rintro ⟨rfl, h⟩
      exact ⟨h, rfl⟩

theorem exportedOctets_eq_ok {key : KeyObject} {octets : List UInt8} :
    exportedOctets H key = .ok octets ↔ H.publicOctets key = some octets := by
  unfold exportedOctets
  split <;> simp_all

theorem signingOrigin_eq_ok {O : OriginPlatform} {agentOrigin : Option Text} {maximumBytes : ℤ}
    {origin : Text} : signingOrigin O agentOrigin maximumBytes = .ok origin ↔
      ∃ value ∈ agentOrigin, canonicalAgentOrigin O value maximumBytes = .ok origin := by
  cases agentOrigin with
  | none => simp [signingOrigin]
  | some value => simp [signingOrigin, mapError_eq_ok]

/-- What an accepted configuration has been checked for. -/
theorem resolveSigningConfiguration_eq_ok {options : SigningOptions} {config : SigningConfiguration}
    (h : resolveSigningConfiguration H options = .ok config) :
    ∃ octets origin, config.Accepted H options octets origin := by
  simp only [resolveSigningConfiguration, mapError_eq_ok, tryConfiguration, bind_eq_ok,
    withProfile_eq_ok, withCore_eq_ok, withSf_eq_ok, require_eq_ok, exists_const, signingKey_eq_ok,
    exportedOctets_eq_ok, signingOrigin_eq_ok, pure_eq_ok] at h
  obtain ⟨limits, -, profileLimits, -, time, -, profile, -, label, -, key, ⟨-, hkey⟩, octets, hoctets,
    keyid, hkeyid, htest, origin, horigin, header, hheader, components, hcomponents, owned, howned, _,
    hsupported, types, htypes, rfl⟩ := h
  refine ⟨octets, origin, hkey, hoctets, hkeyid, htest, horigin, hheader, ?_, hsupported, ?_⟩
  · have hrequired : (requiredComponents profile label).map ownedCopy =
        requiredComponents profile label := by
      rw [List.map_congr_left fun c hc => ownedCopy_of_required hc, List.map_id']
    rw [readBack_eq_ok howned, signingComponents_eq_ok hcomponents, List.map_append, hrequired]
  · simp only [signingFieldTypes, bind_eq_ok, pure_eq_ok] at htypes
    obtain ⟨_, -, _, -, rfl⟩ := htypes
    rw [OrderedMap.lookup_set, if_pos rfl]

end AgentSig.Profiles
