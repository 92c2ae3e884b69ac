import AgentSig.Profiles.KeySets
import AgentSig.Profiles.SignedRequests

/-!
# Signed requests are verified

A verifier that is prepared for a signer evaluates the request that was signed: it reads the claim and the
metadata that the signer wrote, finds the key of the signer under its thumbprint, computes the base that was
signed, and accepts the signature. The candidate is eligible exactly in the seconds that its timestamps and
the time policy of the verifier allow.

## Main definitions

* `SignerHost.Lawful`: what a host is relied on for
* `PreparedFor`: the configuration of a verifier that is prepared for a signer
* `signedMetadata`, `signedCandidate`: what the verifier finds out

## Main results

* `SigningRun.base`: the base of a signed request is the text that was signed
* `accepts_signed`: the seconds in which a signature is acceptable
* `sign_roundTrip`: **a signed request is verified**
-/

namespace AgentSig.Profiles

open Commons Core Redis StructuredFields
open Base64 (Canonical)

/-- What a host is relied on for: its URL parser reads back the origins that it has accepted, digests have
32 octets, and the exported octets of a private key are those of its public key. -/
structure SignerHost.Lawful (H : SignerHost) : Prop where
  origins : H.origins.Consistent
  digest : ∀ bytes, (H.jwks.sha256 bytes).length = 32
  pair : ∀ key octets, H.publicOctets key = some octets → KeyPair H.backend key (publicKeyObject octets)

/-- A verifier that is prepared for a signer with an origin. -/
structure VerificationConfiguration.PreparedFor (V : VerificationConfiguration) (H : SignerHost)
    (config : SigningConfiguration) (origin : Text) : Prop where
  allowed : config.profile ∈ V.allowedProfiles
  types : ∀ c ∈ config.components, c.name ≠ signatureAgent →
    fieldType c.name ⟨V.evaluation.fieldTypes⟩ = fieldType c.name config.options
  key : ∃ key, V.jwks.lookup config.keyid = .found key ∧
    H.publicOctets config.privateKey = some key.publicKey ∧ (key.knownTestKey → V.allowTestKeys)
  bound : V.requireBinding → ⟨config.keyid, origin⟩ ∈ V.bindings
  lifetime : config.lifetimeSeconds ≤ (V.profiles config.profile).time.maxLifetimeSeconds ∧
    config.lifetimeSeconds ≤ (V.profiles config.profile).time.maxAgeSeconds
  candidates : 1 ≤ V.limits.maxCandidates ∧ V.limits.maxCandidates ≤ maxSafeInteger
  nonces : config.profileLimits.maxNonceBytes ≤ V.limits.maxNonceBytes ∧
    V.limits.maxNonceBytes ≤ maxSafeInteger
  urls : origin.length ≤ V.limits.maxAgentUrlBytes ∧ V.limits.maxAgentUrlBytes ≤ maxSafeInteger

/-- The metadata of a signature that was made. -/
def signedMetadata (config : SigningConfiguration) (times : SigningTimestamps) (nonce : Text) :
    CandidateMetadata where
  created := .integer times.created
  expires := .integer times.expires
  keyid := config.keyid
  algorithm := some (ascii "ed25519")
  nonce := some nonce

/-- The claim of a signer. -/
def signedClaim (config : SigningConfiguration) (origin : Text) : AgentClaim :=
  ⟨config.profile, config.label, origin, origin⟩

/-- The candidate that a verifier finds in a signed request. -/
def signedCandidate (V : VerificationConfiguration) (config : SigningConfiguration)
    (times : SigningTimestamps) (nonce origin : Text) (signature : List UInt8) : EligibleCandidate :=
  eligibleCandidate V.engine config.profile ⟨signedInput config times nonce, signature⟩
    ⟨signedMetadata config times nonce, config.keyid, origin⟩

variable {H : SignerHost} {A : Rounding} {V : VerificationConfiguration} {config : SigningConfiguration}
  {options : SigningOptions} {request : RequestParts} {clock : Sample} {headers : SignedRequestHeaders}
  {times : SigningTimestamps} {nonce origin : Text} {base : SignatureBase} {signature : List UInt8}
  {octets : List UInt8} {M : CoreLimits}

/-! ## The claim and the metadata -/

/-- The claim of a signer is read back. -/
theorem resolveAgentClaim_signed (hconfig : config.Accepted H options octets origin)
    (hO : H.origins.Consistent) (hprepared : V.PreparedFor H config origin) :
    resolveAgentClaim H.origins (signedAgent config.profile config.label origin) config.label
      V.limits.maxAgentUrlBytes = .ok (signedClaim config origin) := by
  obtain ⟨value, -, hvalue⟩ := hconfig.claimed
  have horigin := (origin_spelled hvalue).2 V.limits.maxAgentUrlBytes hO hprepared.urls.1 hprepared.urls.2
  have hselect : selectAgent (signedAgent config.profile config.label origin) config.label =
      .ok (agentItem origin) := by
    cases config.profile with
    | ietfWgProtocol00 =>
      have hmember : getMember [(config.label, .item (agentItem origin))] config.label =
          some (.item (agentItem origin)) := by
        simp [getMember, OrderedMap.lookup_cons]
      simp only [selectAgent, signedAgent, hmember]
      rfl
    | cloudflareDocs20260701 => rfl
  simp only [resolveAgentClaim, hselect, ok_bind, agentItem, horigin, signedAgent_profile]
  rfl

/-- A signer covers what every candidate has to cover. -/
theorem assertRequiredCoverage_signed (hconfig : config.Accepted H options octets origin) :
    assertRequiredCoverage (signedInput config times nonce) config.profile = .ok () := by
  have hagent : coversAgent config.profile config.label (agentComponent config.profile config.label) := by
    cases config.profile with
    | ietfWgProtocol00 =>
      simp [coversAgent, agentComponent, matchingAgentMember, matchingParameters]
    | cloudflareDocs20260701 => exact bareComponent_iff.mpr rfl
  have hany {p : CoveredComponent → Bool} {c : CoveredComponent}
      (hc : c ∈ requiredComponents config.profile config.label) (hp : p c) :
      (signedInput config times nonce).components.any p := by
    rw [signedInput, hconfig.components]
    exact List.any_eq_true.mpr ⟨c, List.mem_append_left _ hc, hp⟩
  apply require_of
  refine ⟨hany (c := ⟨ascii "@method", []⟩) ?_ ?_, hany (c := ⟨ascii "@target-uri", []⟩) ?_ ?_,
    hany (c := agentComponent config.profile config.label) ?_ hagent⟩
  · simp [requiredComponents]
  · exact bareComponent_iff.mpr rfl
  · simp [requiredComponents]
  · exact bareComponent_iff.mpr rfl
  · simp [requiredComponents]

/-- The metadata of a signature are read back. -/
theorem readCandidateMetadata_signed (times : SigningTimestamps) (policy : NoncePolicy) {maximum : ℕ}
    (hkeyid : Canonical 32 config.keyid) (hmaximum : maximum ≤ maxSafeInteger)
    (hnonce : isValidNonce nonce maximum) :
    readCandidateMetadata (signedInput config times nonce).parameters policy maximum =
      .ok (signedMetadata config times nonce) := by
  simp only [readCandidateMetadata, bind_eq_ok, require_eq_ok, exists_const]
  refine ⟨⟨Int.natCast_nonneg _, by exact_mod_cast hmaximum⟩, _, rfl, _, rfl, _, rfl, _, rfl, _, rfl,
    _, rfl, _, validateProfileKeyId_eq_ok.mpr ⟨hkeyid, rfl⟩, _, rfl, _, rfl, by simp, ?_, rfl⟩
  rintro value ⟨⟩
  exact hnonce

/-- A nonce that is valid under a limit is valid under a larger one. -/
theorem isValidNonce_mono {maximum larger : ℕ} (h : isValidNonce nonce maximum) (hle : maximum ≤ larger)
    (hsafe : larger ≤ maxSafeInteger) : isValidNonce nonce larger := by
  simp only [isValidNonce, decide_eq_true_eq] at h ⊢
  obtain ⟨hpositive, -, hne, hlength, hcharacters⟩ := h
  have hle : (maximum : ℤ) ≤ larger := by exact_mod_cast hle
  exact ⟨hpositive.trans hle, by exact_mod_cast hsafe, hne, hlength.trans hle, hcharacters⟩

/-- The identifier of a key is the text of 32 octets. -/
theorem keyid_canonical (hconfig : config.Accepted H options octets origin) (hlawful : H.Lawful) :
    Canonical 32 config.keyid := by
  obtain ⟨-, hkeyid⟩ := ed25519Thumbprint_eq_ok.mp hconfig.keyid
  rw [hkeyid]
  exact ⟨_, hlawful.digest _, rfl⟩

/-! ## The base -/

/-- A signer covers neither field of a signature. -/
theorem components_foreign (hconfig : config.Accepted H options octets origin) :
    Foreign config.components := by
  have hsupported := hconfig.supported
  simp only [assertSupportedComponents, bind_eq_ok, forM_eq_ok] at hsupported
  obtain ⟨_, hcheck, -⟩ := hsupported
  intro c hc
  obtain ⟨hsignature, hinput⟩ := require_eq_ok.mp (hcheck c hc)
  exact ⟨hinput, hsignature⟩

/-- The request that was signed and the signed request have the same lines of every covered field. -/
theorem coveredAlike_signed {components : List CoveredComponent} (h : Foreign components)
    (request : RequestParts) (headers : SignedRequestHeaders) :
    CoveredAlike components (.request (withAgent request headers.signatureAgent))
      (.request (withFields request headers.fields)) := by
  refine .request ⟨_, rfl, ?_⟩
  intro c hc
  obtain ⟨hinput, hsignature⟩ := h c hc
  obtain ⟨hname, hname', -⟩ := signatureNames_spelled
  have hfields : spelledValues headers.fields c.name =
      spelledValues [⟨ascii "Signature-Agent", .text headers.signatureAgent⟩] c.name := by
    simp only [spelledValues, SignedRequestHeaders.fields, List.filter_cons, hname, hname',
      hinput.symm, hsignature.symm, decide_false, if_neg Bool.false_ne_true]
  simp only [withAgent, withFields, spelledValues_append, hfields]

/-- A verifier that is prepared gives every covered field the type that the signer gave it. -/
theorem sameTypes_signed (hconfig : config.Accepted H options octets origin)
    (hprepared : V.PreparedFor H config origin) :
    SameTypes config.components config.options (evaluationOptions V.evaluation config.profile) := by
  intro c hc
  by_cases hname : c.name = signatureAgent
  · have hlookup : OrderedMap.lookup config.options.structuredFieldTypes signatureAgent =
        some (some (agentFieldType config.profile)) := by
      have hfind := hconfig.agentType
      simp only [OrderedMap.lookup, SigningConfiguration.options, List.find?_map, Option.map_map] at hfind ⊢
      obtain ⟨e, he, htype⟩ := Option.map_eq_some_iff.mp hfind
      exact Option.map_eq_some_iff.mpr ⟨e, he, congrArg (fun t => some t) htype⟩
    rw [hname, fieldType, fieldType, lookup_evaluationOptions, hlookup]
  · rw [← hprepared.types c hc hname, fieldType, fieldType, evaluationOptions, OrderedMap.lookup_set,
      if_neg (Ne.symm hname)]

/-- **The base of a signed request** is the text that was signed. -/
theorem SigningRun.base_eq
    (hrun : SigningRun H A config request clock times nonce base signature headers)
    (hconfig : config.Accepted H options octets origin) (hprepared : V.PreparedFor H config origin)
    (hread : Readable V.coreLimits config request headers) :
    createSignatureBase H.platform V.coreLimits (evaluationOptions V.evaluation config.profile)
      (.request (withFields request headers.fields)) (signedInput config times nonce) = .ok base := by
  have halike := coveredAlike_signed (components_foreign hconfig) request headers
  rw [hrun.agent] at halike
  have hvalid : validateSections V.coreLimits (.request (withFields request headers.fields)) = .ok () := by
    simp only [validateSections, HttpMessage.headers, hrun.validateHeaders hconfig hread, ok_bind]
    rfl
  apply createSignatureBase_of_alike halike hvalid
  rw [createSignatureBase_types (sameTypes_signed hconfig hprepared)]
  exact (createSignatureBase_narrows hread.below _).ok hrun.created

/-! ## The evaluation -/

theorem requireAlgorithm_signed :
    requireAlgorithm (signedInput config times nonce) = .ok () := by
  rw [requireAlgorithm_eq_ok]
  rintro algorithm ⟨⟩
  rfl

/-- The identity that is proposed for a key and an origin. -/
def signedIdentity (V : VerificationConfiguration) (keyid origin : Text) : LocalIdentityProposal :=
  if V.requireBinding then
    .directoryUrl keyid origin (origin ++ ascii "/.well-known/" ++ ascii "http-message-signatures-directory")
  else .keyThumbprint keyid

theorem proposeIdentity_signed (hconfig : config.Accepted H options octets origin) (hlawful : H.Lawful)
    (hprepared : V.PreparedFor H config origin) :
    proposeIdentity H.origins V.limits V.bindings (some config.keyid) origin (some V.requireBinding) =
      .ok (signedIdentity V config.keyid origin) := by
  obtain ⟨value, -, hvalue⟩ := hconfig.claimed
  have horigin := (origin_spelled hvalue).2 V.limits.maxAgentUrlBytes hlawful.origins hprepared.urls.1
    hprepared.urls.2
  have hthumbprint := validThumbprint_iff_canonical.mpr (keyid_canonical hconfig hlawful)
  simp only [proposeIdentity, bind_eq_ok, require_eq_ok, exists_const]
  refine ⟨hthumbprint, origin, horigin, ?_⟩
  by_cases hbinding : V.requireBinding
  · have hmem : ⟨config.keyid, origin⟩ ∈
        V.bindings.filter fun entry => entry.thumbprint = config.keyid := by
      simpa using hprepared.bound hbinding
    rw [signedIdentity, if_pos hbinding, hbinding, if_neg (by simp)]
    simp only [bind_eq_ok, require_eq_ok, exists_const, pure_eq_ok]
    exact ⟨List.ne_nil_of_mem hmem, List.any_eq_true.mpr ⟨_, hmem, decide_eq_true rfl⟩, trivial⟩
  · rw [signedIdentity, if_neg hbinding, if_pos (by simpa using hbinding)]
    rfl

/-- What a verifier that is prepared finds out about a signed request. -/
theorem SigningRun.found
    (hrun : SigningRun H A config request clock times nonce base signature headers)
    (hconfig : config.Accepted H options octets origin) (hlawful : H.Lawful)
    (hprepared : V.PreparedFor H config origin)
    (hread : Readable V.coreLimits config request headers) :
    ∃ key, Found H.backend H.platform H.origins H.jwks V (withFields request headers.fields)
      ⟨signedInput config times nonce, signature⟩ (signedAgent config.profile config.label origin)
      (signedClaim config origin) (signedMetadata config times nonce) key
      (signedIdentity V config.keyid origin) := by
  obtain ⟨key, hkey, hoctets, htest⟩ := hprepared.key
  obtain rfl := Option.some.inj (hconfig.exported.symm.trans hoctets)
  have hkeyid := keyid_canonical hconfig hlawful
  have hpair := hlawful.pair _ _ hoctets
  obtain ⟨hlength, hverified⟩ := hpair.verified _ _ hrun.signed.1
  refine ⟨key, ?_⟩
  constructor
  case allowed =>
    rw [signedAgent_profile]
    exact hprepared.allowed
  case claimed =>
    have hsupported : assertSupportedComponents (signedInput config times nonce) config.profile = .ok () :=
      hconfig.supported
    have hmetadata := readCandidateMetadata_signed times
      (V.profiles config.profile).noncePolicy hkeyid hprepared.nonces.2
      (isValidNonce_mono hrun.fresh hprepared.nonces.1 hprepared.nonces.2)
    have hclaim := resolveAgentClaim_signed hconfig hlawful.origins hprepared
    simp only [readClaim, signedAgent_profile, bind_eq_ok, pure_eq_ok]
    exact ⟨(), hsupported, _, hclaim, (), assertRequiredCoverage_signed hconfig, _, hmetadata, rfl⟩
  case algorithm =>
    rintro name ⟨⟩
    rfl
  case selected => exact hkey
  case identified => exact ⟨hkeyid, hconfig.keyid⟩
  case testKey => exact htest
  case proposed => exact proposeIdentity_signed hconfig hlawful hprepared
  case verified =>
    refine ⟨signedInput config times nonce, verify_eq_valid.mpr ⟨rfl, hlength, requireAlgorithm_signed,
      _, base, rfl, hpair.type.1, hpair.type.2, ?_, hverified⟩⟩
    rw [signedAgent_profile]
    exact hrun.base_eq hconfig hprepared hread

/-! ## Time -/

/-- The seconds in which a policy accepts a signature with some timestamps, whose lifetime it allows. -/
def SigningTimestamps.Allows (times : SigningTimestamps) (policy : TimePolicy) (now : ℤ) : Prop :=
  isSecond now ∧ times.created ≤ now + policy.clockSkewSeconds ∧ now < times.expires + policy.clockSkewSeconds

/-- **The seconds in which a signature is acceptable.** -/
theorem accepts_signed {policy : TimePolicy} {lifetimeSeconds : ℕ} {now : ℤ}
    (hstamped : readSigningTimestamps A clock lifetimeSeconds = .ok times)
    (hlifetime : lifetimeSeconds ≤ policy.maxLifetimeSeconds ∧ lifetimeSeconds ≤ policy.maxAgeSeconds) :
    policy.Accepts (.integer times.created) (.integer times.expires) now ↔ times.Allows policy now := by
  obtain ⟨_, -, -, -, hcreated, hexpires, hlt, hmaximum⟩ := readSigningTimestamps_eq_ok hstamped
  have htimestamp {z : ℤ} (h : 0 ≤ z) (h' : z ≤ MAX_SF_INTEGER) : timestamp (.integer z) = some z := by
    have hnat : z.natAbs ≤ maxSafeInteger := by
      have hbound : MAX_SF_INTEGER ≤ maxSafeInteger := by decide
      omega
    have hsafe : (Number.integer z).safeInteger? = some z := Option.filter_eq_some_iff.mpr
      ⟨rfl, decide_eq_true hnat⟩
    rw [timestamp, hsafe]
    exact Option.filter_eq_some_iff.mpr ⟨rfl, decide_eq_true ⟨h, h'⟩⟩
  have hstart := htimestamp hcreated (hlt.le.trans hmaximum)
  have hstop := htimestamp (hcreated.trans hlt.le) hmaximum
  constructor
  · rintro ⟨hsecond, start, stop, hstart', hstop', -, -, hskew, hend, -⟩
    obtain rfl := Option.some.inj (hstart.symm.trans hstart')
    obtain rfl := Option.some.inj (hstop.symm.trans hstop')
    exact ⟨hsecond, hskew, hend⟩
  · rintro ⟨hsecond, hskew, hend⟩
    exact ⟨hsecond, _, _, hstart, hstop, hlt, by omega, hskew, hend, by omega⟩

/-! ## Verification -/

/-- The result of a signed request at a second. -/
def signedResult (config : SigningConfiguration) (origin : Text) (now : ℤ) : VerifiedCandidate where
  label := config.label
  profile := config.profile
  thumbprint := config.keyid
  claimedAgent := origin
  coveredComponents := config.components
  verifiedAt := now
  replayProtected := true

/-- A candidate whose nonce was consumed is verified in the seconds that its policy accepts. -/
theorem finalResult_signed (rule : AggregateRule) {now : ℤ}
    (h : (V.profiles config.profile).time.Accepts (.integer times.created) (.integer times.expires) now) :
    finalResult rule [.eligible (signedCandidate V config times nonce origin signature)] []
      [(0, .accepted)] now =
        .ok (.verified true [.verified (signedResult config origin now)] [signedResult config origin now]) := by
  have hcheck : (V.profiles config.profile).time.check (.integer times.created) (.integer times.expires) now =
      .ok () := TimePolicy.check_eq_ok.mpr h
  have hverified : verifyCandidate (signedCandidate V config times nonce origin signature) (some .accepted)
      now = .ok (signedResult config origin now) := by
    simp only [verifyCandidate, signedCandidate, eligibleCandidate, signedMetadata,
      VerificationConfiguration.engine, hcheck, ok_bind]
    rfl
  have hfinal : finalCandidate [] [(0, .accepted)] now
      (.eligible (signedCandidate V config times nonce origin signature), 0) =
        .ok (.verified (signedResult config origin now)) := by
    have hlookup : OrderedMap.lookup [(0, CandidateReplayOutcome.accepted)] 0 = some .accepted := rfl
    have hnone : OrderedMap.lookup ([] : List (ℕ × RejectedCandidate)) 0 = none := rfl
    simp only [finalCandidate, hlookup, hnone, finalize, hverified]
    rfl
  have hresults : ([CandidateEvaluation.eligible (signedCandidate V config times nonce origin
      signature)].zipIdx.mapM (finalCandidate [] [(0, .accepted)] now)) =
        .ok [.verified (signedResult config origin now)] := by
    rw [List.zipIdx_cons, List.zipIdx_nil, List.mapM_cons, hfinal]
    rfl
  rw [finalResult, hresults, ok_bind]
  simp [aggregate, CandidateResult.verified?, CandidateResult.rejection?, signedResult]

/-- **A signed request is verified.** A request is signed under an accepted configuration, and the three
fields are appended. A verifier that is prepared for the signer, and has room for the request, selects the
signature that was made as the only candidate and reads the agent header of the signer. The evaluation finds
the metadata, the thumbprint and the origin of the signer, and the identity that its key is bound to, exactly
if both readings of the clock are in the window of the timestamps. If the nonce is then consumed and the final
second is in the window too, the request is verified. -/
theorem sign_roundTrip (H : SignerHost) (A : Rounding) (V : VerificationConfiguration)
    (options : SigningOptions) (config : SigningConfiguration) (request : RequestParts) (clock : Sample)
    (generated : Option Text) (headers : SignedRequestHeaders) (origin : Text) (hlawful : H.Lawful)
    (hconfig : resolveSigningConfiguration H options = .ok config)
    (hclaimed : signingOrigin H.origins options.agentOrigin config.profileLimits.maxAgentUrlBytes =
      .ok origin)
    (hsign : sign H A config request clock generated = .ok headers)
    (hprepared : V.PreparedFor H config origin)
    (hread : Readable V.coreLimits config request headers) :
    ∃ times nonce signature, readSigningTimestamps A clock config.lifetimeSeconds = .ok times ∧
      generated = some nonce ∧
      selectCandidates V.engine (withFields request headers.fields) =
        .ok (.candidates [⟨signedInput config times nonce, signature⟩]
          [⟨signedInput config times nonce, signature⟩]) ∧
      parseAgentHeader V.coreLimits (withFields request headers.fields) =
        .ok (signedAgent config.profile config.label origin) ∧
      (∀ now later, candidateFinding H.backend H.platform H.origins H.jwks V
          (withFields request headers.fields) ⟨signedInput config times nonce, signature⟩
          (signedAgent config.profile config.label origin) (.ok now) (.ok later) =
            .ok (⟨signedMetadata config times nonce, config.keyid, origin⟩,
              signedIdentity V config.keyid origin) ↔
        times.Allows (V.profiles config.profile).time now ∧
          times.Allows (V.profiles config.profile).time later) ∧
      ∀ now later last, times.Allows (V.profiles config.profile).time now →
        times.Allows (V.profiles config.profile).time later →
        times.Allows (V.profiles config.profile).time last →
          ∃ evaluation, evaluateCandidate H.backend H.platform H.origins H.jwks V
              (withFields request headers.fields) ⟨signedInput config times nonce, signature⟩
              (signedAgent config.profile config.label origin) (.ok now) (.ok later) = .ok evaluation ∧
            finalResult V.aggregate [evaluation] [] [(0, .accepted)] last =
              .ok (.verified true [.verified (signedResult config origin last)]
                [signedResult config origin last]) := by
  obtain ⟨octets, origin', hconfig⟩ := resolveSigningConfiguration_eq_ok hconfig
  obtain rfl : origin = origin' := by
    obtain ⟨value, hvalue, horigin⟩ := signingOrigin_eq_ok.mp hclaimed
    obtain ⟨value', hvalue', horigin'⟩ := hconfig.claimed
    obtain rfl := Option.some.inj (Eq.trans (Eq.symm hvalue) hvalue')
    exact Except.ok.inj (horigin.symm.trans horigin')
  obtain ⟨times, nonce, base, signature, hgenerated, hrun⟩ := sign_eq_ok hsign
  obtain ⟨key, hfound⟩ := hrun.found hconfig hlawful hprepared hread
  have hwindow (now : ℤ) : (V.profiles config.profile).time.Accepts (.integer times.created)
      (.integer times.expires) now ↔ times.Allows (V.profiles config.profile).time now :=
    accepts_signed hrun.stamped hprepared.lifetime
  have hprofile := signedAgent_profile config.profile config.label origin
  have hfinding (now later : ℤ) : candidateFinding H.backend H.platform H.origins H.jwks V
      (withFields request headers.fields) ⟨signedInput config times nonce, signature⟩
      (signedAgent config.profile config.label origin) (.ok now) (.ok later) =
        .ok (⟨signedMetadata config times nonce, config.keyid, origin⟩,
          signedIdentity V config.keyid origin) ↔
      times.Allows (V.profiles config.profile).time now ∧
        times.Allows (V.profiles config.profile).time later := by
    rw [candidateFinding_eq_ok, hprofile, ← hwindow, ← hwindow]
    constructor
    · rintro ⟨claim, metadata, key', second, second', -, hfinding, hnow, hlater, htime, htime'⟩
      obtain rfl := Except.ok.inj hnow
      obtain rfl := Except.ok.inj hlater
      obtain rfl := congrArg Finding.metadata hfinding
      exact ⟨htime, htime'⟩
    · rintro ⟨htime, htime'⟩
      exact ⟨_, _, key, now, later, hfound, rfl, rfl, rfl, htime, htime'⟩
  have hmax : 1 ≤ V.engine.maxCandidates ∧ V.engine.maxCandidates ≤ maxSafeInteger := by
    obtain ⟨hpositive, hsafe⟩ := hprepared.candidates
    exact ⟨Int.ofNat_le.mpr hpositive, Int.ofNat_le.mpr hsafe⟩
  refine ⟨times, nonce, signature, hrun.stamped, hgenerated, hrun.selected hconfig hread hmax,
    hrun.agentParsed hconfig hread, hfinding, ?_⟩
  · intro now later last hnow hlater hlast
    refine ⟨.eligible (signedCandidate V config times nonce origin signature), ?_,
      finalResult_signed V.aggregate ((hwindow last).mpr hlast)⟩
    apply evaluateCandidate_eligible.mpr
    refine ⟨_, _, (hfinding now later).mpr ⟨hnow, hlater⟩, ?_⟩
    rw [hprofile]
    rfl

/-! ## A request and its verification -/

/-- A host with one key. -/
noncomputable def exampleSignerHost : SignerHost where
  backend := exampleBackend
  platform := examplePlatform
  origins := spelledOrigins
  jwks := exampleJwksHost
  publicOctets _ := Base64.urlDecode exampleComponent
  lowerCase t := toLowerCase t = t

/-- The options of a signer with that key. -/
def exampleSigningOptions : SigningOptions where
  privateKey := some (exampleKey .privateKey)
  agentOrigin := some (ascii "https://agent.example")
  profile := none
  label := none
  allowTestKeys := false
  timePolicy := ⟨none, none, none, none⟩
  limits := .none
  coreLimits := ⟨[], []⟩
  additionalComponents := none
  structuredFieldTypes := []

/-- The configuration of the signer. -/
def exampleSigningConfiguration : SigningConfiguration where
  privateKey := exampleKey .privateKey
  keyid := exampleThumbprint
  profile := .ietfWgProtocol00
  label := ascii "sig1"
  agentHeader := ascii "sig1=\"https://agent.example\""
  components := requiredComponents .ietfWgProtocol00 (ascii "sig1")
  fieldTypes := [(signatureAgent, .dictionary)]
  limits := DEFAULT_CORE_LIMITS
  profileLimits := DEFAULT_PROFILE_LIMITS
  lifetimeSeconds := 60

/-- A request that carries no signature. -/
def exampleUnsigned : RequestParts :=
  ⟨ascii "GET", ascii "https://site.example/", none, [textField "X-Fold" "a"], some .http11⟩

/-- What the signer returns for the request, in the first second. -/
def exampleSignedHeaders : SignedRequestHeaders where
  signatureInput := ascii "sig1=(\"@method\" \"@target-uri\" " ++
    ascii "\"signature-agent\";key=\"sig1\");created=1;" ++ ascii "expires=61;keyid=\"" ++
    exampleThumbprint ++ ascii "\";alg=\"ed25519\";nonce=\"n\";" ++ ascii "tag=\"web-bot-auth\""
  signature := ascii "sig1=:" ++ List.replicate 86 65 ++ ascii "==:"
  signatureAgent := ascii "sig1=\"https://agent.example\""

/-- A verifier with the key of the signer, bound to its origin. -/
def exampleVerifier : VerificationConfiguration where
  limits := DEFAULT_PROFILE_LIMITS
  coreLimits := DEFAULT_CORE_LIMITS
  jwks := ⟨[⟨0, none, exampleThumbprint, (Base64.urlDecode exampleComponent).getD [], false⟩], []⟩
  scope := ascii "site"
  candidateMode := .exactlyOne
  aggregate := .all
  allowedProfiles := [.ietfWgProtocol00]
  profiles _ := ⟨DEFAULT_TIME_POLICY, .required⟩
  bindings := [⟨exampleThumbprint, ascii "https://agent.example"⟩]
  requireBinding := true
  allowTestKeys := false
  fieldTypes := []

theorem exampleSignerHost_lawful : exampleSignerHost.Lawful where
  origins := spelledOrigins_consistent
  digest bytes := by
    have hlength : ((Base64.urlDecode exampleThumbprint).getD []).length = 32 := by decide +kernel
    exact hlength
  pair key octets h := by
    refine ⟨⟨rfl, rfl⟩, ?_⟩
    intro bytes signature hsign
    obtain rfl := Option.some.inj hsign
    exact ⟨List.length_replicate, rfl⟩

theorem resolveCoreLimits_default : resolveCoreLimits ⟨[], []⟩ = .ok DEFAULT_CORE_LIMITS := rfl

theorem exampleSigningConfiguration_resolved :
    resolveSigningConfiguration exampleSignerHost exampleSigningOptions =
      .ok exampleSigningConfiguration := by
  have htime : resolveTimePolicy exampleSigningOptions.timePolicy = .ok DEFAULT_TIME_POLICY := rfl
  have hlabel : signingLabel DEFAULT_CORE_LIMITS exampleSigningOptions.label = .ok (ascii "sig1") := by
    decide +kernel
  have hkeyid : ed25519Thumbprint exampleJwksHost ((Base64.urlDecode exampleComponent).getD []) =
      .ok exampleThumbprint := by
    decide +kernel
  have horigin : canonicalAgentOrigin spelledOrigins (ascii "https://agent.example") 2048 =
      .ok (ascii "https://agent.example") := by
    decide +kernel
  have hcomponents : readBack DEFAULT_CORE_LIMITS (ascii "sig1")
      (requiredComponents .ietfWgProtocol00 (ascii "sig1")) =
        .ok (requiredComponents .ietfWgProtocol00 (ascii "sig1")) := by
    decide +kernel
  simp only [resolveSigningConfiguration, mapError_eq_ok, tryConfiguration, bind_eq_ok,
    withProfile_eq_ok, withCore_eq_ok, withSf_eq_ok, require_eq_ok, exists_const, signingKey_eq_ok,
    exportedOctets_eq_ok, signingOrigin_eq_ok, pure_eq_ok]
  refine ⟨_, resolveCoreLimits_default, DEFAULT_PROFILE_LIMITS, ?_, _, htime, _, rfl, _, hlabel, _, ⟨rfl, rfl, rfl⟩,
    (Base64.urlDecode exampleComponent).getD [], ?_, _, hkeyid, ?_, _, ⟨_, rfl, horigin⟩,
    exampleSigningConfiguration.agentHeader, ?_, _, rfl, _, hcomponents, (), ?_,
    [(signatureAgent, .dictionary)], ?_, rfl⟩ <;> decide +kernel

theorem exampleUnsigned_signed :
    sign exampleSignerHost .exact exampleSigningConfiguration exampleUnsigned (some 1000)
      (some (ascii "n")) = .ok exampleSignedHeaders := by
  decide +kernel

theorem exampleVerifier_prepared :
    exampleVerifier.PreparedFor exampleSignerHost exampleSigningConfiguration
      (ascii "https://agent.example") where
  allowed := List.mem_singleton_self _
  types c hc hname := by
    have hcases : c.name = ascii "@method" ∨ c.name = ascii "@target-uri" ∨ c.name = signatureAgent := by
      simp only [exampleSigningConfiguration, requiredComponents, List.mem_cons, List.not_mem_nil,
        or_false] at hc
      rcases hc with rfl | rfl | rfl
      · exact .inl rfl
      · exact .inr (.inl rfl)
      · exact .inr (.inr rfl)
    rcases hcases with h | h | h
    · rw [h]
      rfl
    · rw [h]
      rfl
    · exact absurd h hname
  key := by
    refine ⟨⟨0, none, exampleThumbprint, (Base64.urlDecode exampleComponent).getD [], false⟩, ?_, ?_, ?_⟩
    · decide +kernel
    · decide +kernel
    · simp
  bound _ := List.mem_singleton_self _
  lifetime := by decide
  candidates := by decide
  nonces := by decide
  urls := by decide +kernel

theorem exampleVerifier_readable :
    Readable exampleVerifier.coreLimits exampleSigningConfiguration exampleUnsigned
      exampleSignedHeaders where
  below := .refl _
  signatures := by decide
  texts := by decide +kernel
  target := by simp [exampleUnsigned]

theorem sign_roundTrip_exampleUnsigned : ∃ signature evaluation,
    selectCandidates exampleVerifier.engine (withFields exampleUnsigned exampleSignedHeaders.fields) =
        .ok (.candidates [signature] [signature]) ∧
      evaluateCandidate exampleBackend examplePlatform spelledOrigins exampleJwksHost exampleVerifier
        (withFields exampleUnsigned exampleSignedHeaders.fields) signature
        (signedAgent .ietfWgProtocol00 (ascii "sig1") (ascii "https://agent.example")) (.ok 2) (.ok 3) =
          .ok evaluation ∧
      finalResult .all [evaluation] [] [(0, .accepted)] 90 =
        .ok (.verified true
          [.verified (signedResult exampleSigningConfiguration (ascii "https://agent.example") 90)]
          [signedResult exampleSigningConfiguration (ascii "https://agent.example") 90]) := by
  have horigin : signingOrigin spelledOrigins (some (ascii "https://agent.example")) 2048 =
      .ok (ascii "https://agent.example") := by
    decide +kernel
  obtain ⟨times, nonce, signature, htimes, -, hselected, -, -, hverified⟩ := sign_roundTrip
    exampleSignerHost .exact exampleVerifier exampleSigningOptions exampleSigningConfiguration
    exampleUnsigned (some 1000) (some (ascii "n")) exampleSignedHeaders (ascii "https://agent.example")
    exampleSignerHost_lawful exampleSigningConfiguration_resolved horigin exampleUnsigned_signed
    exampleVerifier_prepared exampleVerifier_readable
  have hstamped : readSigningTimestamps .exact (some 1000) 60 = .ok ⟨1, 61⟩ := by
    decide +kernel
  obtain rfl := Except.ok.inj (hstamped.symm.trans htimes)
  have hallows : ∀ now ∈ [(2 : ℤ), 3, 90], SigningTimestamps.Allows ⟨1, 61⟩ DEFAULT_TIME_POLICY now := by
    unfold SigningTimestamps.Allows
    decide
  obtain ⟨evaluation, hevaluated, hresult⟩ := hverified 2 3 90 (hallows 2 (by simp)) (hallows 3 (by simp))
    (hallows 90 (by simp))
  exact ⟨_, evaluation, hselected, hevaluated, hresult⟩

end AgentSig.Profiles
