import AgentSig.Profiles.CandidateReplay
import AgentSig.Profiles.ProfileLimits
import AgentSig.Redis.Encoding

/-!
# Consume records

What the adapter sends to the script for an input: the encoded identity, the thumbprint and the
duration. The adapter validates inputs under the default limits, whatever the limits of the context,
so a scope or a nonce that is longer than these is never sent.

## Main definitions

* `RedisConsumeRecord`, `prepareRedisConsume`: the record of an input
* `encodeIdentity`: the encoded identity
* `untrustedInput`: an input as an object

## Main results

* `encodeIdentity_inj`: an identity is determined by its encoding
* `length_encodeIdentity_le`: the length of an encoded identity
* `prepareRedisConsume_preparedInput`: **which inputs of a verifier the adapter accepts**
-/

namespace AgentSig.Redis

open Commons Core Profiles StructuredFields

/-- `RedisConsumeRecord`. -/
structure RedisConsumeRecord where
  identity : Text
  thumbprint : Text
  durationMilliseconds : ℕ
  deriving DecidableEq, Repr

/-- The encoded identity of a request. -/
def encodeIdentity (identity : ReplayIdentity) : Text :=
  Base64.urlEncode (asciiOctets (identityText identity))

/-- `prepareRedisConsume`. -/
def prepareRedisConsume (input : UntrustedInput) : Option RedisConsumeRecord := do
  let input ← input.read
  guard (MemoryReplayStore.validInput DEFAULT_PROFILE_LIMITS.replay input)
  let duration := (input.retainUntilEpochSeconds - input.nowEpochSeconds) * 1000
  guard (0 < duration ∧ duration ≤ maxSafeInteger)
  return ⟨encodeIdentity input.identity, input.keyThumbprint, duration.toNat⟩

/-- An input, as an object. -/
def untrustedInput (input : ReplayConsumeInput) :
    UntrustedInput :=
  some {
    scope := .text input.scope
    keyThumbprint := .text input.keyThumbprint
    nonce := .text input.nonce
    nowEpochSeconds := .number (.integer input.nowEpochSeconds)
    retainUntilEpochSeconds := .number (.integer input.retainUntilEpochSeconds) }

/-! ## Encoded identities -/

section Identities

variable {limits : ReplayLimits} {input input' : ReplayConsumeInput}

theorem validInput_iff : MemoryReplayStore.validInput limits input = true ↔
    input.scope ≠ [] ∧ input.scope.length ≤ limits.maxScopeBytes ∧ isAscii input.scope ∧
      MemoryReplayStore.validThumbprint input.keyThumbprint ∧
      isValidNonce input.nonce limits.maxNonceBytes ∧ isSecond input.nowEpochSeconds ∧
      isSecond input.retainUntilEpochSeconds ∧
      input.nowEpochSeconds < input.retainUntilEpochSeconds := by
  simp only [MemoryReplayStore.validInput, decide_eq_true_eq]

theorem isAscii_of_base64UrlChar {t : Text} (h : t.all base64UrlChar) : isAscii t :=
  List.all_eq_true.mpr fun c hc =>
    decide_eq_true (Base64.le_of_urlSextet (List.all_eq_true.mp h c hc))

/-- A thumbprint that the adapter accepts. -/
theorem validThumbprint_of_valid {t : Text} (h : MemoryReplayStore.validThumbprint t) :
    validThumbprint t := by
  simp only [MemoryReplayStore.validThumbprint, decide_eq_true_eq] at h
  simp [validThumbprint, h.1, h.2.1]

theorem validThumbprint_iff {t : Text} :
    validThumbprint t ↔ t.length = 43 ∧ t.all base64UrlChar := by
  simp only [validThumbprint, decide_eq_true_eq]

theorem isValidNonce_iff {value : Text} {maximumBytes : ℤ} :
    isValidNonce value maximumBytes ↔ 1 ≤ maximumBytes ∧ maximumBytes ≤ maxSafeInteger ∧
      value ≠ [] ∧ value.length ≤ maximumBytes ∧ value.all fun c => 0x20 ≤ c && c ≤ 0x7e := by
  simp only [isValidNonce, decide_eq_true_eq]

/-- The units of a nonce. -/
theorem printable_of_isValidNonce {value : Text} {maximumBytes : ℤ}
    (h : isValidNonce value maximumBytes) : ∀ c ∈ value, 32 ≤ c ∧ c ≤ 127 := by
  obtain ⟨-, -, -, -, hunits⟩ := isValidNonce_iff.mp h
  intro c hc
  have hbounds := List.all_eq_true.mp hunits c hc
  simp only [Bool.and_eq_true, decide_eq_true_eq] at hbounds
  exact ⟨hbounds.1, UInt16.le_trans hbounds.2 (by decide)⟩

/-- The text of an identity is ASCII. -/
theorem isAscii_identityText (h : MemoryReplayStore.validInput limits input) :
    isAscii (identityText input.identity) := by
  obtain ⟨-, -, hscope, hthumbprint, hnonce, -⟩ := validInput_iff.mp h
  have hsymbols := (validThumbprint_iff.mp (validThumbprint_of_valid hthumbprint)).2
  refine Json.isAscii_stringify fun t ht => ?_
  simp only [ReplayConsumeInput.identity, List.mem_cons, List.not_mem_nil, or_false] at ht
  rcases ht with rfl | rfl | rfl
  · exact hscope
  · exact isAscii_of_base64UrlChar hsymbols
  · exact List.all_eq_true.mpr fun c hc =>
      decide_eq_true (printable_of_isValidNonce hnonce c hc).2

/-- An identity is determined by its encoding. -/
theorem encodeIdentity_inj (h : MemoryReplayStore.validInput limits input)
    (h' : MemoryReplayStore.validInput limits input')
    (heq : encodeIdentity input.identity = encodeIdentity input'.identity) :
    input.identity = input'.identity :=
  identityText_injective (asciiOctets_inj (isAscii_identityText h) (isAscii_identityText h')
    (Base64.urlEncode_injective heq))

/-- The length of the text of an identity. A unit of a scope may be a control character, whose escape
has six units; a unit of a nonce is printable, and has an escape of at most two. -/
theorem length_identityText_le (h : MemoryReplayStore.validInput limits input) :
    (identityText input.identity).length ≤
      6 * limits.maxScopeBytes + 2 * limits.maxNonceBytes + 53 := by
  obtain ⟨-, hscope, -, hthumbprint, hnonce, -⟩ := validInput_iff.mp h
  obtain ⟨hlength, hsymbols⟩ := validThumbprint_iff.mp (validThumbprint_of_valid hthumbprint)
  obtain ⟨-, -, -, hnonceLength, -⟩ := isValidNonce_iff.mp hnonce
  have hquotedScope := Json.length_quote_le (t := input.scope) (k := 6)
    fun c _ => (Json.length_escapeUnit_le c).1
  have hquotedNonce := Json.length_quote_le (t := input.nonce) (k := 2)
    fun c hc => (Json.length_escapeUnit_le c).2 (printable_of_isValidNonce hnonce c hc).1
  have hquotedThumbprint := Json.length_quote_of_plain (plain_of_base64UrlChar hsymbols)
  simp only [identityText, ReplayConsumeInput.identity, Json.stringify, Json.following,
    List.length_cons, List.length_append, List.length_nil, List.cons_append]
  omega

/-- The length of an encoded identity. -/
theorem length_encodeIdentity_le
    (h : MemoryReplayStore.validInput DEFAULT_PROFILE_LIMITS.replay input) :
    (encodeIdentity input.identity).length ≤ 2802 := by
  have hlength : (identityText input.identity).length ≤ 2101 := length_identityText_le h
  rw [encodeIdentity, Base64.length_urlEncode, asciiOctets, List.length_map]
  omega

/-- The script accepts every encoded identity. -/
theorem validIdentity_encodeIdentity
    (h : MemoryReplayStore.validInput DEFAULT_PROFILE_LIMITS.replay input) :
    validIdentity (encodeIdentity input.identity) := by
  have hlength := length_encodeIdentity_le h
  have hsymbols : (encodeIdentity input.identity).all base64UrlChar :=
    List.all_eq_true.mpr fun c hc => Base64.urlSextet_of_mem_urlEncode hc
  have hne : encodeIdentity input.identity ≠ [] := by
    intro hnil
    have hzero := congrArg List.length hnil
    rw [encodeIdentity, Base64.length_urlEncode, asciiOctets, List.length_map] at hzero
    simp only [identityText, Json.stringify, Json.quote, List.length_cons, List.length_append,
      List.length_nil, List.cons_append] at hzero
    omega
  simp only [validIdentity, decide_eq_true_eq]
  exact ⟨hne, hlength.trans (by omega), hsymbols⟩

end Identities

/-! ## Records -/

section Records

variable {input : UntrustedInput} {record : RedisConsumeRecord}

/-- What a record says of the input that it was prepared of. -/
structure PreparedOf (record : RedisConsumeRecord) (i : ReplayConsumeInput) : Prop where
  valid : MemoryReplayStore.validInput DEFAULT_PROFILE_LIMITS.replay i
  identity : record.identity = encodeIdentity i.identity
  thumbprint : record.thumbprint = i.keyThumbprint
  duration : (record.durationMilliseconds : ℤ) =
    (i.retainUntilEpochSeconds - i.nowEpochSeconds) * 1000
  positive : 0 < record.durationMilliseconds
  safe : record.durationMilliseconds ≤ maxSafeInteger

theorem prepareRedisConsume_eq_some (h : prepareRedisConsume input = some record) :
    ∃ i, input.read = some i ∧ PreparedOf record i := by
  simp only [prepareRedisConsume, Option.bind_eq_bind, Option.bind_eq_some_iff,
    Option.guard_eq_some', Option.pure_def, Option.some.injEq] at h
  obtain ⟨i, hread, _, hvalid, _, ⟨hpositive, hsafe⟩, rfl⟩ := h
  have hduration := Int.toNat_of_nonneg hpositive.le
  refine ⟨i, hread, hvalid, rfl, rfl, hduration, ?_, ?_⟩
  · simp only
    omega
  · simp only
    omega

theorem prepareRedisConsume_isSome : (prepareRedisConsume input).isSome ↔
    ∃ i, input.read = some i ∧ MemoryReplayStore.validInput DEFAULT_PROFILE_LIMITS.replay i ∧
      (i.retainUntilEpochSeconds - i.nowEpochSeconds) * 1000 ≤ maxSafeInteger := by
  constructor
  · intro h
    obtain ⟨record, hrecord⟩ := Option.isSome_iff_exists.mp h
    obtain ⟨i, hread, hprepared⟩ := prepareRedisConsume_eq_some hrecord
    refine ⟨i, hread, hprepared.valid, ?_⟩
    rw [← hprepared.duration]
    exact_mod_cast hprepared.safe
  · rintro ⟨i, hread, hvalid, hsafe⟩
    have hlt := (validInput_iff.mp hvalid).2.2.2.2.2.2.2
    simp [prepareRedisConsume, hread, hvalid, guard, hlt, hsafe]

/-- An object with the fields of an input whose seconds are safe integers is read as that input. -/
theorem read_untrustedInput {i : ReplayConsumeInput} (hnow : isSecond i.nowEpochSeconds)
    (huntil : isSecond i.retainUntilEpochSeconds) : (untrustedInput i).read = some i := by
  have hsafe : ∀ z, isSecond z → PropertyValue.integer? (.number (.integer z)) = some z := by
    intro z hz
    have hz := isSecond_iff.mp hz
    simp only [PropertyValue.integer?, Number.safeInteger?, Number.toInt?, Option.filter]
    rw [if_pos (decide_eq_true (by omega))]
  simp [UntrustedInput.read, untrustedInput, PropertyValue.text?, hsafe _ hnow, hsafe _ huntil]

end Records

/-! ## The inputs of a verifier -/

section Verifiers

variable {limits : ProfileLimits} {scope : Text} {now : ℤ} {outcomes : ReplayOutcomes}
  {group : List Positioned} {p : Preparation} {input : ReplayConsumeInput} {identity : ReplayIdentity}

/-- What evaluation says of a candidate: its metadata was read under some limits, and its thumbprint is
the key identifier. -/
structure ReadUnder (limits : ReplayLimits) (candidate : EligibleCandidate) : Prop where
  metadata : ∃ parameters noncePolicy,
    readCandidateMetadata parameters noncePolicy limits.maxNonceBytes = .ok candidate.metadata
  thumbprint : candidate.thumbprint = candidate.metadata.keyid

theorem validThumbprint_of_validateProfileKeyId {value keyid : Text}
    (h : validateProfileKeyId value = .ok keyid) :
    keyid = value ∧ MemoryReplayStore.validThumbprint value := by
  simp only [validateProfileKeyId, bind_eq_ok, require_eq_ok, exists_const, pure_eq_ok] at h
  obtain ⟨hsymbols, hlength, hbytes, hcanonical, rfl⟩ := h
  refine ⟨rfl, ?_⟩
  simp only [MemoryReplayStore.validThumbprint, decide_eq_true_eq]
  refine ⟨hlength, hsymbols, fun bytes hdecoded => ?_⟩
  rw [Option.mem_def.mp hdecoded] at hbytes hcanonical
  exact ⟨hbytes, hcanonical⟩

/-- The key identifier and the nonce of metadata are well formed. -/
theorem readCandidateMetadata_spec {parameters : Parameters} {noncePolicy : NoncePolicy}
    {maxNonceBytes : ℤ} {metadata : CandidateMetadata}
    (h : readCandidateMetadata parameters noncePolicy maxNonceBytes = .ok metadata) :
    MemoryReplayStore.validThumbprint metadata.keyid ∧
      ∀ nonce, metadata.nonce = some nonce → isValidNonce nonce maxNonceBytes := by
  simp only [readCandidateMetadata, bind_eq_ok, require_eq_ok, exists_const, pure_eq_ok] at h
  obtain ⟨-, _, -, _, -, _, -, _, -, _, -, keyid, -, keyid', hkeyid, _, -, nonce, -, -, hnonce,
    rfl⟩ := h
  obtain ⟨rfl, hthumbprint⟩ := validThumbprint_of_validateProfileKeyId hkeyid
  exact ⟨hthumbprint, hnonce⟩

/-- The store is asked for an input that is well formed under the limits of the context. -/
theorem validInput_preparedInput (hscope : limits.replay.admitsScope scope)
    (hread : ∀ m ∈ group, ReadUnder limits.replay m.2)
    (hidentity : ∀ m ∈ group, replayIdentity scope m.2 = some identity)
    (hp : prepareGroup now outcomes group = .ok p) (hinput : preparedInput scope now p = .ok input) :
    MemoryReplayStore.validInput limits.replay input := by
  have hspec := prepareGroup_spec hp
  obtain ⟨hsafe, hlater⟩ := prepareGroup_retainUntil hp
  unfold preparedInput at hinput
  split at hinput
  · simp at hinput
  · rename_i first rest hready
    obtain rfl := pure_eq_ok.mp hinput
    have hfirst : first ∈ p.ready := by simp [hready]
    obtain ⟨haccepts, -⟩ := hspec.ready first hfirst
    obtain ⟨⟨parameters, noncePolicy, hmetadata⟩, hthumbprint⟩ := hread first (hspec.mem first hfirst)
    obtain ⟨hkeyid, hnonces⟩ := readCandidateMetadata_spec hmetadata
    obtain ⟨nonce, hnonce, -⟩ := Option.map_eq_some_iff.mp (hidentity first (hspec.mem first hfirst))
    have hlt := hlater (by simp [hready])
    have hnow := isSecond_iff.mp haccepts.second
    simp only [ReplayLimits.admitsScope, decide_eq_true_eq] at hscope
    refine validInput_iff.mpr ⟨hscope.1, hscope.2.1, hscope.2.2, ?_, ?_, haccepts.second, ?_, hlt⟩
    · rw [hthumbprint]
      exact hkeyid
    · rw [hnonce]
      exact hnonces nonce hnonce
    · exact isSecond_iff.mpr ⟨hnow.1.trans hlt.le, hsafe⟩

/-- The adapter accepts what a verifier dispatches for a group exactly when the scope and the nonce are
within the default limits, whatever limits the context has, as long as the duration is within the
milliseconds of the script. -/
theorem prepareRedisConsume_preparedInput (hscope : limits.replay.admitsScope scope)
    (hread : ∀ m ∈ group, ReadUnder limits.replay m.2)
    (hidentity : ∀ m ∈ group, replayIdentity scope m.2 = some identity)
    (hp : prepareGroup now outcomes group = .ok p) (hinput : preparedInput scope now p = .ok input)
    (hrange : (input.retainUntilEpochSeconds - input.nowEpochSeconds) * 1000 ≤ maxSafeInteger) :
    (prepareRedisConsume (untrustedInput input)).isSome ↔
      scope.length ≤ DEFAULT_PROFILE_LIMITS.maxScopeBytes ∧
        input.nonce.length ≤ DEFAULT_PROFILE_LIMITS.maxNonceBytes := by
  have hvalid := validInput_preparedInput hscope hread hidentity hp hinput
  obtain ⟨hne, -, hascii, hthumbprint, hnonce, hnow, huntil, hlt⟩ := validInput_iff.mp hvalid
  obtain ⟨-, -, hnonceNe, -, hunits⟩ := isValidNonce_iff.mp hnonce
  have hinputScope : input.scope = scope := by
    unfold preparedInput at hinput
    split at hinput
    · simp at hinput
    · obtain rfl := pure_eq_ok.mp hinput
      rfl
  rw [prepareRedisConsume_isSome, read_untrustedInput hnow huntil]
  constructor
  · rintro ⟨i, hi, hdefault, -⟩
    obtain rfl := Option.some.inj hi
    obtain ⟨-, hlength, -, -, hdefaultNonce, -⟩ := validInput_iff.mp hdefault
    obtain ⟨-, -, -, hnonceLength, -⟩ := isValidNonce_iff.mp hdefaultNonce
    exact ⟨hinputScope ▸ hlength, Nat.cast_le.mp hnonceLength⟩
  · rintro ⟨hlength, hnonceLength⟩
    refine ⟨input, rfl, validInput_iff.mpr ⟨hne, hinputScope ▸ hlength, hascii, hthumbprint, ?_, hnow,
      huntil, hlt⟩, hrange⟩
    exact isValidNonce_iff.mpr ⟨by decide, by decide, hnonceNe, Nat.cast_le.mpr hnonceLength, hunits⟩

end Verifiers

/-- The parameters of a signature with a nonce. -/
def exampleParameters (nonce : Text) : Parameters :=
  [(ascii "created", .integer (.integer 0)), (ascii "expires", .integer (.integer 60)),
    (ascii "keyid", .string (List.replicate 43 65)), (ascii "nonce", .string nonce)]

/-- A candidate with a nonce. -/
def exampleCandidate (nonce : Text) : EligibleCandidate where
  label := ascii "sig"
  profile := .ietfWgProtocol00
  coveredComponents := []
  metadata := ⟨.integer 0, .integer 60, List.replicate 43 65, none, some nonce⟩
  thumbprint := List.replicate 43 65
  claimedAgent := ascii "https://a.test"
  time := DEFAULT_TIME_POLICY

/-- The candidate, prepared at the second 10. -/
def examplePreparation (nonce : Text) : Preparation := ⟨340, [(0, exampleCandidate nonce)], [], none⟩

/-- What a store is asked for the candidate. -/
def exampleInput (nonce : Text) : ReplayConsumeInput :=
  ⟨ascii "s", List.replicate 43 65, nonce, 10, 340⟩

theorem prepareRedisConsume_preparedInput_example :
    (prepareRedisConsume (untrustedInput (exampleInput (ascii "n")))).isSome := by
  have hscope : DEFAULT_PROFILE_LIMITS.replay.admitsScope (ascii "s") := by decide
  have hread : ∀ m ∈ [(0, exampleCandidate (ascii "n"))],
      ReadUnder DEFAULT_PROFILE_LIMITS.replay m.2 := List.forall_mem_singleton.mpr
    ⟨⟨exampleParameters (ascii "n"), .required, by decide +kernel⟩, rfl⟩
  have hidentity : ∀ m ∈ [(0, exampleCandidate (ascii "n"))], replayIdentity (ascii "s") m.2 =
      some (ascii "s", List.replicate 43 65, ascii "n") := List.forall_mem_singleton.mpr rfl
  have hp : prepareGroup 10 [] [(0, exampleCandidate (ascii "n"))] =
      .ok (examplePreparation (ascii "n")) := rfl
  have hinput : preparedInput (ascii "s") 10 (examplePreparation (ascii "n")) =
      .ok (exampleInput (ascii "n")) := rfl
  exact (prepareRedisConsume_preparedInput hscope hread hidentity hp hinput (by decide)).mpr
    (by decide)

/-- A nonce of 257 units. -/
def longNonce : Text := List.replicate 257 110

/-- A context may admit nonces of 512 units, and a verifier then dispatches inputs that the adapter
refuses. -/
theorem longNonce_refused : ∃ limits,
    resolveProfileLimits { ProfileLimitOverrides.none with maxNonceBytes := some (.integer 512) } =
      .ok limits ∧
    limits.replay.admitsScope (ascii "s") ∧
    ReadUnder limits.replay (exampleCandidate longNonce) ∧
    replayIdentity (ascii "s") (exampleCandidate longNonce) =
      some (ascii "s", List.replicate 43 65, longNonce) ∧
    prepareGroup 10 [] [(0, exampleCandidate longNonce)] = .ok (examplePreparation longNonce) ∧
    preparedInput (ascii "s") 10 (examplePreparation longNonce) = .ok (exampleInput longNonce) ∧
    prepareRedisConsume (untrustedInput (exampleInput longNonce)) = none := by
  refine ⟨{ DEFAULT_PROFILE_LIMITS with maxNonceBytes := 512 }, rfl, by decide, ?_, rfl, rfl, rfl, ?_⟩
  · exact ⟨⟨exampleParameters longNonce, .required, by decide +kernel⟩, rfl⟩
  · decide +kernel

end AgentSig.Redis
