import AgentSig.Profiles.CandidateReplay
import AgentSig.Profiles.Candidates

/-!
# The verification engine

What one call of `verify` computes between its awaits. A call selects the candidates of a
snapshot of its request, evaluates each of them, drops those whose evidence is lost, consumes
the replay groups of the rest, and decides each candidate again at its final second. A failure
of the whole call rejects every candidate that was not rejected before.

## Main definitions

* `EngineConfig`: the configuration of a verifier
* `snapshotVerificationRequest`, `selectCandidates`: the start of a call
* `screenEvaluations`, `lostEvidence`: the checks of evidence
* `ambiguousResult`, `finalResult`: the end of a call
* `failedResult`: the end of a call that fails

## Main results

* `finalResult_verified`: a verified candidate passed its final check, with its replay outcome
* `ambiguousResult_unverified`, `failedResult_unverified`: the other ends verify nothing
-/

namespace AgentSig.Profiles

open Commons Core StructuredFields

/-- `VerifiedCandidate`; the reason is what `replayProtected` says. -/
structure VerifiedCandidate where
  label : Text
  profile : WebBotAuthProfile
  thumbprint : Text
  claimedAgent : Text
  coveredComponents : List CoveredComponent
  verifiedAt : ℤ
  replayProtected : Bool
  deriving DecidableEq, Repr

/-- `CandidateResult`. -/
inductive CandidateResult
  | verified (candidate : VerifiedCandidate)
  | rejected (candidate : RejectedCandidate)
  deriving DecidableEq, Repr

/-- The candidate of a result that is verified. -/
def CandidateResult.verified? : CandidateResult → Option VerifiedCandidate
  | .verified candidate => some candidate
  | .rejected _ => none

/-- The rejection of a result that is not verified. -/
def CandidateResult.rejection? : CandidateResult → Option ProfileRejection
  | .verified _ => none
  | .rejected candidate => some candidate.rejection

/-- `VerificationResult`; `replayProtected` is the reason `nonce-consumed`. -/
inductive VerificationResult
  | unsigned (reason : UnsignedCode)
  | verified (replayProtected : Bool) (candidates : List CandidateResult)
      (verifiedCandidates : List VerifiedCandidate)
  | failed (rejection : ProfileRejection) (candidates : List CandidateResult)
  deriving DecidableEq, Repr

/-- Whether the status of a result is `verified`. -/
def VerificationResult.isVerified : VerificationResult → Bool
  | .verified _ _ _ => true
  | _ => false

/-- The candidates of a result. -/
def VerificationResult.candidates : VerificationResult → List CandidateResult
  | .unsigned _ => []
  | .verified _ candidates _ => candidates
  | .failed _ candidates => candidates

/-- A result verifies the request or one of its candidates. -/
def VerificationResult.Verifies (r : VerificationResult) : Prop :=
  r.isVerified ∨ ∃ v, .verified v ∈ r.candidates

/-- The mode of a `CandidatePolicy`. -/
inductive CandidateMode
  | exactlyOne
  | multiple
  deriving DecidableEq, Repr

/-- The aggregate of a `CandidatePolicy`. -/
inductive AggregateRule
  | all
  | any
  deriving DecidableEq, Repr

/-- The part of `VerificationConfiguration` that the engine reads, with the time policies. -/
structure EngineConfig where
  coreLimits : CoreLimits
  maxCandidates : ℤ
  scope : Text
  candidateMode : CandidateMode
  aggregate : AggregateRule
  time : WebBotAuthProfile → TimePolicy

/-! ## The start of a call -/

/-- The loop of `snapshotVerificationRequest` over the headers. -/
def chargeHeaders (L : CoreLimits) : (total : ℕ) → List HeaderField → Except CoreError Unit
  | _, [] => return ()
  | total, field :: rest => do
    let total := total + (field.name.length + field.value.length + 4)
    checkLimit L .maxMessageHeaderBytes total
    chargeHeaders L total rest

/-- `snapshotVerificationRequest`. -/
def snapshotVerificationRequest (L : CoreLimits) (request : RequestParts) :
    Except CoreError RequestParts := do
  require (request.headers.length ≤ L.get .maxMessageHeaderBytes / 4)
    (CoreError.signature .resourceLimit)
  chargeHeaders L 0 request.headers
  validateHeaders L request.headers
  checkLimit L .maxTargetUriBytes request.targetUri.length
  checkLimit L .maxSignatureBaseBytes request.method.length
  match request.rawRequestTarget with
  | some target => checkLimit L .maxTargetUriBytes target.length
  | none => pure ()
  return request

/-- The selection of a call. -/
def selectCandidates (config : EngineConfig) (request : RequestParts) :
    Except ProfileError CandidateSelection := do
  let request ← withCore (snapshotVerificationRequest config.coreLimits request)
  selectWebBotAuthCandidates config.coreLimits config.maxCandidates request.headers

/-- What the evaluation of a candidate finds out about it. -/
structure Finding where
  metadata : CandidateMetadata
  thumbprint : Text
  claimedAgent : Text
  deriving DecidableEq, Repr

/-- The candidate that `evaluate` of a strategy returns for a signature. -/
def eligibleCandidate (config : EngineConfig) (profile : WebBotAuthProfile)
    (signature : ParsedSignature) (finding : Finding) : EligibleCandidate where
  label := signature.input.label
  profile
  coveredComponents := signature.input.components
  metadata := finding.metadata
  thumbprint := finding.thumbprint
  claimedAgent := finding.claimedAgent
  time := config.time profile

/-! ## Evidence -/

/-- `evidenceRejection`, for what `checkEvidence` does. -/
def evidenceRejection (candidate : EligibleCandidate) (check : Except ProfileError Unit) :
    Except ProfileError (Option RejectedCandidate) :=
  match check with
  | .ok _ => return none
  | .error e =>
    match e.rejection? with
    | some rejection => return some ⟨rejection, candidate.label, some candidate.profile⟩
    | none => throw e

/-- The candidates that are eligible, by position. -/
def eligibleCandidates (evaluations : List CandidateEvaluation) : List Positioned :=
  evaluations.zipIdx.filterMap fun e => match e.1 with
    | .eligible candidate => some (e.2, candidate)
    | .rejected _ => none

/-- The rejections of the candidates whose evidence is lost, by position. -/
def lostEvidence (checkEvidence : ℕ → Except ProfileError Unit) :
    List Positioned → Except ProfileError (List (ℕ × RejectedCandidate))
  | [] => return []
  | (position, candidate) :: rest => do
    let rejection ← evidenceRejection candidate (checkEvidence position)
    let lost ← lostEvidence checkEvidence rest
    return (rejection.map fun result => (position, result)).toList ++ lost

/-- The evaluations without the candidates whose evidence is lost. -/
def dropLost (lost : List (ℕ × RejectedCandidate)) (evaluations : List CandidateEvaluation) :
    List CandidateEvaluation :=
  evaluations.zipIdx.map fun e => match OrderedMap.lookup lost e.2 with
    | some result => .rejected result
    | none => e.1

/-- The check of the evidence before any replay group. -/
def screenEvaluations (checkEvidence : ℕ → Except ProfileError Unit)
    (evaluations : List CandidateEvaluation) : Except ProfileError (List CandidateEvaluation) := do
  let lost ← lostEvidence checkEvidence (eligibleCandidates evaluations)
  return dropLost lost evaluations

/-! ## The end of a call -/

/-- The result of a candidate that may be rejected. -/
def candidateResult (candidate : EligibleCandidate) (x : Except ProfileError VerifiedCandidate) :
    Except ProfileError CandidateResult :=
  match x with
  | .ok verified => return .verified verified
  | .error e =>
    match e.rejection? with
    | some rejection => return .rejected ⟨rejection, candidate.label, some candidate.profile⟩
    | none => throw e

/-- The replay outcome with which `finalize` may verify a candidate. -/
def requireOutcome (candidate : EligibleCandidate) (replay : Option CandidateReplayOutcome) :
    Except ProfileError CandidateReplayOutcome :=
  match replay with
  | none => throw (.internal "Missing internal replay outcome")
  | some (.rejected rejection) => throw (.candidate rejection)
  | some outcome =>
    if candidate.metadata.nonce.isNone = (outcome == .optional) then return outcome
    else throw (.internal "Inconsistent internal replay outcome")

/-- The body of `finalize`. -/
def verifyCandidate (candidate : EligibleCandidate) (replay : Option CandidateReplayOutcome)
    (now : ℤ) : Except ProfileError VerifiedCandidate := do
  candidate.time.check candidate.metadata.created candidate.metadata.expires now
  let outcome ← requireOutcome candidate replay
  return {
    label := candidate.label
    profile := candidate.profile
    thumbprint := candidate.thumbprint
    claimedAgent := candidate.claimedAgent
    coveredComponents := candidate.coveredComponents
    verifiedAt := now
    replayProtected := outcome == .accepted }

/-- `finalize`. -/
def finalize (candidate : EligibleCandidate) (replay : Option CandidateReplayOutcome) (now : ℤ) :
    Except ProfileError CandidateResult :=
  candidateResult candidate (verifyCandidate candidate replay now)

/-- The result of a candidate after the final second. -/
def finalCandidate (lost : List (ℕ × RejectedCandidate)) (outcomes : ReplayOutcomes) (now : ℤ)
    (evaluation : CandidateEvaluation × ℕ) : Except ProfileError CandidateResult :=
  match evaluation.1, OrderedMap.lookup lost evaluation.2 with
  | .rejected result, _ => return .rejected result
  | .eligible _, some result => return .rejected result
  | .eligible candidate, none => finalize candidate (OrderedMap.lookup outcomes evaluation.2) now

/-- `aggregate`. -/
def aggregate (candidates : List CandidateResult) (rule : AggregateRule) :
    Except ProfileError VerificationResult :=
  let verified := candidates.filterMap CandidateResult.verified?
  let failed := candidates.findSome? CandidateResult.rejection?
  if verified ≠ [] ∧ (rule = .any ∨ failed = none) then
    return .verified (verified.all (·.replayProtected)) candidates verified
  else match failed with
  | none => throw (.internal "Empty internal candidate aggregate")
  | some rejection => return .failed rejection candidates

/-- The end of a call after its final second. -/
def finalResult (rule : AggregateRule) (evaluations : List CandidateEvaluation)
    (lost : List (ℕ × RejectedCandidate)) (outcomes : ReplayOutcomes) (now : ℤ) :
    Except ProfileError VerificationResult := do
  let candidates ← evaluations.zipIdx.mapM (finalCandidate lost outcomes now)
  aggregate candidates rule

/-- The result of a candidate of an ambiguous request. -/
def ambiguousCandidate (now : ℤ) : CandidateEvaluation → Except ProfileError CandidateResult
  | .rejected result => return .rejected result
  | .eligible candidate => candidateResult candidate do
    candidate.time.check candidate.metadata.created candidate.metadata.expires now
    throw (invalid .ambiguousSignatures)

/-- The end of a call that selected several candidates where exactly one is allowed. -/
def ambiguousResult (evaluations : List CandidateEvaluation) (now : ℤ) :
    Except ProfileError VerificationResult := do
  let candidates ← evaluations.mapM (ambiguousCandidate now)
  return .failed (.invalid .ambiguousSignatures) candidates

/-- `coreRejection`; a reason of trusted configuration has none. -/
def coreRejection : RejectionReason → Option ProfileRejection
  | .resourceLimit => some (.unverified .resourceLimit)
  | .unsupported => some (.unverified .unsupportedProfile)
  | .missingComponent => some (.invalid .insufficientCoverage)
  | .algorithmMismatch => some (.invalid .algorithmMismatch)
  | .signatureMismatch => some (.invalid .signatureMismatch)
  | .malformed => some (.invalid .malformedSignature)
  | .invalidKey => none

/-- The error with which `verify` rejects a request; what is no rejection is thrown. -/
def engineError : ProfileError → ProfileError
  | .core (.limit _ _ _) => unverified .resourceLimit
  | .core (.signature reason) =>
    (coreRejection reason).elim (.configuration .invalidKeyConfiguration) .candidate
  | e => e

/-- Whether several candidates were selected where exactly one is allowed. -/
def isAmbiguous (config : EngineConfig) (selected : List ParsedSignature) : Bool :=
  config.candidateMode = .exactlyOne ∧ 1 < selected.length

/-- The result of a candidate of a request that fails. -/
def failedCandidate (rejection : ProfileRejection) (profile : Option WebBotAuthProfile)
    (evaluations : List CandidateEvaluation) (signature : ParsedSignature × ℕ) : CandidateResult :=
  match evaluations[signature.2]? with
  | some (.rejected result) => .rejected result
  | _ => .rejected ⟨rejection, signature.1.input.label, profile⟩

/-- The handler of `verify`. -/
def failedResult (config : EngineConfig) (selected : List ParsedSignature)
    (profile : Option WebBotAuthProfile) (evaluations : List CandidateEvaluation)
    (e : ProfileError) : Except ProfileError VerificationResult :=
  match (engineError e).rejection? with
  | none => throw (engineError e)
  | some rejection =>
    let candidates := selected.zipIdx.map (failedCandidate rejection profile evaluations)
    return .failed (if isAmbiguous config selected then .invalid .ambiguousSignatures else rejection)
      candidates

/-! ## Verified candidates -/

variable {config : EngineConfig} {evaluations : List CandidateEvaluation} {now : ℤ}
  {outcomes : ReplayOutcomes} {lost : List (ℕ × RejectedCandidate)} {rule : AggregateRule}
  {candidates : List CandidateResult}

theorem eligibleCandidates_spec {m : Positioned} :
    m ∈ eligibleCandidates evaluations ↔ evaluations[m.1]? = some (.eligible m.2) := by
  obtain ⟨position, candidate⟩ := m
  simp only [eligibleCandidates, List.mem_filterMap, Prod.exists, List.mem_zipIdx_iff_getElem?]
  constructor
  · rintro ⟨evaluation, index, hmem, h⟩
    cases evaluation with
    | rejected => simp at h
    | eligible candidate' =>
      obtain ⟨rfl, rfl⟩ := Prod.mk.inj (Option.some.inj h)
      exact hmem
  · exact fun h => ⟨_, position, h, rfl⟩

/-- A verified candidate was eligible and passed its final check; its outcome agrees with its
nonce. -/
structure VerifiedFrom (outcomes : ReplayOutcomes) (now : ℤ) (position : ℕ)
    (candidate : EligibleCandidate) (result : VerifiedCandidate) : Prop where
  fields : result = ⟨candidate.label, candidate.profile, candidate.thumbprint,
    candidate.claimedAgent, candidate.coveredComponents, now, candidate.metadata.nonce.isSome⟩
  check : candidate.time.check candidate.metadata.created candidate.metadata.expires now = .ok ()
  accepted : candidate.metadata.nonce ≠ none →
    OrderedMap.lookup outcomes position = some .accepted

theorem requireOutcome_eq_ok {candidate : EligibleCandidate}
    {replay : Option CandidateReplayOutcome} {outcome : CandidateReplayOutcome}
    (h : requireOutcome candidate replay = .ok outcome) :
    (outcome == .accepted) = candidate.metadata.nonce.isSome ∧
      (candidate.metadata.nonce ≠ none → replay = some .accepted) := by
  unfold requireOutcome at h
  split at h
  · simp at h
  · simp at h
  · rename_i outcome' hrejected
    split at h
    · rename_i hnonce
      obtain rfl := pure_eq_ok.mp h
      cases outcome' with
      | accepted => cases hn : candidate.metadata.nonce <;> simp_all
      | optional => cases hn : candidate.metadata.nonce <;> simp_all
      | rejected rejection => exact absurd rfl (hrejected rejection)
    · simp at h

theorem verifyCandidate_eq_ok {candidate : EligibleCandidate} {position : ℕ}
    {result : VerifiedCandidate}
    (h : verifyCandidate candidate (OrderedMap.lookup outcomes position) now = .ok result) :
    VerifiedFrom outcomes now position candidate result := by
  simp only [verifyCandidate, bind_eq_ok, pure_eq_ok] at h
  obtain ⟨_, hcheck, outcome, houtcome, rfl⟩ := h
  obtain ⟨hprotected, haccepted⟩ := requireOutcome_eq_ok houtcome
  exact ⟨by rw [hprotected], hcheck, haccepted⟩

theorem candidateResult_eq_verified {candidate : EligibleCandidate}
    {x : Except ProfileError VerifiedCandidate} {result : VerifiedCandidate}
    (h : candidateResult candidate x = .ok (.verified result)) : x = .ok result := by
  unfold candidateResult at h
  split at h
  · rw [CandidateResult.verified.inj (pure_eq_ok.mp h)]
  · split at h
    · cases pure_eq_ok.mp h
    · simp at h

theorem finalCandidate_eq_verified {evaluation : CandidateEvaluation × ℕ}
    {result : VerifiedCandidate}
    (h : finalCandidate lost outcomes now evaluation = .ok (.verified result)) :
    ∃ candidate, evaluation.1 = .eligible candidate ∧
      VerifiedFrom outcomes now evaluation.2 candidate result := by
  unfold finalCandidate at h
  split at h
  · cases pure_eq_ok.mp h
  · cases pure_eq_ok.mp h
  · rename_i candidate heligible _
    exact ⟨candidate, heligible, verifyCandidate_eq_ok (candidateResult_eq_verified h)⟩

/-- An aggregate has the candidates that it aggregates. -/
theorem aggregate_candidates {r : VerificationResult} (h : aggregate candidates rule = .ok r) :
    r.candidates = candidates := by
  unfold aggregate at h
  simp only at h
  split at h
  · obtain rfl := pure_eq_ok.mp h
    rfl
  · split at h
    · simp at h
    · obtain rfl := pure_eq_ok.mp h
      rfl

/-- A verified candidate of a final result comes from the eligible one at its position. -/
theorem finalResult_verified {r : VerificationResult} {v : VerifiedCandidate} {position : ℕ}
    (h : finalResult rule evaluations lost outcomes now = .ok r)
    (hv : r.candidates[position]? = some (.verified v)) :
    ∃ candidate, evaluations[position]? = some (.eligible candidate) ∧
      VerifiedFrom outcomes now position candidate v := by
  simp only [finalResult, bind_eq_ok] at h
  obtain ⟨results, hresults, h⟩ := h
  rw [aggregate_candidates h] at hv
  obtain ⟨⟨evaluation, position'⟩, hget, hfinal⟩ := getElem?_of_mapM hresults hv
  obtain ⟨candidate, heligible, hfrom⟩ := finalCandidate_eq_verified hfinal
  simp only [List.getElem?_zipIdx, Option.map_eq_some_iff, Prod.mk.injEq, zero_add] at hget
  obtain ⟨_, hget, rfl, rfl⟩ := hget
  simp only at heligible hfrom
  exact ⟨candidate, heligible ▸ hget, hfrom⟩

/-- No candidate of an ambiguous request is verified. -/
theorem ambiguousCandidate_unverified {evaluation : CandidateEvaluation} {v : VerifiedCandidate} :
    ambiguousCandidate now evaluation ≠ .ok (.verified v) := by
  intro h
  cases evaluation with
  | rejected => simp [ambiguousCandidate] at h
  | eligible candidate =>
    have hthrow := candidateResult_eq_verified h
    simp at hthrow

/-- An ambiguous request is not verified. -/
theorem ambiguousResult_unverified {r : VerificationResult}
    (h : ambiguousResult evaluations now = .ok r) : ¬ r.Verifies := by
  simp only [ambiguousResult, bind_eq_ok, pure_eq_ok] at h
  obtain ⟨results, hresults, rfl⟩ := h
  rintro (hverified | ⟨v, hv⟩)
  · simp [VerificationResult.isVerified] at hverified
  · obtain ⟨evaluation, -, h⟩ := exists_of_mem_mapM hresults hv
    exact ambiguousCandidate_unverified h

/-- A request whose handler has caught a failure is not verified. -/
theorem failedResult_unverified {selected : List ParsedSignature}
    {profile : Option WebBotAuthProfile} {e : ProfileError} {r : VerificationResult}
    (h : failedResult config selected profile evaluations e = .ok r) : ¬ r.Verifies := by
  unfold failedResult at h
  split at h
  · simp at h
  · obtain rfl := pure_eq_ok.mp h
    rintro (hverified | ⟨v, hv⟩)
    · simp [VerificationResult.isVerified] at hverified
    · obtain ⟨p, -, hv⟩ := List.mem_map.mp hv
      unfold failedCandidate at hv
      split at hv <;> cases hv

/-- An unsigned result verifies nothing. -/
theorem unsigned_unverified (reason : UnsignedCode) : ¬ (VerificationResult.unsigned reason).Verifies := by
  simp [VerificationResult.Verifies, VerificationResult.isVerified, VerificationResult.candidates]

end AgentSig.Profiles
