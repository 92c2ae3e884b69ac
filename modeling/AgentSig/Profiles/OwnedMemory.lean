import AgentSig.Profiles.AtMostOnce
import AgentSig.Profiles.MemoryReference
import AgentSig.Profiles.ResetAtomicity
import AgentSig.Profiles.SignedClaim
import AgentSig.Redis.ConsumeInput

/-!
# Owned memory

The store that a context owns validates what it is asked once more: the identity, the seconds, and
that time does not go back. What a verifier asks passes, in every epoch, so the store refuses a
request as unavailable only when it is full.

## Main definitions

* `evaluateFinding`: what the evaluation of an eligible candidate finds out
* `EvaluatedRun`: the runs of a context in which candidates are evaluated under its limits
* `StoreReady`: the store is ready for the seconds of the open epoch

## Main results

* `turn_dispatched`: where the input of a dispatch comes from
* `storeReady_run`: the store is ready in every state of a run, after resets too
* `dispatch_valid`: **the store validates every input that it is asked**
-/

namespace AgentSig.Profiles

open Commons Core StructuredFields

/-! ## Findings -/

/-- `assertSelectedKeyIdentity`, for the thumbprint of the selected key. -/
def assertSelectedKeyIdentity (keyid recomputed : Text) : Except ProfileError Text := do
  let identity ← validateProfileKeyId keyid
  require (identity = recomputed)
    (.metadata .keyIdMismatch "keyid must match the selected public key thumbprint")
  return recomputed

/-- What the evaluation of an eligible candidate finds out, where `recomputed` is the thumbprint of the
key that is selected. -/
def evaluateFinding (O : OriginPlatform) (config : EvaluationConfig) (request : RequestParts)
    (signature : ParsedSignature) (recomputed : Text) : Except ProfileError Finding := do
  let (claim, metadata) ← evaluateClaim O config request signature
  let thumbprint ← assertSelectedKeyIdentity metadata.keyid recomputed
  return ⟨metadata, thumbprint, claim.claimedUrl⟩

/-- A candidate is found eligible by evaluation under the limits of a context. -/
def FindsUnder (limits : ReplayLimits) (finding : Finding) : Prop :=
  ∃ (O : OriginPlatform) (config : EvaluationConfig) (request : RequestParts)
    (signature : ParsedSignature) (recomputed : Text), config.maxNonceBytes = limits.maxNonceBytes ∧
    evaluateFinding O config request signature recomputed = .ok finding

theorem FindsUnder.readUnder {limits : ReplayLimits} {finding : Finding}
    (h : FindsUnder limits finding) (config : EngineConfig) (profile : WebBotAuthProfile)
    (signature : ParsedSignature) :
    Redis.ReadUnder limits (eligibleCandidate config profile signature finding) := by
  obtain ⟨O, evaluation, request, signature', recomputed, hlimit, hfinding⟩ := h
  simp only [evaluateFinding, bind_eq_ok, pure_eq_ok] at hfinding
  obtain ⟨⟨claim, metadata⟩, hclaim, thumbprint, hthumbprint, rfl⟩ := hfinding
  obtain ⟨header, -, -, -, -, hmetadata⟩ := evaluateClaim_spec hclaim
  simp only [assertSelectedKeyIdentity, bind_eq_ok, require_eq_ok, exists_const, pure_eq_ok]
    at hthumbprint
  obtain ⟨identity, hidentity, rfl, rfl⟩ := hthumbprint
  rw [hlimit] at hmetadata
  refine ⟨⟨_, _, hmetadata⟩, ?_⟩
  exact (Redis.validThumbprint_of_validateProfileKeyId hidentity).1

/-- A step evaluates candidates under the limits of the context, if it evaluates any. -/
def Action.Evaluates {ω : Type} (limits : ReplayLimits) : Action ω → Prop
  | .call _ (.evaluated (.eligible finding)) => FindsUnder limits finding
  | _ => True

section Runs

variable {σ ω : Type} (A : Rounding) (store : ReplayStore σ ω) (configs : ℕ → EngineConfig)
  (limits : ReplayLimits)

/-- The runs of a context in which candidates are evaluated under its limits. -/
abbrev EvaluatedRun (policy : ClockPolicy) (first : ClockSample) (initial : σ) :
    List Event → System σ → Prop :=
  Run (fun s => ∃ controller, createSecurityContextController policy first = .ok controller ∧
    s = .init controller initial) fun s events t => ∃ action : Action ω, action.Evaluates limits ∧
      step A store configs s action = some (t, events)

variable {A store configs limits} {policy : ClockPolicy} {first : ClockSample} {initial : σ}
  {es fs : List Event} {s t : System σ}

theorem EvaluatedRun.engineRun
    (h : EvaluatedRun A store configs limits policy first initial es s) :
    EngineRun A store configs policy first initial es s := by
  induction h with
  | init hinit => exact .init hinit
  | step _ hstep ih =>
    obtain ⟨action, -, hstep⟩ := hstep
    exact ih.step ⟨action, hstep⟩

end Runs

/-! ## The candidates of a call -/

/-- The evaluations of a phase. -/
def Phase.evaluations : Phase → List CandidateEvaluation
  | .idle | .done => []
  | .evaluating _ evaluations => evaluations
  | .replaying _ loop | .consuming _ loop _ _ _ | .consumed _ loop _ _ _ => loop.evaluations

section Turns

variable {σ ω : Type} {A : Rounding} {store : ReplayStore σ ω} {config : EngineConfig} {i : ℕ}
  {call : Call} {loop : ReplayLoop} {s : Shared σ} {t : Turn σ} {phase : Phase}
  {evaluations : List CandidateEvaluation} {candidate : EligibleCandidate}

theorem endCall_evaluations {result : Except ProfileError VerificationResult} :
    (endCall config i call evaluations result s).phase.evaluations = [] := by
  unfold endCall
  dsimp only
  split <;> rfl

theorem completeCall_evaluations {sample : ClockSample}
    {result : ℤ → Except ProfileError VerificationResult} :
    (completeCall A config i call evaluations sample result s).phase.evaluations = [] := by
  unfold completeCall
  dsimp only
  split <;> exact endCall_evaluations

theorem startCall_evaluations {request : RequestParts} {sample : ClockSample} :
    (startCall A config i request sample s).phase.evaluations = [] := by
  unfold startCall
  split
  · rfl
  · rfl
  · dsimp only
    split
    · rfl
    · unfold readAgent
      dsimp only
      split <;> rfl

theorem dispatchGroup_evaluations {group : List Positioned} {choice : ω}
    {sample retry : ClockSample} :
    (dispatchGroup A store config i call loop group choice sample retry s).phase.evaluations =
      loop.evaluations := by
  unfold dispatchGroup
  dsimp only
  split
  · rfl
  · unfold dispatchAt
    split
    · rfl
    · dsimp only
      split
      · rfl
      · split
        · unfold askStore
          dsimp only
          split <;> rfl
        · rfl

theorem settleRound_evaluations {group ready : List Positioned}
    {result : Except ProfileError StoreOutcome} {sample : ClockSample} :
    (settleRound A config i call loop group ready result sample s).phase.evaluations =
        loop.evaluations ∨
      (settleRound A config i call loop group ready result sample s).phase.evaluations = [] := by
  have hreject (e : ProfileError) (s : Shared σ) :
      (rejectGroup config i call loop group e s).phase.evaluations = loop.evaluations ∨
        (rejectGroup config i call loop group e s).phase.evaluations = [] := by
    unfold rejectGroup
    split
    · exact .inl rfl
    · exact .inr endCall_evaluations
  unfold settleRound
  split
  · exact hreject _ _
  · dsimp only
    split
    · exact hreject _ _
    · exact .inl rfl

theorem mem_dropLost {lost : List (ℕ × RejectedCandidate)}
    (h : .eligible candidate ∈ dropLost lost evaluations) : .eligible candidate ∈ evaluations := by
  obtain ⟨⟨evaluation, position⟩, hmem, heq⟩ := List.mem_map.mp h
  dsimp only at heq
  split at heq
  · simp at heq
  · subst heq
    exact List.fst_mem_of_mem_zipIdx hmem

theorem endEvaluations_evaluations {checkEvidence : ℕ → Except ProfileError Unit}
    {sample : ClockSample} (h : .eligible candidate ∈
      (endEvaluations A config i call evaluations checkEvidence sample s).phase.evaluations) :
    .eligible candidate ∈ evaluations := by
  unfold endEvaluations at h
  split at h
  · rw [completeCall_evaluations] at h
    simp at h
  · split at h
    · rw [endCall_evaluations] at h
      simp at h
    · rename_i screened hscreened
      simp only [screenEvaluations, bind_eq_ok, pure_eq_ok] at hscreened
      obtain ⟨lost, -, rfl⟩ := hscreened
      exact mem_dropLost h

/-- The candidates of a call are those that were found eligible. -/
theorem turn_evaluations {action : CallAction ω} (h : turn A store config i s phase action = some t)
    (hmem : .eligible candidate ∈ t.phase.evaluations) :
    .eligible candidate ∈ phase.evaluations ∨ ∃ profile signature finding,
      action = .evaluated (.eligible finding) ∧
        candidate = eligibleCandidate config profile signature finding := by
  unfold turn at h
  split at h
  · obtain rfl := Option.some.inj h
    rw [startCall_evaluations] at hmem
    simp at hmem
  · obtain rfl := Option.some.inj h
    exact .inl hmem
  · rename_i call evaluations result
    obtain ⟨signature, -, rfl⟩ := Option.map_eq_some_iff.mp h
    unfold endEvaluation at hmem
    split at hmem
    · rename_i finding
      rcases List.mem_append.mp hmem with hmem | hmem
      · exact .inl hmem
      · obtain rfl := CandidateEvaluation.eligible.inj (List.mem_singleton.mp hmem)
        exact .inr ⟨_, _, finding, rfl, rfl⟩
    · rcases List.mem_append.mp hmem with hmem | hmem
      · exact .inl hmem
      · simp at hmem
    · rw [endCall_evaluations] at hmem
      simp at hmem
  · split at h
    · obtain rfl := Option.some.inj h
      exact .inl (endEvaluations_evaluations hmem)
    · simp at h
  · obtain rfl := Option.some.inj h
    rw [dispatchGroup_evaluations] at hmem
    exact .inl hmem
  · obtain rfl := Option.some.inj h
    exact .inl hmem
  · obtain rfl := Option.some.inj h
    rename_i call loop group ready result sample
    have hround : (settleRound A config i call loop group ready result sample s).phase.evaluations =
        loop.evaluations ∨ (settleRound A config i call loop group ready result sample s).phase.evaluations = [] :=
      settleRound_evaluations
    rcases hround with hsame | hnone
    · rw [hsame] at hmem
      exact .inl hmem
    · rw [hnone] at hmem
      simp at hmem
  · obtain rfl := Option.some.inj h
    unfold endGroups at hmem
    split at hmem
    · rw [endCall_evaluations] at hmem
      simp at hmem
    · rw [completeCall_evaluations] at hmem
      simp at hmem
  · simp at h

/-- Where the input of a dispatch comes from: the group that is next is prepared. -/
theorem turn_dispatched {action : CallAction ω} {j : ℕ} {lease : LeaseId}
    {input : ReplayConsumeInput} {members : List Positioned} {answer : StoreAnswer}
    (h : turn A store config i s phase action = some t)
    (hev : .dispatched j lease input members answer ∈ t.events) :
    ∃ call evaluations key group groups outcomes now p,
      phase = .replaying call ⟨evaluations, (key, group) :: groups, outcomes⟩ ∧
        prepareGroup now outcomes group = .ok p ∧ preparedInput config.scope now p = .ok input := by
  unfold turn at h
  split at h
  · obtain rfl := Option.some.inj h
    exact absurd rfl (store_startCall.2 _ hev j)
  · obtain rfl := Option.some.inj h
    simp at hev
  · obtain ⟨signature, -, rfl⟩ := Option.map_eq_some_iff.mp h
    unfold endEvaluation at hev
    split at hev
    · simp at hev
    · simp at hev
    · exact absurd rfl (store_endCall.2 _ hev j)
  · split at h
    · obtain rfl := Option.some.inj h
      unfold endEvaluations at hev
      split at hev
      · exact absurd rfl (store_completeCall.2 _ hev j)
      · split at hev
        · exact absurd rfl (store_endCall.2 _ hev j)
        · simp at hev
    · simp at h
  · rename_i call evaluations key group groups outcomes choice sample retry
    obtain rfl := Option.some.inj h
    refine ⟨call, evaluations, key, group, groups, outcomes, ?_⟩
    unfold dispatchGroup at hev
    dsimp only at hev
    split at hev
    · simp [refuseGroup] at hev
    · rename_i now _
      unfold dispatchAt at hev
      split at hev
      · simp [refuseGroup] at hev
      · rename_i p hp
        dsimp only at hev
        split at hev
        · simp [refuseGroup] at hev
        · rename_i input' hinput
          refine ⟨now, p, rfl, hp, ?_⟩
          split at hev
          · unfold askStore at hev
            dsimp only at hev
            split at hev
            · rw [hinput, (Event.dispatched.inj (List.mem_singleton.mp hev)).2.2.1]
            · rw [hinput, (Event.dispatched.inj (List.mem_singleton.mp hev)).2.2.1]
          · simp [refuseGroup] at hev
  · obtain rfl := Option.some.inj h
    simp [receiveAnswer] at hev
  · obtain rfl := Option.some.inj h
    unfold settleRound at hev
    split at hev
    · exact absurd rfl (store_rejectGroup.2 _ hev j)
    · dsimp only at hev
      split at hev
      · exact absurd rfl (store_rejectGroup.2 _ hev j)
      · simp at hev
  · obtain rfl := Option.some.inj h
    unfold endGroups at hev
    split at hev
    · exact absurd rfl (store_endCall.2 _ hev j)
    · exact absurd rfl (store_completeCall.2 _ hev j)
  · simp at h

end Turns

section Candidates

variable {σ ω : Type} {A : Rounding} {store : ReplayStore σ ω} {configs : ℕ → EngineConfig}
  {limits : ReplayLimits} {policy : ClockPolicy} {first : ClockSample} {initial : σ}
  {es fs : List Event} {s t : System σ}

/-- The candidates of every call are read under the limits. -/
def CandidatesRead (limits : ReplayLimits) (s : System σ) : Prop :=
  ∀ i candidate, .eligible candidate ∈ (s.calls i).evaluations → Redis.ReadUnder limits candidate

theorem candidatesRead_step {action : Action ω} (h : CandidatesRead limits s)
    (haction : action.Evaluates limits) (hstep : step A store configs s action = some (t, fs)) :
    CandidatesRead limits t := by
  cases action with
  | call i action =>
    obtain ⟨turn, hturn, heq⟩ := Option.map_eq_some_iff.mp hstep
    obtain ⟨rfl, -⟩ := Prod.mk.inj heq
    intro j candidate hmem
    dsimp only at hmem
    by_cases hj : j = i
    · subst hj
      rw [Function.update_self] at hmem
      rcases turn_evaluations hturn hmem with hmem | ⟨profile, signature, finding, rfl, rfl⟩
      · exact h j candidate hmem
      · exact FindsUnder.readUnder haction (configs j) profile signature
    · rw [Function.update_of_ne hj] at hmem
      exact h j candidate hmem
  | reset action =>
    obtain ⟨turn, -, heq⟩ := Option.map_eq_some_iff.mp hstep
    obtain ⟨rfl, -⟩ := Prod.mk.inj heq
    exact h

theorem candidatesRead_run (h : EvaluatedRun A store configs limits policy first initial es s) :
    CandidatesRead limits s := by
  induction h with
  | init hinit =>
    obtain ⟨controller, -, rfl⟩ := hinit
    intro i candidate hmem
    simp [System.init, Phase.evaluations] at hmem
  | step _ hstep ih =>
    obtain ⟨action, haction, hstep⟩ := hstep
    exact candidatesRead_step ih haction hstep

/-- What a store is asked is well formed under the limits of the context. -/
theorem dispatch_validInput {limits : ProfileLimits} {action : Action ω} {i : ℕ} {lease : LeaseId}
    {input : ReplayConsumeInput} {members : List Positioned} {answer : StoreAnswer}
    (hscope : ∀ i, limits.replay.admitsScope (configs i).scope)
    (hrun : EvaluatedRun A store configs limits.replay policy first initial es s)
    (hstep : step A store configs s action = some (t, fs))
    (hev : .dispatched i lease input members answer ∈ fs) :
    MemoryReplayStore.validInput limits.replay input := by
  have hread := candidatesRead_run hrun
  have hsystem := systemOf_run hrun.engineRun
  cases action with
  | reset action =>
    obtain ⟨turn, hturn, heq⟩ := Option.map_eq_some_iff.mp hstep
    obtain ⟨-, rfl⟩ := Prod.mk.inj heq
    exact absurd ((resetTurn_cases hturn).call?_eq hev) (by simp [Event.call?])
  | call j action =>
    obtain ⟨turn, hturn, heq⟩ := Option.map_eq_some_iff.mp hstep
    obtain ⟨-, rfl⟩ := Prod.mk.inj heq
    obtain ⟨call, evaluations, key, group, groups, outcomes, now, p, hphase, hp, hinput⟩ :=
      turn_dispatched hturn hev
    have hloop : LoopOf es (configs j) j call ⟨evaluations, (key, group) :: groups, outcomes⟩ := by
      have hphases := hsystem.phases j
      rw [hphase] at hphases
      exact hphases
    have hgroup := hloop.groups (key, group) List.mem_cons_self
    refine Redis.validInput_preparedInput (hscope j) (fun m hm => ?_) (fun m hm => (hgroup m hm).1) hp
      hinput
    refine hread j m.2 ?_
    rw [hphase]
    exact List.mem_of_getElem? (eligibleCandidates_spec.mp (hgroup m hm).2)

end Candidates

/-! ## The store -/

section Store

variable {A : Rounding} {replay : ReplayPolicy} {limits : ReplayLimits} {configs : ℕ → EngineConfig}
  {policy : ClockPolicy} {first : ClockSample} {es fs : List Event} {s t : System MemoryReplayStore}

theorem ClockTracker.second_nonneg {tracker : ClockTracker} (h : 0 ≤ tracker.wallMs) :
    0 ≤ tracker.second A := by
  have hzero : A.round 0 = 0 := by simpa using A.integer 0 (Nat.zero_le _)
  have hround {x : ℚ} (hx : 0 ≤ x) : 0 ≤ A.round x := hzero ▸ A.monotone hx
  have helapsed := hround (sub_nonneg.mpr tracker.reference_le)
  refine Int.floor_nonneg.mpr (hround ?_)
  have heffective : 0 ≤ tracker.effective A tracker.previousMonotonicMs := hround (by linarith)
  positivity

theorem wallMs_create {reference : ClockSample} {tracker : ClockTracker}
    (h : createClockTracker policy reference = .ok tracker) : 0 ≤ tracker.wallMs := by
  unfold createClockTracker at h
  split at h
  · rename_i wall monotonic hwall _
    obtain rfl := pure_eq_ok.mp h
    simpa using (Option.filter_eq_some_iff.mp hwall).2
  · simp at h

/-- The store is ready for the seconds of the open epoch: time has not gone back since it was last
asked. While a reset clears it, it is empty. -/
structure StoreReady (A : Rounding) (replay : ReplayPolicy) (s : System MemoryReplayStore) : Prop where
  consistent : s.shared.store.Consistent replay
  last_le : s.shared.controller.epochs.activeEpoch.isSome →
    s.shared.store.lastNow ≤ s.shared.controller.tracker.second A
  cleared : ∀ reason oldEpoch invalidated replacement cleanup,
    s.reset = some (.clearing reason oldEpoch invalidated replacement cleanup) →
      s.shared.store = .empty ∧ 0 ≤ replacement.wallMs

/-- A reset leaves the owned store alone, or begins to clear it. Only a reset that has cleared it opens
an epoch. -/
theorem resetTurn_store {shared : Shared MemoryReplayStore} {reset : Option ResetPhase}
    {action : ResetAction Unit} {turn : ResetTurn MemoryReplayStore}
    (h : resetTurn A (ownedMemoryStore replay limits) shared reset action = some turn) :
    (turn.shared.store = shared.store ∧ (∀ reason oldEpoch invalidated replacement cleanup,
        turn.reset = some (.clearing reason oldEpoch invalidated replacement cleanup) →
          reset = turn.reset) ∧
      ∀ epoch, .activated epoch ∈ turn.events → ∃ reason oldEpoch invalidated replacement cleanup,
        reset = some (.clearing reason oldEpoch invalidated replacement cleanup)) ∨
    turn.shared.store = .empty ∧ turn.shared.controller.epochs.activeEpoch = none ∧
      ∃ reason oldEpoch invalidated replacement cleanup,
        turn.reset = some (.clearing reason oldEpoch invalidated replacement cleanup) ∧
          0 ≤ replacement.wallMs := by
  unfold resetTurn at h
  split at h
  · obtain rfl := Option.some.inj h
    refine .inl ?_
    unfold startReset
    dsimp only
    split
    · exact ⟨rfl, fun _ _ _ _ _ _ => rfl, by simp⟩
    · rename_i phase hphase
      refine ⟨rfl, fun reason oldEpoch invalidated replacement cleanup hclearing => ?_, by simp⟩
      -- A reset starts with its first phase.
      obtain rfl := Option.some.inj hclearing
      unfold Controller.startReset at hphase
      split at hphase
      · simp at hphase
      · split at hphase
        · simp at hphase
        · split at hphase <;> simp at hphase
  · rename_i reason oldEpoch choice sample final
    obtain rfl := Option.some.inj h
    unfold prepareReset
    split
    · exact .inl ⟨rfl, by simp, by simp⟩
    · rename_i replacement hreplacement
      unfold closeEpoch
      dsimp only
      split
      · refine .inr ⟨rfl, ?_, reason, oldEpoch, _, replacement, _, rfl, wallMs_create hreplacement⟩
        exact OperationEpochs.invalidate_activeEpoch
      · refine .inl ⟨rfl, by simp [endReset], ?_⟩
        intro epoch hepoch
        have hresets := Controller.failReset_resets
          (shared.controller.withEpochs shared.controller.epochs.invalidate.2)
          (ownedMemoryStore replay limits).retentionClock reason oldEpoch Controller.noCounts
          shared.controller.epochs.invalidate.1
        have hclosed := congrArg OperationEpochs.activeEpoch hresets.epochs
        rw [OperationEpochs.invalidate_activeEpoch] at hclosed
        have hevents := congrArg (fun events => Event.sampled sample :: .invalidated :: events)
          (endReset_failed (s := shared.withController
            (shared.controller.withEpochs shared.controller.epochs.invalidate.2)) hclosed)
        have hmem := hevents ▸ hepoch
        simp at hmem
  · rename_i reason oldEpoch invalidated replacement cleanup sample
    obtain rfl := Option.some.inj h
    exact .inl ⟨rfl, by simp [endReset], fun _ _ => ⟨_, _, _, _, _, rfl⟩⟩
  · simp at h

theorem MemoryReplayStore.Consistent.consume {store : MemoryReplayStore}
    (h : store.Consistent replay) (input : ReplayConsumeInput) :
    (store.consume replay limits input).1.Consistent replay := by
  unfold MemoryReplayStore.consume
  split
  · exact (MemoryReplayStore.insert_consistent (h.withLastNow _).expire _).1
  · exact h

theorem StoreReady.call {i : ℕ} {action : CallAction Unit} (hsystem : SystemOf configs es s)
    (hgated : Gated s) (h : StoreReady A replay s)
    (hstep : step A (ownedMemoryStore replay limits) configs s (.call i action) = some (t, fs)) :
    StoreReady A replay t := by
  obtain ⟨turn, hturn, heq⟩ := Option.map_eq_some_iff.mp hstep
  obtain ⟨rfl, rfl⟩ := Prod.mk.inj heq
  have hcontinues := (turn_turnOf (hsystem.phases i) hturn).continues
  rcases turn_store hturn with ⟨hstore, -⟩ | hasks
  · refine ⟨?_, fun hactive => ?_, ?_⟩
    · simpa only [hstore] using h.consistent
    · dsimp only at hactive ⊢
      rw [hcontinues.epochs.activeEpoch] at hactive
      rw [hstore]
      exact (h.last_le hactive).trans hcontinues.second_le
    · simpa only [hstore] using h.cleared
  · obtain ⟨⟨lease, input, members, choice, -, hstore, -, hsecond⟩, hopen⟩ := hasks
    have hactive : s.shared.controller.epochs.activeEpoch.isSome := by
      simp only [Controller.isOpen, Bool.and_eq_true] at hopen
      exact hopen.2
    have hstore' : turn.shared.store = (s.shared.store.consume replay limits input).1 := hstore
    refine ⟨?_, fun _ => ?_, ?_⟩
    · dsimp only
      rw [hstore']
      exact h.consistent.consume input
    · dsimp only
      rw [hstore']
      rcases (MemoryReplayStore.consume_spec replay limits s.shared.store input).2.2 with hlast | hlast
      · exact hlast.le.trans ((h.last_le hactive).trans hcontinues.second_le)
      · exact hlast.le.trans hsecond
    · -- A reset that clears the store keeps the context busy, and a busy context asks nothing.
      intro reason oldEpoch invalidated replacement cleanup hclearing
      have hbusy : s.shared.controller.busy = true := by
        rw [hgated.busy, show s.reset = _ from hclearing]
        rfl
      rw [Controller.isOpen_of_busy hbusy] at hopen
      exact absurd hopen Bool.false_ne_true

theorem StoreReady.reset {action : ResetAction Unit} (h : StoreReady A replay s)
    (hstep : step A (ownedMemoryStore replay limits) configs s (.reset action) = some (t, fs)) :
    StoreReady A replay t := by
  obtain ⟨turn, hturn, heq⟩ := Option.map_eq_some_iff.mp hstep
  obtain ⟨rfl, rfl⟩ := Prod.mk.inj heq
  have hcases := resetTurn_cases hturn
  rcases resetTurn_store hturn with ⟨hstore, hkept, hactivated⟩ |
    ⟨hempty, hclosed, reason, oldEpoch, invalidated, replacement, cleanup, hclearing, hwall⟩
  · refine ⟨?_, fun hactive => ?_, ?_⟩
    · simpa only [hstore] using h.consistent
    · dsimp only at hactive ⊢
      rw [hstore]
      by_cases hcommit : ∃ epoch, .activated epoch ∈ turn.events
      · -- The store was cleared before the epoch opens, and no second is negative.
        obtain ⟨epoch, hepoch⟩ := hcommit
        obtain ⟨reason, oldEpoch, invalidated, replacement, cleanup, hclearing⟩ :=
          hactivated epoch hepoch
        obtain ⟨hempty, hwall⟩ := h.cleared _ _ _ _ _ hclearing
        rw [hempty]
        generalize hreset : s.reset = reset at hcases
        cases hcases with
        | succeeded epoch' replacement' tracker closing reference events reset_eq resets =>
          cases closing with
          | atOnce => simp [hclearing] at hreset
          | cleaned =>
            obtain ⟨epochs, epochs', -, -, -, hresets⟩ := resets
            rw [hclearing] at hreset
            obtain ⟨-, -, -, rfl, -⟩ := ResetPhase.clearing.inj (Option.some.inj hreset)
            rw [hresets.tracker]
            exact ClockTracker.second_nonneg ((congrArg Prod.fst reference).ge.trans' hwall)
        | failed replacement closing events reset_eq resets =>
          obtain ⟨epochs, -, hresets⟩ := resets
          rw [hresets.epochs, OperationEpochs.invalidate_activeEpoch] at hactive
          exact absurd hactive Bool.false_ne_true
        | _ => simp_all
      · push Not at hcommit
        obtain ⟨hactive, -, hle⟩ := hcases.open_of_open hcommit hactive
        exact (h.last_le hactive).trans hle
    · intro reason oldEpoch invalidated replacement cleanup hclearing
      dsimp only at hclearing ⊢
      rw [hstore]
      exact h.cleared _ _ _ _ _ ((hkept _ _ _ _ _ hclearing).trans hclearing)
  · refine ⟨?_, fun hactive => ?_, ?_⟩
    · simpa only [hempty] using MemoryReplayStore.consistent_empty replay
    · dsimp only at hactive
      rw [hclosed] at hactive
      exact absurd hactive Bool.false_ne_true
    · intro reason' oldEpoch' invalidated' replacement' cleanup' hclearing'
      dsimp only at hclearing' ⊢
      rw [hclearing] at hclearing'
      obtain ⟨-, -, -, rfl, -⟩ := ResetPhase.clearing.inj (Option.some.inj hclearing')
      exact ⟨hempty, hwall⟩

/-- The store of a context is ready in every state of a run. -/
theorem storeReady_run
    (h : EngineRun A (ownedMemoryStore replay limits) configs policy first .empty es s) :
    StoreReady A replay s := by
  induction h with
  | init hinit =>
    obtain ⟨controller, hcontroller, rfl⟩ := hinit
    simp only [createSecurityContextController, bind_eq_ok, pure_eq_ok] at hcontroller
    obtain ⟨tracker, htracker, rfl⟩ := hcontroller
    refine ⟨MemoryReplayStore.consistent_empty replay, fun _ => ?_, fun _ _ _ _ _ hclearing => ?_⟩
    · exact ClockTracker.second_nonneg (wallMs_create htracker)
    · simp [System.init] at hclearing
  | step hrun hstep ih =>
    obtain ⟨action, hstep⟩ := hstep
    cases action with
    | call i action => exact ih.call (systemOf_run hrun) (gated_run hrun) hstep
    | reset action => exact ih.reset hstep

/-- A store is full when it refuses an input that it validates. -/
theorem MemoryReplayStore.full_of_unavailable {store : MemoryReplayStore} {input : ReplayConsumeInput}
    (h : store.Consistent replay) (hvalid : store.valid limits input)
    (hrefused : (store.consume replay limits input).2 = .unavailable) :
    (store.entries.filter (isLive input.nowEpochSeconds)).length = replay.capacity := by
  have hlast := h.withLastNow input.nowEpochSeconds
  generalize hstore : ({ store with lastNow := input.nowEpochSeconds } : MemoryReplayStore) = last at hlast
  have hentries : last.entries = store.entries := by rw [← hstore]
  have hlive : (last.expire input.nowEpochSeconds).entries =
      last.entries.filter (isLive input.nowEpochSeconds) := expire_entries hlast
  have hcapacity : (last.expire input.nowEpochSeconds).entries.length ≤ replay.capacity := hlast.expire.capacity
  rw [consume, if_pos hvalid] at hrefused
  unfold insert at hrefused
  rw [hstore] at hrefused
  dsimp only at hrefused
  rw [← hentries, ← hlive]
  split at hrefused
  · simp at hrefused
  · split at hrefused
    · simp at hrefused
    · split at hrefused
      · rename_i hfull
        exact le_antisymm hcapacity hfull
      · simp at hrefused

/-- **Every input that the owned store is asked passes its validation, in every epoch.** So it answers
that it is unavailable only when it is full of records that are live. -/
theorem dispatch_valid (A : Rounding) (replay : ReplayPolicy) (limits : ProfileLimits)
    (configs : ℕ → EngineConfig) (policy : ClockPolicy) (first : ClockSample)
    (hscope : ∀ i, limits.replay.admitsScope (configs i).scope)
    {es fs : List Event} {s t : System MemoryReplayStore}
    (hrun : EvaluatedRun A (ownedMemoryStore replay limits.replay) configs limits.replay policy first
      .empty es s) {action : Action Unit}
    (hstep : step A (ownedMemoryStore replay limits.replay) configs s action = some (t, fs)) {i : ℕ}
    {lease : LeaseId} {input : ReplayConsumeInput} {members : List Positioned} {answer : StoreAnswer}
    (hev : .dispatched i lease input members answer ∈ fs) :
    s.shared.store.valid limits.replay input ∧
      (answer = .outcome .unavailable →
        (s.shared.store.entries.filter
          (MemoryReplayStore.isLive input.nowEpochSeconds)).length = replay.capacity) := by
  have hinput := dispatch_validInput hscope hrun hstep hev
  have hready := storeReady_run hrun.engineRun
  cases action with
  | reset action =>
    obtain ⟨turn, hturn, heq⟩ := Option.map_eq_some_iff.mp hstep
    obtain ⟨-, rfl⟩ := Prod.mk.inj heq
    exact absurd ((resetTurn_cases hturn).call?_eq hev) (by simp [Event.call?])
  | call j action =>
    obtain ⟨turn, hturn, heq⟩ := Option.map_eq_some_iff.mp hstep
    obtain ⟨-, rfl⟩ := Prod.mk.inj heq
    rcases turn_store hturn with ⟨-, hsilent⟩ | hasks
    · exact absurd rfl (hsilent _ hev i)
    · obtain ⟨⟨lease', input', members', choice, hevents, -, hsecond, -⟩, hopen⟩ := hasks
      rw [hevents] at hev
      obtain ⟨-, -, rfl, -, rfl⟩ := Event.dispatched.inj (List.mem_singleton.mp hev)
      have hactive : s.shared.controller.epochs.activeEpoch.isSome := by
        simp only [Controller.isOpen, Bool.and_eq_true] at hopen
        exact hopen.2
      have hvalid : s.shared.store.valid limits.replay input := by
        simp only [MemoryReplayStore.valid, Bool.decide_and, Bool.and_eq_true, decide_eq_true_eq]
        exact ⟨hinput, (hready.last_le hactive).trans hsecond⟩
      refine ⟨hvalid, fun hrefused => ?_⟩
      exact MemoryReplayStore.full_of_unavailable hready.consistent hvalid
        (StoreAnswer.outcome.inj hrefused)

end Store

/-! ## A dispatch -/

/-- A list of actions that evaluate under the limits continues a run. -/
theorem evaluatedRun_of_runActions {σ ω : Type} {A : Rounding} {store : ReplayStore σ ω}
    {configs : ℕ → EngineConfig} {limits : ReplayLimits} {policy : ClockPolicy} {first : ClockSample}
    {initial : σ} {es fs : List Event} {s t : System σ} {actions : List (Action ω)}
    (h : EvaluatedRun A store configs limits policy first initial es s)
    (hactions : runActions A store configs actions s es = some (t, fs))
    (hevaluates : ∀ action ∈ actions, action.Evaluates limits) :
    EvaluatedRun A store configs limits policy first initial fs t := by
  induction actions generalizing s es with
  | nil =>
    obtain ⟨rfl, rfl⟩ := Prod.mk.inj (Option.some.inj hactions)
    exact h
  | cons action rest ih =>
    obtain ⟨⟨t', es'⟩, hstep, hrest⟩ := Option.bind_eq_some_iff.mp hactions
    exact ih (h.step ⟨action, hevaluates action List.mem_cons_self, hstep⟩) hrest
      fun action hmem => hevaluates action (List.mem_cons_of_mem _ hmem)

/-- A signature whose evaluation finds `exampleFinding`. -/
def exampleSignature : ParsedSignature :=
  { twoLabelSignature "sig1" with
    input := { (twoLabelSignature "sig1").input with
      parameters := [(ascii "created", .integer (.integer 9)),
        (ascii "expires", .integer (.integer 60)), (ascii "keyid", .string zeroThumbprint),
        (ascii "nonce", .string (ascii "bm9uY2U")), (ascii "tag", webBotAuth)] } }

theorem exampleFinding_findsUnder : FindsUnder DEFAULT_PROFILE_LIMITS.replay exampleFinding :=
  ⟨spelledOrigins, twoLabelConfig, twoLabelRequest "sig1", exampleSignature, zeroThumbprint, rfl,
    by decide +kernel⟩

/-- The run of the first steps of `exampleActions`, and its next step. -/
def exampleDispatch : Option ((System MemoryReplayStore × List Event) ×
    System MemoryReplayStore × List Event) := do
  let store := ownedMemoryStore ⟨10, 10⟩ DEFAULT_PROFILE_LIMITS.replay
  let controller ← (createSecurityContextController exampleClockPolicy exampleSample).toOption
  let ready ← runActions .exact store (fun _ => exampleConfig) (exampleActions.take 3)
    (.init controller .empty) []
  let dispatched ← step .exact store (fun _ => exampleConfig) ready.1
    (.call 0 (.dispatch () exampleSample exampleSample))
  return (ready, dispatched)

/-- The input of a dispatch. -/
def Event.input? : Event → Option ReplayConsumeInput
  | .dispatched _ _ input _ _ => some input
  | _ => none

theorem dispatch_valid_exampleActions : ∃ (s : System MemoryReplayStore) (input : ReplayConsumeInput),
    input.nowEpochSeconds = 10 ∧ s.shared.store.valid DEFAULT_PROFILE_LIMITS.replay input := by
  have hdispatch : (exampleDispatch.any fun r =>
      r.2.2.any fun ev => ev.input?.any (·.nowEpochSeconds = 10)) = true := by decide +kernel
  obtain ⟨⟨⟨s, es⟩, t, fs⟩, hsome, hany⟩ := (Option.any_eq_true _ _).mp hdispatch
  obtain ⟨ev, hev, hinput⟩ := List.any_eq_true.mp hany
  obtain ⟨input, hread, hnow⟩ := (Option.any_eq_true _ _).mp hinput
  simp only [exampleDispatch, Option.bind_eq_bind, Option.bind_eq_some_iff, Option.pure_def,
    Option.some.injEq, Prod.mk.injEq] at hsome
  obtain ⟨controller, hcontroller, ready, hready, dispatched, hstep, rfl, rfl⟩ := hsome
  have hcreated : createSecurityContextController exampleClockPolicy exampleSample =
      .ok controller := by
    cases h : createSecurityContextController exampleClockPolicy exampleSample with
    | ok created =>
      rw [h] at hcontroller
      exact congrArg Except.ok (Option.some.inj hcontroller)
    | error => simp [h, Except.toOption] at hcontroller
  have hrun : EvaluatedRun .exact (ownedMemoryStore ⟨10, 10⟩ DEFAULT_PROFILE_LIMITS.replay)
      (fun _ => exampleConfig) DEFAULT_PROFILE_LIMITS.replay exampleClockPolicy exampleSample .empty
      es s := by
    refine evaluatedRun_of_runActions (.init ⟨controller, hcreated, rfl⟩) hready ?_
    simp [exampleActions, Action.Evaluates, exampleFinding_findsUnder]
  cases ev with
  | dispatched i lease input' members answer =>
    obtain rfl := Option.some.inj hread
    exact ⟨s, input', by simpa using hnow, (dispatch_valid .exact ⟨10, 10⟩ DEFAULT_PROFILE_LIMITS
      (fun _ => exampleConfig) exampleClockPolicy exampleSample (fun _ => by decide) hrun hstep hev).1⟩
  | _ => simp [Event.input?] at hread

end AgentSig.Profiles
