import AgentSig.Profiles.EngineRuns

/-!
# No verification outlives a reset

The lease of a call is current at the call's final gate, so no reset has closed its epoch since the
call began. That gate also reads the clock, and every verified candidate passes its check again at
the second shown there.

## Main definitions

* `AtGate`: a verified result at the final gate of its call

## Main results

* `exists_atGate`: every verified result passed the final gate
* `verified_within_epoch`: **a verified result stands on an open epoch, a healthy clock and the store**
-/

namespace AgentSig.Profiles

open Commons Core StructuredFields

variable {σ ω : Type} {A : Rounding} {store : ReplayStore σ ω} {configs : ℕ → EngineConfig}
  {policy : ClockPolicy} {first : ClockSample} {initial : σ} {es fs : List Event} {s t : System σ}

/-! ## The final gate -/

variable {i : ℕ} {request : RequestParts} {evaluations : List CandidateEvaluation}
  {failure : Option ProfileError} {r : VerificationResult}

/-- A verified result was returned by a turn through the final gate of its call. -/
structure AtGate {σ : Type} (A : Rounding) (configs : ℕ → EngineConfig) (i : ℕ)
    (evaluations : List CandidateEvaluation) (r : VerificationResult) (returned : Event)
    (es pre : List Event) (t : System σ) (call : Call) (sample : ClockSample) (now : ℤ) : Prop where
  events : ∃ post, es = pre ++ .completed i call.lease sample now :: returned :: post
  system : SystemOf configs pre t
  completed : (t.shared.controller.completeOperation A call.lease sample).2 = .ok now
  result : ∃ outcomes lost, t.calls i = .replaying call ⟨evaluations, [], outcomes⟩ ∧
    finalResult (configs i).aggregate evaluations lost outcomes now = .ok r

/-- Every verified result of a run passed the final gate of its call. -/
theorem exists_atGate (h : EngineRun A store configs policy first initial es s)
    (hreturned : .returned i request evaluations failure (.ok r) ∈ es) (hverified : r.Verifies) :
    ∃ pre t call sample now, EngineRun A store configs policy first initial pre t ∧
      AtGate A configs i evaluations r (.returned i request evaluations failure (.ok r)) es pre t call
        sample now := by
  obtain ⟨pre, fs, post, t, t', rfl, hpre, ⟨action, hstep⟩, hmem, -⟩ := h.exists_step hreturned
  have hsystem := systemOf_run hpre
  cases action with
  | reset action =>
    obtain ⟨turn, hturn, heq⟩ := Option.map_eq_some_iff.mp hstep
    obtain ⟨-, rfl⟩ := Prod.mk.inj heq
    have hcall := (resetTurn_cases hturn).call?_eq hmem
    simp [Event.call?] at hcall
  | call j action =>
    obtain ⟨turn, hturn, heq⟩ := Option.map_eq_some_iff.mp hstep
    obtain ⟨-, rfl⟩ := Prod.mk.inj heq
    have hturnOf := turn_turnOf (hsystem.phases j) hturn
    obtain rfl : i = j := Option.some.inj (hturnOf.events _ hmem).1
    obtain ⟨call, sample, now, hgate⟩ := turn_verified hturn hmem hverified
    exact ⟨pre, t, call, sample, now, hpre, ⟨post, by simp [hgate.events]⟩, hsystem,
      hgate.completed, hgate.result⟩

/-- What the calls at the final gate know. -/
theorem AtGate.loopOf {returned : Event} {pre : List Event} {call : Call} {sample : ClockSample}
    {now : ℤ} (h : AtGate A configs i evaluations r returned es pre t call sample now) :
    ∃ outcomes lost, LoopOf pre (configs i) i call ⟨evaluations, [], outcomes⟩ ∧
      finalResult (configs i).aggregate evaluations lost outcomes now = .ok r := by
  obtain ⟨outcomes, lost, hphase, hresult⟩ := h.result
  have hloop := h.system.phases i
  rw [hphase] at hloop
  exact ⟨outcomes, lost, hloop, hresult⟩

/-- A verified candidate that has a nonce was accepted for its call. -/
theorem AtGate.dispatched {returned : Event} {pre : List Event} {call : Call} {sample : ClockSample}
    {now : ℤ} (h : AtGate A configs i evaluations r returned es pre t call sample now)
    {v : VerifiedCandidate} {position : ℕ} (hv : r.candidates[position]? = some (.verified v)) :
    ∃ candidate, evaluations[position]? = some (.eligible candidate) ∧
      v = ⟨candidate.label, candidate.profile, candidate.thumbprint, candidate.claimedAgent,
        candidate.coveredComponents, now, candidate.metadata.nonce.isSome⟩ ∧
      candidate.time.check candidate.metadata.created candidate.metadata.expires now = .ok () ∧
      (candidate.metadata.nonce ≠ none → ∃ input members,
        .dispatched i call.lease input members (.outcome .accepted) ∈ pre ∧
          (position, candidate) ∈ members) := by
  obtain ⟨outcomes, lost, hloop, hresult⟩ := h.loopOf
  obtain ⟨candidate, heligible, hfrom⟩ := finalResult_verified hresult hv
  refine ⟨candidate, heligible, hfrom.fields, hfrom.check, fun hnonce => ?_⟩
  obtain ⟨input, members, ⟨position', candidate'⟩, hdispatched, hmem, rfl, heligible'⟩ :=
    hloop.accepted position (hfrom.accepted hnonce)
  have hcandidate := eligibleCandidates_spec.mp heligible'
  simp only at hcandidate
  rw [heligible] at hcandidate
  obtain rfl := CandidateEvaluation.eligible.inj (Option.some.inj hcandidate)
  exact ⟨input, members, hdispatched, hmem⟩

/-- A verified result of a run began in the epoch that is open at its final gate, where the clock is
healthy; its candidates pass their checks there, and were accepted by the store if they have a
nonce, and never reached it otherwise. -/
theorem verified_within_epoch (A : Rounding) (store : ReplayStore σ ω) (configs : ℕ → EngineConfig)
    (policy : ClockPolicy) (first : ClockSample) (initial : σ) {es : List Event} {s : System σ}
    (hrun : EngineRun A store configs policy first initial es s) {i : ℕ} {request : RequestParts}
    {evaluations : List CandidateEvaluation} {failure : Option ProfileError} {r : VerificationResult}
    (hreturned : .returned i request evaluations failure (.ok r) ∈ es) (hverified : r.isVerified) :
    ∃ lease epoch pre mid sample now post t,
      es = pre ++ .begun i lease (some epoch) :: mid ++
        .completed i lease sample now :: .returned i request evaluations failure (.ok r) :: post ∧
      .invalidated ∉ mid ∧
      EngineRun A store configs policy first initial (pre ++ .begun i lease (some epoch) :: mid) t ∧
      t.shared.controller.epochs.activeEpoch = some epoch ∧
      (∃ tracker effective, t.shared.controller.tracker.observe A sample =
        (tracker, .healthy effective now)) ∧
      ∀ position v, r.candidates[position]? = some (.verified v) → ∃ candidate,
        evaluations[position]? = some (.eligible candidate) ∧
        v = ⟨candidate.label, candidate.profile, candidate.thumbprint, candidate.claimedAgent,
          candidate.coveredComponents, now, candidate.metadata.nonce.isSome⟩ ∧
        candidate.time.check candidate.metadata.created candidate.metadata.expires v.verifiedAt =
          .ok () ∧
        (candidate.metadata.nonce ≠ none → ∃ input members,
          .dispatched i lease input members (.outcome .accepted) ∈ mid ∧
            (position, candidate) ∈ members) ∧
        (candidate.metadata.nonce = none → ∀ lease' input members answer,
          .dispatched i lease' input members answer ∈ es → (position, candidate) ∉ members) := by
  obtain ⟨pre₀, t, call, sample, now, hpre, hgate⟩ := exists_atGate hrun hreturned (.inl hverified)
  obtain ⟨outcomes, lost, hloop, -⟩ := hgate.loopOf
  obtain ⟨pre, epoch, mid, rfl, hquiet⟩ := hloop.started.begun
  obtain ⟨x, rfl, -, ⟨l, hl, rfl⟩, hclosed⟩ := hgate.system.epochs pre mid i call.lease epoch rfl
  obtain ⟨post, hes⟩ := hgate.events
  -- The lease is current at the gate, so its epoch is the active one.
  have htime := (Controller.completeOperation_spec A t.shared.controller call.lease sample).1
  obtain ⟨hadmits, effective, hobserve⟩ := Controller.currentTime_ok (htime.symm.trans hgate.completed)
  obtain ⟨active, hactive, hlease⟩ := OperationEpochs.isCurrent_iff.mp
    (Controller.admits_iff.mp hadmits).2
  have hepoch : l.epoch = active := by rw [Option.some.inj (hl.symm.trans hlease)]
  rw [← hepoch] at hactive
  refine ⟨call.lease, l.epoch, pre, mid, sample, now, post, t, hes, fun hmem => hclosed hmem hactive,
    hpre, hactive, ⟨_, effective, hobserve⟩, fun position v hv => ?_⟩
  obtain ⟨candidate, heligible, rfl, hcheck, hdispatched⟩ := hgate.dispatched hv
  refine ⟨candidate, heligible, rfl, hcheck, fun hnonce => ?_, fun hnonce => ?_⟩
  · obtain ⟨input, members, hmem, hmember⟩ := hdispatched hnonce
    refine ⟨input, members, ?_, hmember⟩
    rcases List.mem_append.mp hmem with hmem | hmem
    · exact absurd rfl (hquiet _ hmem)
    · rcases List.mem_cons.mp hmem with hmem | hmem
      · cases hmem
      · exact hmem
  · intro lease' input members answer hmem hmember
    have hevent := (systemOf_run hrun).events _ hmem i rfl (position, candidate) hmember
    simp [replayIdentity, hnonce] at hevent

theorem verified_within_epoch_exampleRun : ∃ (es : List Event), ∃ i lease epoch sample now,
    .begun i lease (some epoch) ∈ es ∧ .completed i lease sample now ∈ es ∧
      es.any Event.isVerification := by
  obtain ⟨es, s, i, request, evaluations, failure, r, hrun, -, hreturned, hverified⟩ :=
    exampleRun_verified
  obtain ⟨lease, epoch, pre, mid, sample, now, post, t, hes, -⟩ :=
    verified_within_epoch _ _ _ _ _ _ hrun hreturned hverified
  exact ⟨es, i, lease, epoch, sample, now, by simp [hes], by simp [hes],
    List.any_eq_true.mpr ⟨_, hreturned, hverified⟩⟩

end AgentSig.Profiles
