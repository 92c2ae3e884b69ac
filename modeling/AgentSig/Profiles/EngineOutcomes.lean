import AgentSig.Profiles.EngineTurns

/-!
# The outcomes of turns

Which turns of a call return a verified result, and which turns change the store.

## Main definitions

* `VerifiedTurn`: a turn that returns a verified result
* `Asks`, `StoreTurn`: a turn that asks the store, and one that leaves it alone

## Main results

* `turn_verified`: a verified result is that of the final gate of its call
* `turn_store`: a turn asks the store at most once, at its own second
* `turn_closed`: in a closed context nothing begins, asks or completes
-/

namespace AgentSig.Profiles

open Commons Core StructuredFields

variable {σ ω : Type} {A : Rounding} {store : ReplayStore σ ω} {config : EngineConfig} {i : ℕ}
  {fs : List Event} {call : Call} {loop : ReplayLoop} {s : Shared σ} {t : Turn σ}
  {evaluations : List CandidateEvaluation} {phase : Phase}

/-! ## Verified results -/

/-- No event returns a result that verifies anything. -/
def Unverified (events : List Event) : Prop :=
  ∀ j request evaluations failure r, .returned j request evaluations failure (.ok r) ∈ events →
    ¬ r.Verifies

theorem unverified_nil : Unverified [] := by
  intro j request evaluations failure r h
  simp at h

theorem Unverified.cons {ev : Event} (h : Unverified fs)
    (hev : ∀ j request evaluations failure r, .returned j request evaluations failure (.ok r) = ev →
      ¬ r.Verifies) : Unverified (ev :: fs) := by
  intro j request evaluations failure r hmem
  rcases List.mem_cons.mp hmem with heq | hmem
  · exact hev j request evaluations failure r heq
  · exact h j request evaluations failure r hmem

theorem unverified_endCall {result : Except ProfileError VerificationResult}
    (h : ∀ r, result = .ok r → ¬ r.Verifies) :
    Unverified (endCall config i call evaluations result s).events := by
  unfold endCall
  split
  · rename_i r
    refine unverified_nil.cons fun j request evaluations' failure r' heq => ?_
    obtain ⟨-, -, -, -, heq⟩ := Event.returned.inj heq
    exact Except.ok.inj heq ▸ h r rfl
  · refine unverified_nil.cons fun j request evaluations' failure r' heq => ?_
    obtain ⟨-, -, -, -, heq⟩ := Event.returned.inj heq
    exact failedResult_unverified heq.symm

theorem unverified_failUnleased {request : RequestParts} {selected : List ParsedSignature}
    {e : ProfileError} : Unverified (failUnleased config i request selected e s).events := by
  refine unverified_nil.cons fun j request' evaluations' failure r heq => ?_
  obtain ⟨-, -, -, -, heq⟩ := Event.returned.inj heq
  exact failedResult_unverified heq.symm

theorem unverified_startCall {request : RequestParts} {sample : ClockSample} :
    Unverified (startCall A config i request sample s).events := by
  unfold startCall
  split
  · exact unverified_failUnleased
  · rename_i reason _
    refine unverified_nil.cons fun j request' evaluations' failure r heq => ?_
    obtain ⟨-, -, -, -, heq⟩ := Event.returned.inj heq
    rw [Except.ok.inj heq]
    exact unsigned_unverified reason
  · simp only
    split
    · exact unverified_failUnleased
    · unfold readAgent
      simp only
      split
      · exact unverified_failUnleased.cons (by simp)
      · exact unverified_nil.cons (by simp)

theorem unverified_endEvaluation {signature : ParsedSignature} {result : EvaluationEnd} :
    Unverified (endEvaluation config i call evaluations signature s result).events := by
  cases result with
  | eligible => exact unverified_nil
  | rejected => exact unverified_nil
  | threw => exact unverified_endCall (by simp)

theorem unverified_completeCall {result : ℤ → Except ProfileError VerificationResult}
    {sample : ClockSample} (h : ∀ now r, result now = .ok r → ¬ r.Verifies) :
    Unverified (completeCall A config i call evaluations sample result s).events := by
  unfold completeCall
  simp only
  split
  · exact unverified_endCall (by simp)
  · rename_i now _
    exact (unverified_endCall (h now)).cons (by simp)

theorem unverified_endEvaluations {checkEvidence : ℕ → Except ProfileError Unit}
    {sample : ClockSample} :
    Unverified (endEvaluations A config i call evaluations checkEvidence sample s).events := by
  unfold endEvaluations
  split
  · exact unverified_completeCall fun _ _ => ambiguousResult_unverified
  · split
    · exact unverified_endCall (by simp)
    · exact unverified_nil

theorem unverified_dispatchGroup {group : List Positioned} {choice : ω} {sample retry : ClockSample} :
    Unverified (dispatchGroup A store config i call loop group choice sample retry s).events := by
  unfold dispatchGroup
  simp only
  split
  · exact unverified_nil
  · unfold dispatchAt
    split
    · exact unverified_nil
    · simp only
      split
      · exact unverified_nil
      · split
        · unfold askStore
          simp only
          split <;> exact unverified_nil.cons (by simp)
        · exact unverified_nil

theorem unverified_rejectGroup {group : List Positioned} {e : ProfileError} :
    Unverified (rejectGroup config i call loop group e s).events := by
  unfold rejectGroup
  split
  · exact unverified_nil
  · exact unverified_endCall (by simp)

theorem unverified_settleRound {group ready : List Positioned} {sample : ClockSample}
    {result : Except ProfileError StoreOutcome} :
    Unverified (settleRound A config i call loop group ready result sample s).events := by
  unfold settleRound
  split
  · exact unverified_rejectGroup
  · simp only
    split
    · exact unverified_rejectGroup
    · exact unverified_nil

/-- A turn that returns a verified result completes the operation of its call. -/
structure VerifiedTurn (A : Rounding) (config : EngineConfig) (i : ℕ) (s : Shared σ) (phase : Phase)
    (evaluations : List CandidateEvaluation) (r : VerificationResult) (returned : Event)
    (t : Turn σ) (call : Call) (sample : ClockSample) (now : ℤ) : Prop where
  result : ∃ outcomes lost, phase = .replaying call ⟨evaluations, [], outcomes⟩ ∧
    finalResult config.aggregate evaluations lost outcomes now = .ok r
  completed : (s.controller.completeOperation A call.lease sample).2 = .ok now
  events : t.events = [.completed i call.lease sample now, returned]

theorem endGroups_verified {outcomes : ReplayOutcomes} {checkEvidence : ℕ → Except ProfileError Unit}
    {sample : ClockSample} {j : ℕ} {request : RequestParts} {evaluations' : List CandidateEvaluation}
    {failure : Option ProfileError} {r : VerificationResult}
    (h : .returned j request evaluations' failure (.ok r) ∈
      (endGroups A config i call ⟨evaluations, [], outcomes⟩ checkEvidence sample s).events)
    (hverified : r.Verifies) :
    ∃ now, VerifiedTurn A config i s (.replaying call ⟨evaluations, [], outcomes⟩) evaluations' r
      (.returned j request evaluations' failure (.ok r))
      (endGroups A config i call ⟨evaluations, [], outcomes⟩ checkEvidence sample s) call sample
      now := by
  unfold endGroups at h ⊢
  split at h
  · exact absurd hverified (unverified_endCall (by simp) _ _ _ _ _ h)
  · rename_i lost _
    unfold completeCall at h ⊢
    simp only at h ⊢
    split at h
    · exact absurd hverified (unverified_endCall (by simp) _ _ _ _ _ h)
    · rename_i now hnow
      rcases List.mem_cons.mp h with h | h
      · cases h
      · cases hfinal : finalResult config.aggregate evaluations lost outcomes now with
        | error e =>
          rw [hfinal] at h
          exact absurd hverified (unverified_endCall (by simp) _ _ _ _ _ h)
        | ok r' =>
          rw [hfinal] at h
          obtain ⟨rfl, rfl, rfl, rfl, heq⟩ := Event.returned.inj (List.mem_singleton.mp h)
          obtain rfl := Except.ok.inj heq
          exact ⟨now, ⟨outcomes, lost, rfl, hfinal⟩, hnow, by simp only [endCall]⟩

/-- Only the end of the loop over the groups returns a verified result. -/
theorem turn_verified {action : CallAction ω} {j : ℕ} {request : RequestParts}
    {failure : Option ProfileError} {r : VerificationResult}
    (h : turn A store config i s phase action = some t)
    (hreturned : .returned j request evaluations failure (.ok r) ∈ t.events)
    (hverified : r.Verifies) :
    ∃ call sample now, VerifiedTurn A config i s phase evaluations r
      (.returned j request evaluations failure (.ok r)) t call sample now := by
  have habsurd : ¬ Unverified t.events := fun hunverified =>
    hunverified _ _ _ _ _ hreturned hverified
  unfold turn at h
  split at h
  · obtain rfl := Option.some.inj h
    exact absurd unverified_startCall habsurd
  · obtain rfl := Option.some.inj h
    exact absurd unverified_nil habsurd
  · obtain ⟨signature, -, rfl⟩ := Option.map_eq_some_iff.mp h
    exact absurd unverified_endEvaluation habsurd
  · split at h
    · obtain rfl := Option.some.inj h
      exact absurd unverified_endEvaluations habsurd
    · simp at h
  · obtain rfl := Option.some.inj h
    exact absurd unverified_dispatchGroup habsurd
  · obtain rfl := Option.some.inj h
    exact absurd unverified_nil habsurd
  · obtain rfl := Option.some.inj h
    exact absurd unverified_settleRound habsurd
  · obtain rfl := Option.some.inj h
    obtain ⟨now, hturn⟩ := endGroups_verified hreturned hverified
    exact ⟨_, _, now, hturn⟩
  · simp at h

/-! ## The store -/

/-- A turn that asks the store, at a second of a healthy clock in an open epoch. -/
structure Asks (A : Rounding) (store : ReplayStore σ ω) (i : ℕ) (s : Shared σ) (t : Turn σ) : Prop where
  event : ∃ lease input members choice,
    t.events = [.dispatched i lease input members (store.consume s.store input choice).2] ∧
      t.shared.store = (store.consume s.store input choice).1 ∧
      s.controller.tracker.second A ≤ input.nowEpochSeconds ∧
      input.nowEpochSeconds ≤ t.shared.controller.tracker.second A
  isOpen : s.controller.isOpen

/-- A turn leaves the store alone and asks nothing of it, or asks it once. -/
def StoreTurn (A : Rounding) (store : ReplayStore σ ω) (i : ℕ) (s : Shared σ) (t : Turn σ) : Prop :=
  (t.shared.store = s.store ∧ ∀ ev ∈ t.events, ∀ j, ¬ ev.Dispatches j) ∨ Asks A store i s t

theorem store_endCall {result : Except ProfileError VerificationResult} :
    (endCall config i call evaluations result s).shared.store = s.store ∧
      ∀ ev ∈ (endCall config i call evaluations result s).events, ∀ j, ¬ ev.Dispatches j := by
  unfold endCall
  split <;> simp [Shared.withController, Event.Dispatches]

theorem store_completeCall {result : ℤ → Except ProfileError VerificationResult}
    {sample : ClockSample} :
    (completeCall A config i call evaluations sample result s).shared.store = s.store ∧
      ∀ ev ∈ (completeCall A config i call evaluations sample result s).events, ∀ j,
        ¬ ev.Dispatches j := by
  unfold completeCall
  simp only
  split
  · exact store_endCall
  · refine ⟨store_endCall.1, fun ev hev => ?_⟩
    rcases List.mem_cons.mp hev with rfl | hev
    · simp [Event.Dispatches]
    · exact store_endCall.2 ev hev

theorem store_startCall {request : RequestParts} {sample : ClockSample} :
    (startCall A config i request sample s).shared.store = s.store ∧
      ∀ ev ∈ (startCall A config i request sample s).events, ∀ j, ¬ ev.Dispatches j := by
  unfold startCall
  split
  · simp [failUnleased, Event.Dispatches]
  · simp [Event.Dispatches]
  · simp only
    split
    · simp [failUnleased, Shared.withController, Event.Dispatches]
    · unfold readAgent
      simp only
      split <;> simp [failUnleased, Shared.withController, Event.Dispatches]

theorem preparedInput_now {scope : Text} {now : ℤ} {p : Preparation} {input : ReplayConsumeInput}
    (h : preparedInput scope now p = .ok input) : input.nowEpochSeconds = now := by
  unfold preparedInput at h
  split at h
  · simp at h
  · rw [← pure_eq_ok.mp h]

theorem asks_askStore {group ready : List Positioned} {input : ReplayConsumeInput} {choice : ω}
    {retry : ClockSample} {s₀ : Shared σ} (hstore : s.store = s₀.store)
    (hopen : s₀.controller.isOpen)
    (hle : s₀.controller.tracker.second A ≤ input.nowEpochSeconds)
    (hnow : input.nowEpochSeconds = s.controller.tracker.second A) :
    Asks A store i s₀ (askStore A store i call loop group ready input choice retry s) := by
  refine ⟨⟨call.lease, input, ready, choice, ?_⟩, hopen⟩
  unfold askStore
  simp only
  split
  · refine ⟨by rw [hstore], by rw [← hstore]; rfl, hle, hnow.le.trans ?_⟩
    exact (Controller.currentTime_continues A _ _ _).second_le
  · exact ⟨by rw [hstore], by rw [hstore], hle, hnow.le⟩

theorem storeTurn_dispatchGroup {group : List Positioned} {choice : ω} {sample retry : ClockSample} :
    StoreTurn A store i s
      (dispatchGroup A store config i call loop group choice sample retry s) := by
  unfold dispatchGroup
  simp only
  split
  · exact .inl ⟨rfl, by simp [refuseGroup]⟩
  · rename_i now hnow
    obtain ⟨hadmits, effective, hobserve⟩ := Controller.currentTime_ok hnow
    obtain ⟨hsecond, -⟩ := ClockTracker.observe_healthy hobserve
    have hle := (Controller.currentTime_continues A s.controller (some call.lease) sample).second_le
    unfold dispatchAt
    split
    · exact .inl ⟨rfl, by simp [refuseGroup]⟩
    · simp only
      split
      · exact .inl ⟨rfl, by simp [refuseGroup]⟩
      · rename_i input hinput
        have hinputNow := (preparedInput_now hinput).trans hsecond
        split
        · exact .inr (asks_askStore rfl (Controller.admits_iff.mp hadmits).1 (hle.trans hinputNow.ge) hinputNow)
        · exact .inl ⟨rfl, by simp [refuseGroup]⟩

theorem store_rejectGroup {group : List Positioned} {e : ProfileError} :
    (rejectGroup config i call loop group e s).shared.store = s.store ∧
      ∀ ev ∈ (rejectGroup config i call loop group e s).events, ∀ j, ¬ ev.Dispatches j := by
  unfold rejectGroup
  split
  · exact ⟨rfl, by simp⟩
  · exact store_endCall

/-- How a turn changes the store. -/
theorem turn_store {action : CallAction ω} (h : turn A store config i s phase action = some t) :
    StoreTurn A store i s t := by
  unfold turn at h
  split at h
  · obtain rfl := Option.some.inj h
    exact .inl store_startCall
  · obtain rfl := Option.some.inj h
    exact .inl ⟨rfl, by simp⟩
  · obtain ⟨signature, -, rfl⟩ := Option.map_eq_some_iff.mp h
    unfold endEvaluation
    split
    · exact .inl ⟨rfl, by simp⟩
    · exact .inl ⟨rfl, by simp⟩
    · exact .inl store_endCall
  · split at h
    · obtain rfl := Option.some.inj h
      unfold endEvaluations
      split
      · exact .inl store_completeCall
      · split
        · exact .inl store_endCall
        · exact .inl ⟨rfl, by simp⟩
    · simp at h
  · obtain rfl := Option.some.inj h
    exact storeTurn_dispatchGroup
  · obtain rfl := Option.some.inj h
    exact .inl ⟨rfl, by simp [receiveAnswer]⟩
  · obtain rfl := Option.some.inj h
    unfold settleRound
    split
    · exact .inl store_rejectGroup
    · simp only
      split
      · exact .inl store_rejectGroup
      · exact .inl ⟨rfl, by simp⟩
  · obtain rfl := Option.some.inj h
    unfold endGroups
    split
    · exact .inl store_endCall
    · exact .inl store_completeCall
  · simp at h

/-! ## Closed contexts -/

theorem not_operates_endCall {result : Except ProfileError VerificationResult} {ev : Event}
    (hev : ev ∈ (endCall config i call evaluations result s).events) : ¬ ev.Operates := by
  unfold endCall at hev
  cases result <;> (obtain rfl := List.mem_singleton.mp hev; exact id)

theorem not_operates_failUnleased {request : RequestParts} {selected : List ParsedSignature}
    {e : ProfileError} {ev : Event}
    (hev : ev ∈ (failUnleased config i request selected e s).events) : ¬ ev.Operates := by
  obtain rfl := List.mem_singleton.mp hev
  exact id

theorem startCall_closed (hclosed : s.controller.isOpen = false) {request : RequestParts}
    {sample : ClockSample} {ev : Event}
    (hev : ev ∈ (startCall A config i request sample s).events) : ¬ ev.Operates := by
  unfold startCall at hev
  split at hev
  · exact not_operates_failUnleased hev
  · obtain rfl := List.mem_singleton.mp hev
    exact id
  · simp only [Controller.beginOperation_closed hclosed] at hev
    exact not_operates_failUnleased hev

theorem completeCall_closed (hclosed : s.controller.isOpen = false)
    {result : ℤ → Except ProfileError VerificationResult} {sample : ClockSample} {ev : Event}
    (hev : ev ∈ (completeCall A config i call evaluations sample result s).events) :
    ¬ ev.Operates := by
  simp only [completeCall, Controller.completeOperation_closed hclosed] at hev
  exact not_operates_endCall hev

theorem not_operates_rejectGroup {group : List Positioned} {e : ProfileError} {ev : Event}
    (hev : ev ∈ (rejectGroup config i call loop group e s).events) : ¬ ev.Operates := by
  unfold rejectGroup at hev
  split at hev
  · simp at hev
  · exact not_operates_endCall hev

/-- In a closed context no call begins, asks the store, or completes. -/
theorem turn_closed {action : CallAction ω} (hclosed : s.controller.isOpen = false)
    (h : turn A store config i s phase action = some t) : ∀ ev ∈ t.events, ¬ ev.Operates := by
  intro ev hev
  unfold turn at h
  split at h
  · obtain rfl := Option.some.inj h
    exact startCall_closed hclosed hev
  · obtain rfl := Option.some.inj h
    simp at hev
  · obtain ⟨signature, -, rfl⟩ := Option.map_eq_some_iff.mp h
    unfold endEvaluation at hev
    split at hev
    · simp at hev
    · simp at hev
    · exact not_operates_endCall hev
  · split at h
    · obtain rfl := Option.some.inj h
      unfold endEvaluations at hev
      split at hev
      · exact completeCall_closed hclosed hev
      · split at hev
        · exact not_operates_endCall hev
        · simp at hev
    · simp at h
  · obtain rfl := Option.some.inj h
    simp [dispatchGroup, Controller.currentTime_closed hclosed, refuseGroup] at hev
  · obtain rfl := Option.some.inj h
    simp [receiveAnswer] at hev
  · obtain rfl := Option.some.inj h
    unfold settleRound at hev
    split at hev
    · exact not_operates_rejectGroup hev
    · simp only at hev
      split at hev
      · exact not_operates_rejectGroup hev
      · simp at hev
  · obtain rfl := Option.some.inj h
    unfold endGroups at hev
    split at hev
    · exact not_operates_endCall hev
    · exact completeCall_closed hclosed hev
  · simp at h

end AgentSig.Profiles
