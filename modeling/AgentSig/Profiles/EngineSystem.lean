import AgentSig.Commons.Runs
import AgentSig.Profiles.Controller
import AgentSig.Profiles.Engine
import Mathlib.Logic.Function.Basic

/-!
# Calls and resets that share a context

Any number of calls of `verify`, of verifiers that share one context, run interleaved with one
another and with resets of the context. A step runs at most from one await to the next one of a
call or of a reset, so every interleaving of the source at its awaits is a run. What the source
takes from its environment is the choice of each step: the samples of the clocks, what a strategy
finds out about a candidate, and what a store does.

## Main definitions

* `Phase`, `CallAction`, `turn`: a call between its awaits, and its steps
* `ResetAction`, `resetTurn`: the steps of a reset
* `System`, `step`: the calls and the reset of one context
* `Event`: what the history of a run records
* `EngineRun`: the runs of a context from its creation
* `runActions`: the run of a list of actions

## Main results

* `engineRun_of_runActions`: a list of actions continues a run
-/

namespace AgentSig.Profiles

open Commons Core StructuredFields

/-- A call of `verify` that holds a lease. -/
structure Call where
  request : RequestParts
  selected : List ParsedSignature
  lease : LeaseId
  profile : WebBotAuthProfile

/-- The loop of `consumeCandidateGroups` over the groups. -/
structure ReplayLoop where
  evaluations : List CandidateEvaluation
  groups : ReplayGroups
  outcomes : ReplayOutcomes

/-- Where a call of `verify` is. -/
inductive Phase
  | idle
  /-- Some candidates are evaluated. -/
  | evaluating (call : Call) (evaluations : List CandidateEvaluation)
  /-- Before the next replay group, or after the last. -/
  | replaying (call : Call) (loop : ReplayLoop)
  /-- The store was asked for a group. -/
  | consuming (call : Call) (loop : ReplayLoop) (group ready : List Positioned) (answer : StoreAnswer)
  /-- `consume` of the controller has returned or thrown. -/
  | consumed (call : Call) (loop : ReplayLoop) (group ready : List Positioned)
      (result : Except ProfileError StoreOutcome)
  | done

/-- What the history of a run records. -/
inductive Event
  /-- A call began with a lease, in the epoch that was active. -/
  | begun (i : ℕ) (lease : LeaseId) (epoch : Option ℕ)
  /-- The store was asked for some members of a group, and answered, perhaps later. -/
  | dispatched (i : ℕ) (lease : LeaseId) (input : ReplayConsumeInput) (members : List Positioned)
      (answer : StoreAnswer)
  /-- `completeOperation` returned. -/
  | completed (i : ℕ) (lease : LeaseId) (sample : ClockSample) (now : ℤ)
  /-- A call returned or threw, after its handler has caught a failure if there is one. -/
  | returned (i : ℕ) (request : RequestParts) (evaluations : List CandidateEvaluation)
      (failure : Option ProfileError) (result : Except ProfileError VerificationResult)
  /-- The active epoch was closed. -/
  | invalidated
  /-- An epoch was opened. -/
  | activated (epoch : ℕ)
  /-- A reset was accepted. -/
  | resetStarted
  /-- A reset took a sample as its new reference. -/
  | sampled (reference : ClockSample)
  /-- A reset returned or threw. -/
  | resetEnded (outcome : ResetOutcome)

/-- What all calls share. -/
structure Shared (σ : Type) where
  controller : Controller
  store : σ

/-- A turn of a call. -/
structure Turn (σ : Type) where
  shared : Shared σ
  phase : Phase
  events : List Event

section Calls

variable {σ ω : Type} (A : Rounding) (store : ReplayStore σ ω) (config : EngineConfig) (i : ℕ)

/-! ## The end of a call -/

/-- The shared state with a new controller. -/
def Shared.withController (s : Shared σ) (controller : Controller) : Shared σ := { s with controller }

/-- `verify` ends: the handler catches an error, and the lease is finished. -/
def endCall (call : Call) (evaluations : List CandidateEvaluation)
    (result : Except ProfileError VerificationResult) (s : Shared σ) : Turn σ :=
  let s := s.withController (s.controller.finishOperation call.lease)
  match result with
  | .ok result => ⟨s, .done, [.returned i call.request evaluations none (.ok result)]⟩
  | .error e => ⟨s, .done, [.returned i call.request evaluations (some e)
      (failedResult config call.selected (some call.profile) evaluations e)]⟩

/-- `completeOperation`, and the end of the call at its second. -/
def completeCall (call : Call) (evaluations : List CandidateEvaluation) (sample : ClockSample)
    (result : ℤ → Except ProfileError VerificationResult) (s : Shared σ) : Turn σ :=
  let completion := s.controller.completeOperation A call.lease sample
  match completion.2 with
  | .error e => endCall config i call evaluations (.error e) (s.withController completion.1)
  | .ok now =>
    let turn := endCall config i call evaluations (result now) (s.withController completion.1)
    { turn with events := .completed i call.lease sample now :: turn.events }

/-! ## The steps of a call -/

/-- A call without a lease fails. -/
def failUnleased (request : RequestParts) (selected : List ParsedSignature) (e : ProfileError)
    (s : Shared σ) : Turn σ :=
  ⟨s, .done, [.returned i request [] (some e) (failedResult config selected none [] e)]⟩

/-- The agent header of a call that has a lease. -/
def readAgent (request : RequestParts) (selected : List ParsedSignature) (lease : LeaseId)
    (s : Shared σ) : Turn σ :=
  let begun := .begun i lease s.controller.epochs.activeEpoch
  match parseAgentHeader config.coreLimits request with
  | .error e =>
    let turn := failUnleased config i request selected e
      (s.withController (s.controller.finishOperation lease))
    { turn with events := begun :: turn.events }
  | .ok agent => ⟨s, .evaluating ⟨request, selected, lease, agent.profile⟩ [], [begun]⟩

/-- `verify`, up to its first await. -/
def startCall (request : RequestParts) (sample : ClockSample) (s : Shared σ) : Turn σ :=
  match selectCandidates config request with
  | .error e => failUnleased config i request [] e s
  | .ok (.unsigned reason) => ⟨s, .done, [.returned i request [] none (.ok (.unsigned reason))]⟩
  | .ok (.candidates _ selected) =>
    let operation := s.controller.beginOperation A sample
    let s := s.withController operation.1
    match operation.2 with
    | .error e => failUnleased config i request selected e s
    | .ok lease => readAgent config i request selected lease s

/-- How `evaluate` of a strategy ends. -/
inductive EvaluationEnd
  | eligible (finding : Finding)
  | rejected (rejection : ProfileRejection)
  | threw (e : ProfileError)

/-- The evaluation of the next candidate ends. -/
def endEvaluation (call : Call) (evaluations : List CandidateEvaluation)
    (signature : ParsedSignature) (s : Shared σ) : EvaluationEnd → Turn σ
  | .eligible finding => ⟨s, .evaluating call (evaluations ++
      [.eligible (eligibleCandidate config call.profile signature finding)]), []⟩
  | .rejected rejection => ⟨s, .evaluating call (evaluations ++
      [.rejected ⟨rejection, signature.input.label, some call.profile⟩]), []⟩
  | .threw e => endCall config i call evaluations (.error e) s

/-- After the evaluation of every candidate. -/
def endEvaluations (call : Call) (evaluations : List CandidateEvaluation)
    (checkEvidence : ℕ → Except ProfileError Unit) (sample : ClockSample) (s : Shared σ) : Turn σ :=
  if isAmbiguous config call.selected then
    completeCall A config i call evaluations sample (ambiguousResult evaluations) s
  else match screenEvaluations checkEvidence evaluations with
  | .error e => endCall config i call evaluations (.error e) s
  | .ok evaluations =>
    let grouped := groupCandidates config.scope [] [] (eligibleCandidates evaluations)
    ⟨s, .replaying call ⟨evaluations, grouped.1, grouped.2⟩, []⟩

/-- The call of the store. A store that throws is answered at a second sample. -/
def askStore (call : Call) (loop : ReplayLoop) (group ready : List Positioned)
    (input : ReplayConsumeInput) (choice : ω) (retry : ClockSample) (s : Shared σ) : Turn σ :=
  let consumption := store.consume s.store input choice
  let s := { s with store := consumption.1 }
  let dispatched := .dispatched i call.lease input ready consumption.2
  if consumption.2 = .threw then
    let time := s.controller.currentTime A (some call.lease) retry
    ⟨s.withController time.1, .consumed call loop group ready
      (time.2.map fun _ => .unavailable), [dispatched]⟩
  else ⟨s, .consuming call loop group ready consumption.2, [dispatched]⟩

/-- `consume` of the controller throws before the store is asked. -/
def refuseGroup (call : Call) (loop : ReplayLoop) (group : List Positioned) (e : ProfileError)
    (s : Shared σ) : Turn σ :=
  ⟨s, .consumed call loop group [] (.error e), []⟩

/-- `consume` of the controller at a second, up to its await. -/
def dispatchAt (call : Call) (loop : ReplayLoop) (group : List Positioned) (now : ℤ) (choice : ω)
    (retry : ClockSample) (s : Shared σ) : Turn σ :=
  match prepareGroup now loop.outcomes group with
  | .error e => refuseGroup call loop group e s
  | .ok prepared =>
    let loop := { loop with outcomes := prepared.outcomes }
    match preparedInput config.scope now prepared with
    | .error e => refuseGroup call loop group e s
    | .ok input =>
      if s.controller.admits (some call.lease) then
        askStore A store i call loop group prepared.ready input choice retry s
      else refuseGroup call loop group clockUnavailable s

/-- `consume` of the controller for the next group, up to its await. -/
def dispatchGroup (call : Call) (loop : ReplayLoop) (group : List Positioned) (choice : ω)
    (sample retry : ClockSample) (s : Shared σ) : Turn σ :=
  let time := s.controller.currentTime A (some call.lease) sample
  match time.2 with
  | .error e => refuseGroup call loop group e (s.withController time.1)
  | .ok now =>
    dispatchAt A store config i call loop group now choice retry (s.withController time.1)

/-- The outcome that `consume` of the controller returns for an answer. -/
def StoreAnswer.storeOutcome : StoreAnswer → StoreOutcome
  | .outcome result => result
  | .other | .threw => .unavailable

/-- `consume` of the controller after its await. -/
def receiveAnswer (call : Call) (loop : ReplayLoop) (group ready : List Positioned)
    (answer : StoreAnswer) (sample : ClockSample) (s : Shared σ) : Turn σ :=
  let time := s.controller.currentTime A (some call.lease) sample
  ⟨s.withController time.1, .consumed call loop group ready (time.2.map fun _ => answer.storeOutcome),
    []⟩

/-- The handler of the loop over the groups. -/
def rejectGroup (call : Call) (loop : ReplayLoop) (group : List Positioned) (e : ProfileError)
    (s : Shared σ) : Turn σ :=
  match e.rejection? with
  | some rejection =>
    ⟨s, .replaying call { loop with outcomes := failGroup rejection loop.outcomes group }, []⟩
  | none => endCall config i call loop.evaluations (.error e) s

/-- The rest of the loop's round, after `consume` of the controller. -/
def settleRound (call : Call) (loop : ReplayLoop) (group ready : List Positioned)
    (result : Except ProfileError StoreOutcome) (sample : ClockSample) (s : Shared σ) : Turn σ :=
  match result with
  | .error e => rejectGroup config i call loop group e s
  | .ok outcome =>
    let time := s.controller.currentTime A (some call.lease) sample
    let s := s.withController time.1
    match time.2 >>= fun now => settleGroup outcome now loop.outcomes ready with
    | .error e => rejectGroup config i call loop group e s
    | .ok outcomes => ⟨s, .replaying call { loop with outcomes }, []⟩

/-- The end of `verify` after the last group. -/
def endGroups (call : Call) (loop : ReplayLoop) (checkEvidence : ℕ → Except ProfileError Unit)
    (sample : ClockSample) (s : Shared σ) : Turn σ :=
  match lostEvidence checkEvidence (eligibleCandidates loop.evaluations) with
  | .error e => endCall config i call loop.evaluations (.error e) s
  | .ok lost => completeCall A config i call loop.evaluations sample
      (finalResult config.aggregate loop.evaluations lost loop.outcomes) s

/-- A step of a call, with what the environment chooses. -/
inductive CallAction (ω : Type)
  | verify (request : RequestParts) (sample : ClockSample)
  /-- The evaluation of a candidate reads the time. -/
  | now (sample : ClockSample)
  | evaluated (result : EvaluationEnd)
  | endEvaluations (checkEvidence : ℕ → Except ProfileError Unit) (sample : ClockSample)
  | dispatch (choice : ω) (sample retry : ClockSample)
  | answer (sample : ClockSample)
  | settle (sample : ClockSample)
  | endGroups (checkEvidence : ℕ → Except ProfileError Unit) (sample : ClockSample)

/-- The turn of a call, where the action is one of its phase. -/
def turn (s : Shared σ) : Phase → CallAction ω → Option (Turn σ)
  | .idle, .verify request sample => some (startCall A config i request sample s)
  | .evaluating call evaluations, .now sample =>
    some ⟨s.withController (s.controller.currentTime A (some call.lease) sample).1,
      .evaluating call evaluations, []⟩
  | .evaluating call evaluations, .evaluated result =>
    call.selected[evaluations.length]?.map fun signature =>
      endEvaluation config i call evaluations signature s result
  | .evaluating call evaluations, .endEvaluations checkEvidence sample =>
    if evaluations.length = call.selected.length then
      some (endEvaluations A config i call evaluations checkEvidence sample s)
    else none
  | .replaying call ⟨evaluations, (_, group) :: groups, outcomes⟩, .dispatch choice sample retry =>
    some (dispatchGroup A store config i call ⟨evaluations, groups, outcomes⟩ group choice sample
      retry s)
  | .consuming call loop group ready answer, .answer sample =>
    some (receiveAnswer A call loop group ready answer sample s)
  | .consumed call loop group ready result, .settle sample =>
    some (settleRound A config i call loop group ready result sample s)
  | .replaying call ⟨evaluations, [], outcomes⟩, .endGroups checkEvidence sample =>
    some (endGroups A config i call ⟨evaluations, [], outcomes⟩ checkEvidence sample s)
  | _, _ => none

end Calls

/-! ## The steps of a reset -/

/-- A turn of a reset. -/
structure ResetTurn (σ : Type) where
  shared : Shared σ
  reset : Option ResetPhase
  events : List Event

/-- A step of a reset, with what the environment chooses. -/
inductive ResetAction (ω : Type)
  | start (reason : ResetReason)
  | prepare (choice : ω) (sample final : ClockSample)
  | finish (sample : ClockSample)

section Resets

variable {σ ω : Type} (A : Rounding) (store : ReplayStore σ ω)

/-- The call of `resetClockReference`, up to its first await. -/
def startReset (reset : Option ResetPhase) (reason : ResetReason) (s : Shared σ) : ResetTurn σ :=
  let start := s.controller.startReset store.retentionClock store.clearForClockReset.isSome reason
  match start.2 with
  | .error code => ⟨s.withController start.1, reset, [.resetEnded code]⟩
  | .ok phase => ⟨s.withController start.1, some phase, [.resetStarted]⟩

/-- How the last step of a reset ends. -/
def endReset (s : Shared σ) (result : Controller × ResetOutcome) : ResetTurn σ :=
  ⟨s.withController result.1, none,
    [(result.1.epochs.activeEpoch.elim .invalidated .activated), .resetEnded result.2]⟩

/-- The cleanup of a reset, or its end where the store needs none. -/
def cleanupReset (reason : ResetReason) (oldEpoch invalidated : ℕ) (replacement : ClockTracker)
    (choice : ω) (final : ClockSample) (s : Shared σ) : ResetTurn σ :=
  match store.clearForClockReset with
  | some clear =>
    let cleanup := clear s.store choice
    ⟨⟨s.controller, cleanup.1⟩, some (.clearing reason oldEpoch invalidated replacement cleanup.2), []⟩
  | none => endReset s (s.controller.concludeReset A store.retentionClock reason oldEpoch invalidated
      Controller.noCounts replacement final)

/-- A reset with a new reference closes the epoch, and then cleans up. -/
def closeEpoch (reason : ResetReason) (oldEpoch : ℕ) (replacement : ClockTracker) (choice : ω)
    (sample final : ClockSample) (s : Shared σ) : ResetTurn σ :=
  let invalidation := s.controller.epochs.invalidate
  let s := s.withController (s.controller.withEpochs invalidation.2)
  let turn :=
    if invalidation.2.canActivateNext then
      cleanupReset A store reason oldEpoch invalidation.1 replacement choice final s
    else endReset s (s.controller.failReset store.retentionClock reason oldEpoch Controller.noCounts
      invalidation.1, .resetFailed)
  { turn with events := .sampled sample :: .invalidated :: turn.events }

/-- A reset after its first await. -/
def prepareReset (reason : ResetReason) (oldEpoch : ℕ) (choice : ω) (sample final : ClockSample)
    (s : Shared σ) : ResetTurn σ :=
  match createClockTracker s.controller.policy sample with
  | .error _ =>
    ⟨s.withController (s.controller.abandonReset A store.retentionClock reason oldEpoch sample), none,
      [.resetEnded .resetClockUnavailable]⟩
  | .ok replacement => closeEpoch A store reason oldEpoch replacement choice sample final s

/-- The turn of a reset, where the action is one of its phase. A reset may be called at any time. -/
def resetTurn (s : Shared σ) : Option ResetPhase → ResetAction ω → Option (ResetTurn σ)
  | reset, .start reason => some (startReset store reset reason s)
  | some (.started reason oldEpoch), .prepare choice sample final =>
    some (prepareReset A store reason oldEpoch choice sample final s)
  | some (.clearing reason oldEpoch invalidated replacement cleanup), .finish sample =>
    some (endReset s (s.controller.finishReset A store.retentionClock reason oldEpoch invalidated
      replacement cleanup sample))
  | _, _ => none

end Resets

/-! ## Runs -/

/-- The calls and the reset of one context. -/
structure System (σ : Type) where
  shared : Shared σ
  reset : Option ResetPhase
  calls : ℕ → Phase

/-- A step of a context. -/
inductive Action (ω : Type)
  | call (i : ℕ) (action : CallAction ω)
  | reset (action : ResetAction ω)

section Runs

variable {σ ω : Type} (A : Rounding) (store : ReplayStore σ ω) (configs : ℕ → EngineConfig)

/-- A step of a context; `configs i` is the configuration of the verifier whose call `i` is. -/
def step (s : System σ) : Action ω → Option (System σ × List Event)
  | .call i action =>
    (turn A store (configs i) i s.shared (s.calls i) action).map fun t =>
      ({ s with shared := t.shared, calls := Function.update s.calls i t.phase }, t.events)
  | .reset action =>
    (resetTurn A store s.shared s.reset action).map fun t =>
      ({ s with shared := t.shared, reset := t.reset }, t.events)

/-- The system of a new context. -/
def System.init (controller : Controller) (s : σ) : System σ :=
  ⟨⟨controller, s⟩, none, fun _ => .idle⟩

/-- The runs of a context that is created with a clock policy and a first sample. -/
abbrev EngineRun (policy : ClockPolicy) (first : ClockSample) (initial : σ) :
    List Event → System σ → Prop :=
  Run (fun s => ∃ controller, createSecurityContextController policy first = .ok controller ∧
    s = .init controller initial) fun s events t => ∃ action, step A store configs s action =
      some (t, events)

/-- The state and the history after a list of actions, if each of them is one of its state. -/
def runActions : List (Action ω) → System σ → List Event → Option (System σ × List Event)
  | [], s, es => some (s, es)
  | action :: rest, s, es =>
    (step A store configs s action).bind fun t => runActions rest t.1 (es ++ t.2)

variable {A store configs} {policy : ClockPolicy} {first : ClockSample} {initial : σ}
  {es fs : List Event} {s t : System σ}

/-- A list of actions continues a run. -/
theorem engineRun_of_runActions {actions : List (Action ω)}
    (h : EngineRun A store configs policy first initial es s)
    (hactions : runActions A store configs actions s es = some (t, fs)) :
    EngineRun A store configs policy first initial fs t := by
  induction actions generalizing s es with
  | nil =>
    obtain ⟨rfl, rfl⟩ := Prod.mk.inj (Option.some.inj hactions)
    exact h
  | cons action rest ih =>
    obtain ⟨⟨t', es'⟩, hstep, hrest⟩ := Option.bind_eq_some_iff.mp hactions
    exact ih (h.step ⟨action, hstep⟩) hrest

end Runs

end AgentSig.Profiles
