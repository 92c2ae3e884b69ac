import AgentSig.Commons.Runs
import AgentSig.Profiles.Controller

/-!
# Runs of the controller

Operations and resets of a controller take steps in any order. Every await of a reset ends a step, and the
clocks, the cleanup and the callers are chosen at each step. The history records the events that the controller
emits, with the reset call that emits them, and what each epoch was when it was closed.

## Main definitions

* `ControllerAction`, `ControllerSystem`, `ControllerSystem.step`: the system
* `ControllerRecord`: what the history records
* `StepCase`: what a step does

## Main results

* `stepCase_of_step`: what each step does
-/

namespace AgentSig.Profiles

open Commons Core StructuredFields

/-- The leases of an epoch that are not finished. -/
def OperationEpochs.unfinished (e : OperationEpochs) (epoch : ℕ) : ℕ :=
  e.leases.countP fun l => l.epoch = epoch ∧ l.finished = false

/-- A step of a controller, with what the clocks show and what the cleanup of a reset returns. A call of
`consume` checks the time before it asks the store and after the answer, as `now` does. -/
inductive ControllerAction
  | begin (sample : ClockSample)
  | now (lease : LeaseId) (sample : ClockSample)
  | complete (lease : LeaseId) (sample : ClockSample)
  | finish (lease : LeaseId)
  | startReset (reason : ResetReason)
  | prepareReset (cleanup : Cleanup) (sample final : ClockSample)
  | finishReset (final : ClockSample)

/-- What the history records. Reset calls are numbered in their order. -/
inductive ControllerRecord
  | begun (lease : LeaseId) (epoch : ℕ)
  | called (call : ℕ)
  /-- A reset closed an epoch, with some unfinished leases of it. -/
  | closed (call epoch unfinished : ℕ)
  | emitted (call : Option ℕ) (event : SecurityContextEvent)
  deriving DecidableEq, Repr

/-- A controller, the number of its reset calls, and the one that is under way. -/
structure ControllerSystem where
  controller : Controller
  calls : ℕ
  reset : Option (ℕ × ResetPhase)

/-- The events that a step has emitted. -/
def emittedSince (call : Option ℕ) (c c' : Controller) : List ControllerRecord :=
  (c'.emitted.drop c.emitted.length).map (.emitted call)

namespace Controller

/-- A reset after its first await, up to the next one or to its end. -/
def prepareReset (A : Rounding) (c : Controller) (declaration : Option RetentionClock) (reason : ResetReason)
    (oldEpoch : ℕ) (replacement : ClockTracker) (cleanup : Cleanup) (final : ClockSample) :
    Controller × Option ResetPhase :=
  let (invalidated, epochs) := c.epochs.invalidate
  let c := c.withEpochs epochs
  if epochs.canActivateNext then
    if declaration = some .processClock then (c, some (.clearing reason oldEpoch invalidated replacement cleanup))
    else ((c.concludeReset A declaration reason oldEpoch invalidated noCounts replacement final).1, none)
  else (c.failReset declaration reason oldEpoch noCounts invalidated, none)

end Controller

namespace ControllerSystem

variable (A : Rounding) (declaration : Option RetentionClock) (hasPort : Bool)

/-- The system of a new controller. -/
def init (controller : Controller) : ControllerSystem := ⟨controller, 0, none⟩

/-- A step of a controller, where the action is one of its state. -/
def step (s : ControllerSystem) : ControllerAction → Option (ControllerSystem × List ControllerRecord)
  | .begin sample =>
    let (c, result) := s.controller.beginOperation A sample
    let begun := match result, c.epochs.activeEpoch with
      | .ok lease, some epoch => [.begun lease epoch]
      | _, _ => []
    some ({ s with controller := c }, emittedSince none s.controller c ++ begun)
  | .now lease sample =>
    let c := (s.controller.currentTime A (some lease) sample).1
    some ({ s with controller := c }, emittedSince none s.controller c)
  | .complete lease sample =>
    let c := (s.controller.completeOperation A lease sample).1
    some ({ s with controller := c }, emittedSince none s.controller c)
  | .finish lease => some ({ s with controller := s.controller.finishOperation lease }, [])
  | .startReset reason =>
    let (c, result) := s.controller.startReset declaration hasPort reason
    let reset := match result with
      | .ok phase => some (s.calls, phase)
      | .error _ => s.reset
    some (⟨c, s.calls + 1, reset⟩, .called s.calls :: emittedSince (some s.calls) s.controller c)
  | .prepareReset cleanup sample final =>
    match s.reset with
    | some (call, .started reason oldEpoch) =>
      match createClockTracker s.controller.policy sample with
      | .error _ =>
        let c := s.controller.abandonReset A declaration reason oldEpoch sample
        some ({ s with controller := c, reset := none }, emittedSince (some call) s.controller c)
      | .ok replacement =>
        let (c, phase) :=
          s.controller.prepareReset A declaration reason oldEpoch replacement cleanup final
        let closed := s.controller.epochs.activeEpoch.toList.map fun epoch =>
          .closed call epoch (s.controller.epochs.unfinished epoch)
        some ({ s with controller := c, reset := phase.map (call, ·) },
          closed ++ emittedSince (some call) s.controller c)
    | _ => none
  | .finishReset final =>
    match s.reset with
    | some (call, .clearing reason oldEpoch invalidated replacement cleanup) =>
      let c := (s.controller.finishReset A declaration reason oldEpoch invalidated replacement cleanup
        final).1
      some ({ s with controller := c, reset := none }, emittedSince (some call) s.controller c)
    | _ => none

/-- The runs of a controller that is created with a clock policy and a first sample. -/
abbrev ControllerRun (policy : ClockPolicy) (first : ClockSample) :
    List ControllerRecord → ControllerSystem → Prop :=
  Run (fun s => ∃ c, createSecurityContextController policy first = .ok c ∧ s = init c)
    fun s es t => ∃ action, s.step A declaration hasPort action = some (t, es)

end ControllerSystem

/-! ## What a step emits -/

/-- The health of a clock changes with an event, or stays. -/
inductive HealthChanges (epoch : Option ℕ) (before after : Bool) : List SecurityContextEvent → Prop
  | same : before = after → HealthChanges epoch before after []
  | changed {unhealthy : Option HealthReason} : before ≠ after → unhealthy.isNone = after →
      HealthChanges epoch before after [.clockHealth epoch unhealthy]

/-- The epochs after a step of an operation, with its record. -/
inductive EpochChanges (e : OperationEpochs) : OperationEpochs → List ControllerRecord → Prop
  | same : EpochChanges e e []
  | begin {lease : LeaseId} {epoch : ℕ} {e' : OperationEpochs} : e.begin = .ok (lease, e') →
      e'.activeEpoch = some epoch → EpochChanges e e' [.begun lease epoch]
  | finish {lease : LeaseId} : EpochChanges e (e.finish lease) []

namespace Controller

variable {A : Rounding} {c c' : Controller} {declaration : Option RetentionClock} {reason : ResetReason}

/-- No callback runs. -/
structure Idle (c : Controller) : Prop where
  delivering : c.delivering = false
  providerDepth : c.providerDepth = 0

/-- A controller after a step that has emitted some events. -/
structure After (c : Controller) (epochs : OperationEpochs) (healthy busy : Bool)
    (events : List SecurityContextEvent) (c' : Controller) : Prop where
  epochs : c'.epochs = epochs
  healthy : c'.healthy = healthy
  busy : c'.busy = busy
  emitted : c'.emitted = c.emitted ++ events
  idle : Idle c'

theorem emit_idle (h : Idle c) (event : SecurityContextEvent) :
    c.emit event = { c with emitted := c.emitted ++ [event] } := by
  unfold emit
  rw [if_neg (by simp [h.delivering])]

theorem emitAll_idle (h : Idle c) (events : List SecurityContextEvent) :
    c.emitAll events = { c with emitted := c.emitted ++ events } := by
  unfold emitAll
  induction events generalizing c with
  | nil => simp
  | cons event events ih =>
    have hidle : Idle { c with emitted := c.emitted ++ [event] } := ⟨h.delivering, h.providerDepth⟩
    rw [List.foldl_cons, emit_idle h, ih hidle]
    simp

theorem healthChange_spec (c : Controller) (observation : ClockObservation) :
    (c.healthChange observation).1 = { c with healthy := observation.isHealthy } ∧
      HealthChanges c.epochs.activeEpoch c.healthy observation.isHealthy (c.healthChange observation).2 := by
  unfold healthChange
  split
  · rename_i hsame
    exact ⟨by rw [← hsame], .same hsame⟩
  · rename_i hchanged
    cases observation with
    | healthy effective now => exact ⟨rfl, .changed hchanged rfl⟩
    | unhealthy reason => exact ⟨rfl, .changed hchanged rfl⟩

/-- An observation emits the change of health. -/
theorem observe_after (h : Idle c) (sample : ClockSample) :
    ∃ healthy events, HealthChanges c.epochs.activeEpoch c.healthy healthy events ∧
      After c c.epochs healthy c.busy events (c.observe A sample).1 := by
  obtain ⟨hcontroller, hevents⟩ := healthChange_spec
    { c with tracker := (c.tracker.observe A sample).1 } (c.tracker.observe A sample).2
  refine ⟨_, _, hevents, ?_⟩
  have hidle : Idle { c with
      tracker := (c.tracker.observe A sample).1
      healthy := (c.tracker.observe A sample).2.isHealthy } := ⟨h.delivering, h.providerDepth⟩
  unfold observe
  dsimp only
  rw [hcontroller, emitAll_idle hidle]
  exact ⟨rfl, rfl, rfl, rfl, h.delivering, h.providerDepth⟩

theorem after_refl (h : Idle c) : After c c.epochs c.healthy c.busy [] c :=
  ⟨rfl, rfl, rfl, (List.append_nil _).symm, h⟩

/-- A time check emits the change of health. -/
theorem currentTime_after (h : Idle c) (lease : Option LeaseId) (sample : ClockSample) :
    ∃ healthy events, HealthChanges c.epochs.activeEpoch c.healthy healthy events ∧
      After c c.epochs healthy c.busy events (c.currentTime A lease sample).1 := by
  unfold currentTime
  split
  · exact ⟨c.healthy, [], .same rfl, after_refl h⟩
  · have hobserve := observe_after (A := A) h sample
    dsimp only
    split
    · exact hobserve
    · split <;> exact hobserve

/-- New epochs emit nothing. -/
theorem After.withEpochs {epochs : OperationEpochs} {healthy busy : Bool} {events : List SecurityContextEvent}
    (h : After c epochs healthy busy events c') (epochs' : OperationEpochs) :
    After c epochs' healthy busy events (c'.withEpochs epochs') :=
  ⟨rfl, h.healthy, h.busy, h.emitted, h.idle.delivering, h.idle.providerDepth⟩

theorem After.emittedSince {epochs : OperationEpochs} {healthy busy : Bool}
    {events : List SecurityContextEvent} (h : After c epochs healthy busy events c') (call : Option ℕ) :
    emittedSince call c c' = events.map (.emitted call) := by
  unfold Profiles.emittedSince
  rw [h.emitted, List.drop_left]

/-! ## Resets -/

variable (declaration reason)

/-- The end of a reset emits the change of health, and then its own event. -/
theorem endReset_after (h : Idle c) (oldEpoch : ℕ) (outcome : ResetOutcome) (counts : MemoryCleanupReport)
    (invalidated : ℕ) (events : List SecurityContextEvent) :
    After c c.epochs c.healthy false
      (events ++ [.reset reason oldEpoch (if outcome = .success then c.epochs.activeEpoch else none) counts
        invalidated declaration outcome])
      (c.endReset declaration reason oldEpoch outcome counts invalidated events) := by
  unfold endReset resetEvent
  have hidle : Idle { c with busy := false } := ⟨h.delivering, h.providerDepth⟩
  have hidle' : Idle { c with busy := false, emitted := c.emitted ++ events } :=
    ⟨h.delivering, h.providerDepth⟩
  dsimp only
  rw [emitAll_idle hidle, emit_idle hidle']
  exact ⟨rfl, rfl, rfl, List.append_assoc _ _ _, h.delivering, h.providerDepth⟩

/-- A reset that fails closes the epoch. -/
theorem failReset_after (h : Idle c) (oldEpoch : ℕ) (counts : MemoryCleanupReport) (invalidated : ℕ) :
    ∃ events, HealthChanges none c.healthy false events ∧
      After c c.epochs.invalidate.2 false false (events ++ [.reset reason oldEpoch none counts
        (invalidated + c.epochs.inFlight) declaration .resetFailed])
        (c.failReset declaration reason oldEpoch counts invalidated) := by
  have hidle : Idle ((c.withEpochs c.epochs.invalidate.2).setHealthy false) :=
    ⟨h.delivering, h.providerDepth⟩
  have hend := endReset_after declaration reason hidle oldEpoch .resetFailed counts
    (invalidated + c.epochs.inFlight)
    (if c.healthy then [.clockHealth none (some .resetFailed)] else [])
  refine ⟨_, ?_, hend.epochs, hend.healthy, hend.busy, hend.emitted, hend.idle⟩
  cases hhealthy : c.healthy with
  | false => exact .same rfl
  | true => exact .changed (by simp) rfl

/-- A reset is refused with its event, or starts without one. -/
theorem startReset_after (h : Idle c) (hasPort : Bool) :
    (∃ code, code ≠ .success ∧ (c.startReset declaration hasPort reason).2 = .error code ∧
      After c c.epochs c.healthy c.busy [.reset reason c.epochs.lastEpoch none noCounts 0 declaration code]
        (c.startReset declaration hasPort reason).1) ∨
    ((c.startReset declaration hasPort reason).2 = .ok (.started reason c.epochs.lastEpoch) ∧
      c.busy = false ∧
      After c c.epochs c.healthy true [] (c.startReset declaration hasPort reason).1) := by
  have hopen : c.entryOpen (.resetClockReference reason) = true := by
    simp [entryOpen, h.delivering, h.providerDepth]
  have hreject {code : ResetOutcome} (hcode : code ≠ .success) :
      After c c.epochs c.healthy c.busy
        [.reset reason c.epochs.lastEpoch none noCounts 0 declaration code]
        (c.rejectReset declaration reason code) := by
    unfold rejectReset resetEvent
    rw [emit_idle h, if_neg hcode]
    exact ⟨rfl, rfl, rfl, rfl, h.delivering, h.providerDepth⟩
  unfold startReset
  rw [if_neg (by simp [hopen])]
  split
  · exact .inl ⟨.resetInProgress, by simp, rfl, hreject (by simp)⟩
  · rename_i hbusy
    split
    · exact .inl ⟨.resetUnsupportedStore, by simp, rfl, hreject (by simp)⟩
    · exact .inr ⟨rfl, by simpa using hbusy, rfl, rfl, rfl, (List.append_nil _).symm, h.delivering,
        h.providerDepth⟩

/-- The observation of a sample that is no reference is not healthy. -/
theorem unhealthy_of_create_error {policy : ClockPolicy} {sample : ClockSample} {e : ProfileError}
    (h : createClockTracker policy sample = .error e) (t : ClockTracker) :
    (t.observe A sample).2.isHealthy = false := by
  unfold createClockTracker at h
  unfold ClockTracker.observe ClockTracker.observation
  dsimp only
  split
  · rfl
  · split
    · rename_i wall monotonic hwall hmonotonic
      rw [hwall, hmonotonic] at h
      simp [pure, Except.pure] at h
    · rfl

/-- A reset that has no sample leaves the epoch open. -/
theorem abandonReset_after (h : Idle c) {policy : ClockPolicy} {sample : ClockSample} {e : ProfileError}
    (herror : createClockTracker policy sample = .error e) (oldEpoch : ℕ) :
    ∃ events, HealthChanges c.epochs.activeEpoch c.healthy false events ∧
      After c c.epochs false false
        (events ++ [.reset reason oldEpoch none noCounts 0 declaration .resetClockUnavailable])
        (c.abandonReset A declaration reason oldEpoch sample) := by
  have hunhealthy := unhealthy_of_create_error (A := A) herror c.tracker
  obtain ⟨hcontroller, hevents⟩ := healthChange_spec
    { c with tracker := (c.tracker.observe A sample).1 } (c.tracker.observe A sample).2
  rw [hunhealthy] at hcontroller hevents
  refine ⟨_, hevents, ?_⟩
  have hidle : Idle { c with tracker := (c.tracker.observe A sample).1, healthy := false } :=
    ⟨h.delivering, h.providerDepth⟩
  have hend := endReset_after declaration reason hidle oldEpoch .resetClockUnavailable
    noCounts 0 ({ c with tracker := (c.tracker.observe A sample).1 }.healthChange
      (c.tracker.observe A sample).2).2
  unfold abandonReset
  dsimp only
  rw [hcontroller]
  exact ⟨hend.epochs, hend.healthy, hend.busy, hend.emitted, hend.idle⟩

/-- A reset fails and closes the epoch, or opens the next one. -/
theorem concludeReset_after (h : Idle c) (oldEpoch invalidated : ℕ) (counts : MemoryCleanupReport)
    (replacement : ClockTracker) (sample : ClockSample) :
    (∃ events, HealthChanges none c.healthy false events ∧
      After c c.epochs.invalidate.2 false false (events ++ [.reset reason oldEpoch none counts
        (invalidated + c.epochs.inFlight) declaration .resetFailed])
        (c.concludeReset A declaration reason oldEpoch invalidated counts replacement sample).1) ∨
    ∃ epochs events, c.epochs.activateNext = some epochs ∧
      HealthChanges epochs.activeEpoch c.healthy true events ∧
      After c epochs true false (events ++ [.reset reason oldEpoch epochs.activeEpoch counts invalidated
        declaration .success])
        (c.concludeReset A declaration reason oldEpoch invalidated counts replacement sample).1 := by
  unfold concludeReset
  split
  · rename_i tracker effective now epochs hobserve hactivate
    right
    have hidle : Idle ({ c with epochs, tracker }.setHealthy true) := ⟨h.delivering, h.providerDepth⟩
    have hend := endReset_after declaration reason hidle oldEpoch .success counts
      invalidated (if c.healthy then [] else [.clockHealth epochs.activeEpoch none])
    refine ⟨epochs, _, hactivate, ?_, hend.epochs, hend.healthy, hend.busy, hend.emitted, hend.idle⟩
    cases hhealthy : c.healthy with
    | true => exact .same rfl
    | false => exact .changed (by simp) rfl
  · exact .inl (failReset_after declaration reason h oldEpoch counts invalidated)

end Controller

/-! ## Steps -/

namespace ControllerSystem

open Controller (After Idle noCounts)

/-- What a reset records when it closes the epoch. -/
def closedRecords (s : ControllerSystem) (call : ℕ) : List ControllerRecord :=
  s.controller.epochs.activeEpoch.toList.map fun epoch =>
    .closed call epoch (s.controller.epochs.unfinished epoch)

/-- The end of a reset call, with what it records before, the operations it has invalidated, and the epochs
at that point. -/
inductive Ends (s : ControllerSystem) (call : ℕ) (reason : ResetReason) (oldEpoch : ℕ) :
    List ControllerRecord → ℕ → OperationEpochs → Prop
  | atOnce : s.reset = some (call, .started reason oldEpoch) →
      Ends s call reason oldEpoch (s.closedRecords call) s.controller.epochs.inFlight
        s.controller.epochs.invalidate.2
  | cleaned {invalidated : ℕ} {replacement : ClockTracker} {cleanup : Cleanup} :
      s.reset = some (call, .clearing reason oldEpoch invalidated replacement cleanup) →
      Ends s call reason oldEpoch [] invalidated s.controller.epochs

/-- What a step does. -/
inductive StepCase (s : ControllerSystem) : ControllerSystem → List ControllerRecord → Prop
  | operation {c' : Controller} {epochs : OperationEpochs} {healthy : Bool}
      {events : List SecurityContextEvent} {begun : List ControllerRecord} :
      HealthChanges s.controller.epochs.activeEpoch s.controller.healthy healthy events →
      EpochChanges s.controller.epochs epochs begun →
      After s.controller epochs healthy s.controller.busy events c' →
      StepCase s { s with controller := c' } (events.map (.emitted none) ++ begun)
  | refused {c' : Controller} {reason : ResetReason} {declaration : Option RetentionClock}
      {code : ResetOutcome} : code ≠ .success →
      After s.controller s.controller.epochs s.controller.healthy s.controller.busy
        [.reset reason s.controller.epochs.lastEpoch none noCounts 0 declaration code] c' →
      StepCase s ⟨c', s.calls + 1, s.reset⟩ [.called s.calls, .emitted (some s.calls)
        (.reset reason s.controller.epochs.lastEpoch none noCounts 0 declaration code)]
  | accepted {c' : Controller} {reason : ResetReason} : s.controller.busy = false →
      After s.controller s.controller.epochs s.controller.healthy true [] c' →
      StepCase s ⟨c', s.calls + 1, some (s.calls, .started reason s.controller.epochs.lastEpoch)⟩
        [.called s.calls]
  | abandoned {c' : Controller} {call oldEpoch : ℕ} {reason : ResetReason}
      {declaration : Option RetentionClock} {events : List SecurityContextEvent} :
      s.reset = some (call, .started reason oldEpoch) →
      HealthChanges s.controller.epochs.activeEpoch s.controller.healthy false events →
      After s.controller s.controller.epochs false false
        (events ++ [.reset reason oldEpoch none noCounts 0 declaration .resetClockUnavailable]) c' →
      StepCase s ⟨c', s.calls, none⟩ (events.map (.emitted (some call)) ++
        [.emitted (some call) (.reset reason oldEpoch none noCounts 0 declaration .resetClockUnavailable)])
  | clearing {c' : Controller} {call oldEpoch : ℕ} {reason : ResetReason} {replacement : ClockTracker}
      {cleanup : Cleanup} : s.reset = some (call, .started reason oldEpoch) →
      After s.controller s.controller.epochs.invalidate.2 s.controller.healthy s.controller.busy [] c' →
      StepCase s ⟨c', s.calls, some (call, .clearing reason oldEpoch s.controller.epochs.inFlight
        replacement cleanup)⟩ (s.closedRecords call)
  | failed {c' : Controller} {call oldEpoch invalidated : ℕ} {reason : ResetReason}
      {closed : List ControllerRecord} {epochs : OperationEpochs} {counts : MemoryCleanupReport}
      {declaration : Option RetentionClock} {events : List SecurityContextEvent} :
      Ends s call reason oldEpoch closed invalidated epochs →
      HealthChanges none s.controller.healthy false events →
      After s.controller epochs.invalidate.2 false false (events ++ [.reset reason oldEpoch none counts
        (invalidated + epochs.inFlight) declaration .resetFailed]) c' →
      StepCase s ⟨c', s.calls, none⟩ (closed ++ (events.map (.emitted (some call)) ++
        [.emitted (some call) (.reset reason oldEpoch none counts (invalidated + epochs.inFlight) declaration
          .resetFailed)]))
  | succeeded {c' : Controller} {call oldEpoch invalidated : ℕ} {reason : ResetReason}
      {closed : List ControllerRecord} {epochs epochs' : OperationEpochs} {counts : MemoryCleanupReport}
      {declaration : Option RetentionClock} {events : List SecurityContextEvent} :
      Ends s call reason oldEpoch closed invalidated epochs → epochs.activateNext = some epochs' →
      HealthChanges epochs'.activeEpoch s.controller.healthy true events →
      After s.controller epochs' true false (events ++ [.reset reason oldEpoch epochs'.activeEpoch counts
        invalidated declaration .success]) c' →
      StepCase s ⟨c', s.calls, none⟩ (closed ++ (events.map (.emitted (some call)) ++
        [.emitted (some call) (.reset reason oldEpoch epochs'.activeEpoch counts invalidated declaration
          .success)]))

variable {A : Rounding} {declaration : Option RetentionClock} {hasPort : Bool} {s t : ControllerSystem}
  {es : List ControllerRecord}

/-- The conclusion of a reset, from the point where it ends. -/
theorem stepCase_conclude {call oldEpoch invalidated : ℕ} {reason : ResetReason}
    {closed : List ControllerRecord} {epochs : OperationEpochs} {c : Controller}
    (hends : Ends s call reason oldEpoch closed invalidated epochs) (hc : c = s.controller.withEpochs epochs)
    (hidle : Idle s.controller) (counts : MemoryCleanupReport) (replacement : ClockTracker)
    (sample : ClockSample) :
    StepCase s ⟨(c.concludeReset A declaration reason oldEpoch invalidated counts replacement sample).1,
        s.calls, none⟩
      (closed ++ emittedSince (some call) s.controller
        (c.concludeReset A declaration reason oldEpoch invalidated counts replacement sample).1) := by
  subst hc
  have hidle' : Idle (s.controller.withEpochs epochs) := ⟨hidle.delivering, hidle.providerDepth⟩
  rcases Controller.concludeReset_after (A := A) declaration reason hidle' oldEpoch
    invalidated counts replacement sample with ⟨events, hhealth, hafter⟩ |
      ⟨epochs', events, hactivate, hhealth, hafter⟩
  · have hafter' : After s.controller epochs.invalidate.2 false false _ _ :=
      ⟨hafter.epochs, hafter.healthy, hafter.busy, hafter.emitted, hafter.idle⟩
    rw [hafter'.emittedSince, List.map_append]
    exact .failed hends hhealth hafter'
  · have hafter' : After s.controller epochs' true false _ _ :=
      ⟨hafter.epochs, hafter.healthy, hafter.busy, hafter.emitted, hafter.idle⟩
    rw [hafter'.emittedSince, List.map_append]
    exact .succeeded hends hactivate hhealth hafter'

/-- A reset that fails, from the point where it ends. -/
theorem stepCase_fail {call oldEpoch invalidated : ℕ} {reason : ResetReason}
    {closed : List ControllerRecord} {epochs : OperationEpochs} {c : Controller}
    (hends : Ends s call reason oldEpoch closed invalidated epochs) (hc : c = s.controller.withEpochs epochs)
    (hidle : Idle s.controller) (counts : MemoryCleanupReport) :
    StepCase s ⟨c.failReset declaration reason oldEpoch counts invalidated, s.calls, none⟩
      (closed ++ emittedSince (some call) s.controller
        (c.failReset declaration reason oldEpoch counts invalidated)) := by
  subst hc
  have hidle' : Idle (s.controller.withEpochs epochs) := ⟨hidle.delivering, hidle.providerDepth⟩
  obtain ⟨events, hhealth, hafter⟩ := Controller.failReset_after declaration reason hidle' oldEpoch counts invalidated
  have hafter' : After s.controller epochs.invalidate.2 false false _ _ :=
    ⟨hafter.epochs, hafter.healthy, hafter.busy, hafter.emitted, hafter.idle⟩
  rw [hafter'.emittedSince, List.map_append]
  exact .failed hends hhealth hafter'

/-- **What each step does.** -/
theorem stepCase_of_step {action : ControllerAction} (hidle : Idle s.controller)
    (h : s.step A declaration hasPort action = some (t, es)) : StepCase s t es := by
  unfold step at h
  cases action with
  | begin sample =>
    obtain ⟨healthy, events, hhealth, hafter⟩ :=
      Controller.currentTime_after (A := A) hidle none sample
    dsimp only at h
    obtain ⟨rfl, rfl⟩ := Prod.mk.inj (Option.some.inj h)
    unfold Controller.beginOperation
    cases hnow : s.controller.currentTime A none sample with
    | mk c result =>
      rw [hnow] at hafter
      cases result with
      | error e =>
        dsimp only
        rw [hafter.emittedSince]
        exact .operation hhealth .same hafter
      | ok now =>
        dsimp only
        cases hbegin : c.epochs.begin with
        | error e =>
          dsimp only
          rw [hafter.emittedSince]
          exact .operation hhealth .same hafter
        | ok begun =>
          obtain ⟨lease, epochs⟩ := begun
          obtain ⟨epoch, -, -, hactive, -⟩ := OperationEpochs.begin_spec hbegin
          have hafter' := hafter.withEpochs epochs
          have hepochs : (c.withEpochs epochs).epochs.activeEpoch = some epoch := hactive
          dsimp only
          rw [hafter'.emittedSince, hepochs]
          rw [hafter.epochs] at hbegin
          exact .operation hhealth (.begin hbegin hactive) hafter'
  | now lease sample =>
    dsimp only at h
    obtain ⟨healthy, events, hhealth, hafter⟩ :=
      Controller.currentTime_after (A := A) hidle (some lease) sample
    obtain ⟨rfl, rfl⟩ := Prod.mk.inj (Option.some.inj h)
    rw [hafter.emittedSince, ← List.append_nil (events.map _)]
    exact .operation hhealth .same hafter
  | complete lease sample =>
    dsimp only at h
    obtain ⟨healthy, events, hhealth, hafter⟩ :=
      Controller.currentTime_after (A := A) hidle (some lease) sample
    obtain ⟨rfl, rfl⟩ := Prod.mk.inj (Option.some.inj h)
    unfold Controller.completeOperation
    cases hnow : s.controller.currentTime A (some lease) sample with
    | mk c result =>
      rw [hnow] at hafter
      cases result with
      | error e =>
        dsimp only
        rw [hafter.emittedSince, ← List.append_nil (events.map _)]
        exact .operation hhealth .same hafter
      | ok now =>
        have hafter' := hafter.withEpochs (c.epochs.finish lease)
        dsimp only
        have hepochs : EpochChanges s.controller.epochs (c.epochs.finish lease) [] := by
          rw [hafter.epochs]
          exact .finish
        rw [hafter'.emittedSince, ← List.append_nil (events.map _)]
        exact .operation hhealth hepochs hafter'
  | finish lease =>
    dsimp only at h
    obtain ⟨rfl, rfl⟩ := Prod.mk.inj (Option.some.inj h)
    have hrefl := Controller.after_refl hidle
    unfold Controller.finishOperation
    split
    · exact .operation (.same rfl) .finish (hrefl.withEpochs _)
    · exact .operation (.same rfl) .same hrefl
  | startReset reason =>
    dsimp only at h
    obtain ⟨rfl, rfl⟩ := Prod.mk.inj (Option.some.inj h)
    rcases Controller.startReset_after declaration reason hidle hasPort with
      ⟨code, hcode, hresult, hafter⟩ | ⟨hresult, hbusy, hafter⟩
    · rw [hresult, hafter.emittedSince]
      exact .refused hcode hafter
    · rw [hresult, hafter.emittedSince]
      exact .accepted hbusy hafter
  | prepareReset cleanup sample final =>
    dsimp only at h
    split at h
    · rename_i call reason oldEpoch hreset
      split at h
      · rename_i e herror
        obtain ⟨rfl, rfl⟩ := Prod.mk.inj (Option.some.inj h)
        obtain ⟨events, hhealth, hafter⟩ :=
          Controller.abandonReset_after (A := A) declaration reason hidle herror oldEpoch
        rw [hafter.emittedSince, List.map_append]
        exact .abandoned hreset hhealth hafter
      · rename_i replacement hreplacement
        obtain ⟨rfl, rfl⟩ := Prod.mk.inj (Option.some.inj h)
        unfold Controller.prepareReset
        dsimp only
        split
        · split
          · have hafter : After s.controller s.controller.epochs.invalidate.2 s.controller.healthy
                s.controller.busy [] (s.controller.withEpochs s.controller.epochs.invalidate.2) :=
              ⟨rfl, rfl, rfl, (List.append_nil _).symm, hidle.delivering, hidle.providerDepth⟩
            dsimp only
            rw [hafter.emittedSince, List.map_nil, List.append_nil]
            exact .clearing hreset hafter
          · exact stepCase_conclude (.atOnce hreset) rfl hidle _ _ _
        · exact stepCase_fail (.atOnce hreset) rfl hidle _
    · simp at h
  | finishReset final =>
    dsimp only at h
    split at h
    · rename_i call reason oldEpoch invalidated replacement cleanup hreset
      obtain ⟨rfl, rfl⟩ := Prod.mk.inj (Option.some.inj h)
      unfold Controller.finishReset
      split
      · exact stepCase_fail (.cleaned hreset) rfl hidle _
      · exact stepCase_conclude (.cleaned hreset) rfl hidle _ _ _
    · simp at h

end ControllerSystem

end AgentSig.Profiles
