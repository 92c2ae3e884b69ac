import AgentSig.Profiles.ClockTracker
import AgentSig.Profiles.OperationEpochs
import AgentSig.Profiles.ReplayStore

/-!
# The security context controller

The controller gates every operation on the health of the clock and on the epoch of its lease. A
clock provider, an observer or a store may call back into the controller, but while one of them
runs no entry of the controller is open, so a callback leaves the controller as it is and a
sample is one step. A reset closes the epoch before it clears anything, and opens the next one
only when everything else has succeeded.

## Main definitions

* `Controller`: the state of the controller
* `currentTime`, `beginOperation`, `completeOperation`, `finishOperation`: its entries
* `startReset`, `prepareReset`, `finishReset`: the phases of `resetClockReference`

## Main results

* `entryOpen_eq_false_of_provider`, `entryOpen_eq_false_of_observer`: no entry in a callback
* `currentTime_sampled`, `currentTime_ok`: what a time check changes, and when it succeeds
* `beginOperation_spec`, `completeOperation_spec`: the first and the last check of an operation
-/

namespace AgentSig.Profiles

open Commons Core StructuredFields

/-- The reason of an unhealthy clock-health event. -/
inductive HealthReason
  | clock (reason : ClockHealthReason)
  | resetFailed
  deriving DecidableEq, Repr

/-- `ResetReason`. -/
inductive ResetReason
  | operator
  | health
  deriving DecidableEq, Repr

/-- The outcome of a reset: success, or an `OperatorErrorCode`. -/
inductive ResetOutcome
  | success
  | resetInProgress
  | resetUnsupportedStore
  | resetClockUnavailable
  | resetFailed
  deriving DecidableEq, Repr

/-- `SecurityContextEvent`. -/
inductive SecurityContextEvent
  | clockHealth (epoch : Option ℕ) (unhealthy : Option HealthReason)
  | reset (reason : ResetReason) (oldEpoch : ℕ) (newEpoch : Option ℕ)
      (counts : MemoryCleanupReport) (invalidatedOperations : ℕ)
      (storeDeclaration : Option RetentionClock) (outcome : ResetOutcome)
  deriving DecidableEq, Repr

/-- The state of `createSecurityContextController`, with the events it has emitted. -/
structure Controller where
  policy : ClockPolicy
  epochs : OperationEpochs
  tracker : ClockTracker
  healthy : Bool
  busy : Bool
  providerDepth : ℕ
  delivering : Bool
  emitted : List SecurityContextEvent

/-- `createSecurityContextController`. -/
def createSecurityContextController (policy : ClockPolicy) (first : ClockSample) :
    Except ProfileError Controller := do
  let tracker ← createClockTracker policy first
  return ⟨policy, .create, tracker, true, false, 0, false, []⟩

/-- A call of the controller. -/
inductive Entry
  | beginOperation
  | now (lease : LeaseId)
  | consume (lease : LeaseId)
  | completeOperation (lease : LeaseId)
  | finishOperation (lease : LeaseId)
  | resetClockReference (reason : ResetReason)
  deriving DecidableEq, Repr

/-- A reset between two of its steps. -/
inductive ResetPhase
  /-- Before the first sample is taken. -/
  | started (reason : ResetReason) (oldEpoch : ℕ)
  /-- After the old epoch was closed, while memory is cleared. -/
  | clearing (reason : ResetReason) (oldEpoch invalidated : ℕ) (replacement : ClockTracker)
      (cleanup : Cleanup)

namespace Controller

/-- The condition of `requireOpen`. -/
def isOpen (c : Controller) : Bool :=
  !c.busy && !c.delivering && c.providerDepth == 0 && c.epochs.activeEpoch.isSome

/-- Whether a call passes its first guard. A call that does not is rejected at once. -/
def entryOpen (c : Controller) : Entry → Bool
  | .finishOperation _ | .resetClockReference _ => !c.delivering && c.providerDepth == 0
  | _ => c.isOpen

/-- The controller while a clock provider or a store runs. -/
def inProvider (c : Controller) : Controller := { c with providerDepth := c.providerDepth + 1 }

/-- The controller while the observer runs. -/
def inObserver (c : Controller) : Controller := { c with delivering := true }

/-- No entry is open while a provider runs. -/
theorem entryOpen_eq_false_of_provider (c : Controller) (entry : Entry) :
    c.inProvider.entryOpen entry = false := by
  cases entry <;> simp [entryOpen, isOpen, inProvider]

/-- No entry is open while the observer runs. -/
theorem entryOpen_eq_false_of_observer (c : Controller) (entry : Entry) :
    c.inObserver.entryOpen entry = false := by
  cases entry <;> simp [entryOpen, isOpen, inObserver]

/-! ## Time -/

/-- `emit`. -/
def emit (c : Controller) (event : SecurityContextEvent) : Controller :=
  if c.delivering then c else { c with emitted := c.emitted ++ [event] }

/-- `emit`, of several events. -/
def emitAll (c : Controller) (events : List SecurityContextEvent) : Controller :=
  events.foldl emit c

/-- The controller with a new health. -/
def setHealthy (c : Controller) (healthy : Bool) : Controller := { c with healthy }

/-- `healthChange`, with the event if there is one. -/
def healthChange (c : Controller) (observation : ClockObservation) :
    Controller × List SecurityContextEvent :=
  if c.healthy = observation.isHealthy then (c, [])
  else (c.setHealthy observation.isHealthy, match observation with
    | .healthy _ _ => [.clockHealth c.epochs.activeEpoch none]
    | .unhealthy reason => [.clockHealth c.epochs.activeEpoch (some (.clock reason))])

/-- `requireOpen`, and `assertCurrent` if there is a lease. -/
def admits (c : Controller) (lease : Option LeaseId) : Bool :=
  c.isOpen && lease.all c.epochs.isCurrent

/-- The controller after an observation of its tracker. -/
def observe (A : Rounding) (c : Controller) (sample : ClockSample) :
    Controller × ClockObservation :=
  let (tracker, observation) := c.tracker.observe A sample
  let (c, events) := { c with tracker }.healthChange observation
  (c.emitAll events, observation)

/-- `currentTime`. The controller changes also where it throws. -/
def currentTime (A : Rounding) (c : Controller) (lease : Option LeaseId) (sample : ClockSample) :
    Controller × Except ProfileError ℤ :=
  if !c.admits lease then (c, .error clockUnavailable)
  else
    let (c, observation) := c.observe A sample
    if !c.admits lease then (c, .error clockUnavailable)
    else match observation with
    | .healthy _ epochSeconds => (c, .ok epochSeconds)
    | .unhealthy _ => (c, .error clockUnavailable)

/-- The controller with new epochs. -/
def withEpochs (c : Controller) (epochs : OperationEpochs) : Controller := { c with epochs }

/-- `beginOperation`. -/
def beginOperation (A : Rounding) (c : Controller) (sample : ClockSample) :
    Controller × Except ProfileError LeaseId :=
  match c.currentTime A none sample with
  | (c, .error e) => (c, .error e)
  | (c, .ok _) =>
    match c.epochs.begin with
    | .error e => (c, .error e)
    | .ok (lease, epochs) => (c.withEpochs epochs, .ok lease)

/-- `finishOperation`, outside callbacks. -/
def finishOperation (c : Controller) (lease : LeaseId) : Controller :=
  if c.entryOpen (.finishOperation lease) then c.withEpochs (c.epochs.finish lease) else c

/-- `completeOperation`. -/
def completeOperation (A : Rounding) (c : Controller) (lease : LeaseId) (sample : ClockSample) :
    Controller × Except ProfileError ℤ :=
  match c.currentTime A (some lease) sample with
  | (c, .error e) => (c, .error e)
  | (c, .ok now) => (c.withEpochs (c.epochs.finish lease), .ok now)

/-! ## Resets -/

/-- No record was cleared. -/
def noCounts : MemoryCleanupReport := ⟨some 0, some 0⟩

/-- `resetEvent`. -/
def resetEvent (c : Controller) (declaration : Option RetentionClock) (reason : ResetReason)
    (oldEpoch : ℕ) (outcome : ResetOutcome) (counts : MemoryCleanupReport) (invalidated : ℕ) :
    SecurityContextEvent :=
  .reset reason oldEpoch (if outcome = .success then c.epochs.activeEpoch else none) counts
    invalidated declaration outcome

/-- `rejectReset`. -/
def rejectReset (c : Controller) (declaration : Option RetentionClock) (reason : ResetReason)
    (code : ResetOutcome) : Controller :=
  c.emit (c.resetEvent declaration reason c.epochs.lastEpoch code noCounts 0)

/-- The end of a reset, when its health events and its own event are emitted. -/
def endReset (c : Controller) (declaration : Option RetentionClock) (reason : ResetReason)
    (oldEpoch : ℕ) (outcome : ResetOutcome) (counts : MemoryCleanupReport) (invalidated : ℕ)
    (healthEvents : List SecurityContextEvent) : Controller :=
  let c := { c with busy := false }
  (c.emitAll healthEvents).emit (c.resetEvent declaration reason oldEpoch outcome counts invalidated)

/-- The handler of a reset that failed after it closed the old epoch. -/
def failReset (c : Controller) (declaration : Option RetentionClock) (reason : ResetReason)
    (oldEpoch : ℕ) (counts : MemoryCleanupReport) (invalidated : ℕ) : Controller :=
  let (more, epochs) := c.epochs.invalidate
  let events := if c.healthy then [.clockHealth none (some .resetFailed)] else []
  ((c.withEpochs epochs).setHealthy false).endReset declaration reason oldEpoch .resetFailed counts
    (invalidated + more) events

/-- The start of `resetClockReference`, before its first await. -/
def startReset (c : Controller) (declaration : Option RetentionClock) (hasPort : Bool)
    (reason : ResetReason) : Controller × Except ResetOutcome ResetPhase :=
  if !c.entryOpen (.resetClockReference reason) then (c, .error .resetInProgress)
  else if c.busy then (c.rejectReset declaration reason .resetInProgress, .error .resetInProgress)
  else if declaration = none ∨ (declaration = some .processClock ∧ !hasPort) then
    (c.rejectReset declaration reason .resetUnsupportedStore, .error .resetUnsupportedStore)
  else ({ c with busy := true }, .ok (.started reason c.epochs.lastEpoch))

/-- The first sample of a reset is no reference: the old epoch stays open. -/
def abandonReset (A : Rounding) (c : Controller) (declaration : Option RetentionClock)
    (reason : ResetReason) (oldEpoch : ℕ) (sample : ClockSample) : Controller :=
  let (tracker, observation) := c.tracker.observe A sample
  let (c, events) := { c with tracker }.healthChange observation
  c.endReset declaration reason oldEpoch .resetClockUnavailable noCounts 0 events

/-- `validCount`. -/
def validCount (count : Option ℕ) : Bool := count.all (· ≤ maxSafeInteger)

/-- The counts of a cleanup that succeeded. -/
def cleanupCounts : Cleanup → Option MemoryCleanupReport
  | .report report =>
    if validCount report.clearedRecords && validCount report.clearedQuotaCounters then some report
    else none
  | _ => none

/-- The counts that a failed cleanup leaves. -/
def failedCounts : Cleanup → MemoryCleanupReport
  | .threw (some progress) => progress
  | _ => ⟨none, none⟩

/-- The reset commits: the next epoch is opened with the prepared tracker. -/
def commitReset (c : Controller) (declaration : Option RetentionClock) (reason : ResetReason)
    (oldEpoch invalidated : ℕ) (counts : MemoryCleanupReport) (replacement : ClockTracker)
    (epochs : OperationEpochs) : Controller :=
  let events := if c.healthy then [] else [.clockHealth epochs.activeEpoch none]
  ({ c with epochs, tracker := replacement }.setHealthy true).endReset declaration reason oldEpoch
    .success counts invalidated events

/-- The final sample of a reset, and its commit. -/
def concludeReset (A : Rounding) (c : Controller) (declaration : Option RetentionClock)
    (reason : ResetReason) (oldEpoch invalidated : ℕ) (counts : MemoryCleanupReport)
    (replacement : ClockTracker) (sample : ClockSample) : Controller × ResetOutcome :=
  match replacement.observe A sample, c.epochs.activateNext with
  | (replacement, .healthy _ _), some epochs =>
    (c.commitReset declaration reason oldEpoch invalidated counts replacement epochs, .success)
  | _, _ => (c.failReset declaration reason oldEpoch counts invalidated, .resetFailed)

/-- The end of a reset, after its cleanup. -/
def finishReset (A : Rounding) (c : Controller) (declaration : Option RetentionClock)
    (reason : ResetReason) (oldEpoch invalidated : ℕ) (replacement : ClockTracker)
    (cleanup : Cleanup) (sample : ClockSample) : Controller × ResetOutcome :=
  match cleanupCounts cleanup with
  | none => (c.failReset declaration reason oldEpoch (failedCounts cleanup) invalidated, .resetFailed)
  | some counts =>
    c.concludeReset A declaration reason oldEpoch invalidated counts replacement sample

/-! ## What an entry changes -/

variable {A : Rounding} {c c' : Controller} {lease : LeaseId} {now : ℤ}

theorem emit_eq (c : Controller) (event : SecurityContextEvent) :
    ∃ emitted, c.emit event = { c with emitted } := by
  unfold emit
  split
  · exact ⟨c.emitted, rfl⟩
  · exact ⟨_, rfl⟩

theorem emitAll_eq (c : Controller) (events : List SecurityContextEvent) :
    ∃ emitted, c.emitAll events = { c with emitted } := by
  induction events generalizing c with
  | nil => exact ⟨c.emitted, rfl⟩
  | cons event events ih =>
    obtain ⟨emitted, h⟩ := emit_eq c event
    obtain ⟨emitted', h'⟩ := ih (c.emit event)
    exact ⟨emitted', by rw [emitAll, List.foldl_cons, ← emitAll, h', h]⟩

theorem healthChange_eq (c : Controller) (observation : ClockObservation) :
    ∃ healthy, (c.healthChange observation).1 = { c with healthy } := by
  unfold healthChange
  split
  · exact ⟨c.healthy, rfl⟩
  · exact ⟨_, rfl⟩

/-- `c'` is `c` after some samples: it differs in its clock, its health and its events. -/
structure Sampled (A : Rounding) (c c' : Controller) : Prop where
  policy : c'.policy = c.policy
  epochs : c'.epochs = c.epochs
  busy : c'.busy = c.busy
  providerDepth : c'.providerDepth = c.providerDepth
  delivering : c'.delivering = c.delivering
  reference : c'.tracker.reference = c.tracker.reference
  second_le : c.tracker.second A ≤ c'.tracker.second A

theorem Sampled.refl (A : Rounding) (c : Controller) : Sampled A c c :=
  ⟨rfl, rfl, rfl, rfl, rfl, rfl, le_rfl⟩

theorem Sampled.isOpen (h : Sampled A c c') : c'.isOpen = c.isOpen := by
  simp only [Controller.isOpen, h.busy, h.delivering, h.providerDepth, h.epochs]

theorem Sampled.admits (h : Sampled A c c') (lease : Option LeaseId) :
    c'.admits lease = c.admits lease := by
  simp only [Controller.admits, h.isOpen, h.epochs]

theorem observe_tracker (A : Rounding) (c : Controller) (sample : ClockSample) :
    c.tracker.observe A sample = ((c.observe A sample).1.tracker, (c.observe A sample).2) := by
  obtain ⟨healthy, h⟩ := healthChange_eq { c with tracker := (c.tracker.observe A sample).1 }
    (c.tracker.observe A sample).2
  obtain ⟨emitted, h'⟩ := emitAll_eq { c with tracker := (c.tracker.observe A sample).1, healthy }
    ({ c with tracker := (c.tracker.observe A sample).1 }.healthChange
      (c.tracker.observe A sample).2).2
  simp only [observe, h, h']

theorem observe_sampled (A : Rounding) (c : Controller) (sample : ClockSample) :
    Sampled A c (c.observe A sample).1 := by
  obtain ⟨healthy, h⟩ := healthChange_eq { c with tracker := (c.tracker.observe A sample).1 }
    (c.tracker.observe A sample).2
  obtain ⟨emitted, h'⟩ := emitAll_eq { c with tracker := (c.tracker.observe A sample).1, healthy }
    ({ c with tracker := (c.tracker.observe A sample).1 }.healthChange
      (c.tracker.observe A sample).2).2
  simp only [observe, h, h']
  exact ⟨rfl, rfl, rfl, rfl, rfl, ClockTracker.reference_observe A _ _,
    ClockTracker.second_le_observe A _ _⟩

/-- A time check changes the clock, the health and the events only. -/
theorem currentTime_sampled (A : Rounding) (c : Controller) (lease : Option LeaseId)
    (sample : ClockSample) : Sampled A c (c.currentTime A lease sample).1 := by
  unfold currentTime
  split
  · exact .refl A c
  · simp only
    split
    · exact observe_sampled A c sample
    · split <;> exact observe_sampled A c sample

/-- A closed context reads no clock. -/
theorem currentTime_closed (h : c.isOpen = false) (lease : Option LeaseId) (sample : ClockSample) :
    c.currentTime A lease sample = (c, .error clockUnavailable) := by
  simp [currentTime, admits, h]

/-- No operation begins in a closed context. -/
theorem beginOperation_closed (h : c.isOpen = false) (sample : ClockSample) :
    c.beginOperation A sample = (c, .error clockUnavailable) := by
  simp only [beginOperation, currentTime_closed h]

/-- No operation completes in a closed context. -/
theorem completeOperation_closed (h : c.isOpen = false) (lease : LeaseId) (sample : ClockSample) :
    c.completeOperation A lease sample = (c, .error clockUnavailable) := by
  simp only [completeOperation, currentTime_closed h]

/-- A time check succeeds in an open context, for a current lease, on a healthy observation. -/
theorem currentTime_ok {lease : Option LeaseId} {sample : ClockSample}
    (h : (c.currentTime A lease sample).2 = .ok now) :
    c.admits lease ∧ ∃ effective, c.tracker.observe A sample =
      ((c.currentTime A lease sample).1.tracker, .healthy effective now) := by
  unfold currentTime at h ⊢
  split at h
  · simp at h
  · rename_i hadmits
    rw [if_neg hadmits]
    refine ⟨by simpa using hadmits, ?_⟩
    simp only at h ⊢
    split at h
    · simp at h
    · rename_i hadmits'
      rw [if_neg hadmits']
      have hobserve := observe_tracker A c sample
      cases hobservation : (c.observe A sample).2 with
      | healthy effective epochSeconds =>
        rw [hobservation] at h hobserve
        obtain rfl := Except.ok.inj h
        exact ⟨effective, hobserve⟩
      | unhealthy reason =>
        rw [hobservation] at h
        simp at h

/-- The epochs continue under the same reference, and the time does not go back. -/
structure Continues (A : Rounding) (c c' : Controller) : Prop where
  epochs : OperationEpochs.Continues c.epochs c'.epochs
  busy : c'.busy = c.busy
  providerDepth : c'.providerDepth = c.providerDepth
  delivering : c'.delivering = c.delivering
  reference : c'.tracker.reference = c.tracker.reference
  second_le : c.tracker.second A ≤ c'.tracker.second A

theorem Continues.refl (A : Rounding) (c : Controller) : Continues A c c :=
  ⟨.refl _, rfl, rfl, rfl, rfl, le_rfl⟩

theorem Continues.trans {c'' : Controller} (h : Continues A c c') (h' : Continues A c' c'') :
    Continues A c c'' :=
  ⟨h.epochs.trans h'.epochs, h'.busy.trans h.busy, h'.providerDepth.trans h.providerDepth,
    h'.delivering.trans h.delivering, h'.reference.trans h.reference,
    h.second_le.trans h'.second_le⟩

theorem Sampled.continues (h : Sampled A c c') : Continues A c c' :=
  ⟨h.epochs ▸ .refl _, h.busy, h.providerDepth, h.delivering, h.reference, h.second_le⟩

/-- The controller with epochs that continue. -/
theorem withEpochs_continues (A : Rounding) (c : Controller) {epochs : OperationEpochs}
    (h : OperationEpochs.Continues c.epochs epochs) : Continues A c (c.withEpochs epochs) :=
  ⟨h, rfl, rfl, rfl, rfl, le_rfl⟩

theorem currentTime_continues (A : Rounding) (c : Controller) (lease : Option LeaseId)
    (sample : ClockSample) : Continues A c (c.currentTime A lease sample).1 :=
  (currentTime_sampled A c lease sample).continues

theorem finishOperation_continues (A : Rounding) (c : Controller) (lease : LeaseId) :
    Continues A c (c.finishOperation lease) := by
  unfold finishOperation
  split
  · exact withEpochs_continues A c (OperationEpochs.finish_continues _ _)
  · exact .refl A c

/-- A completion is a time check that finishes the lease. -/
theorem completeOperation_spec (A : Rounding) (c : Controller) (lease : LeaseId)
    (sample : ClockSample) :
    (c.completeOperation A lease sample).2 = (c.currentTime A (some lease) sample).2 ∧
      Continues A c (c.completeOperation A lease sample).1 := by
  have hsampled := currentTime_continues A c (some lease) sample
  unfold completeOperation
  split
  · rename_i heq
    exact ⟨by rw [heq], by rwa [heq] at hsampled⟩
  · rename_i heq
    rw [heq] at hsampled
    exact ⟨by rw [heq], hsampled.trans
      (withEpochs_continues A _ (OperationEpochs.finish_continues _ _))⟩

/-- An operation begins with a new lease of the active epoch. -/
theorem beginOperation_spec (A : Rounding) (c : Controller) (sample : ClockSample) :
    Continues A c (c.beginOperation A sample).1 ∧
      ∀ lease, (c.beginOperation A sample).2 = .ok lease →
        (c.beginOperation A sample).1.epochs.isCurrent lease := by
  have hsampled := currentTime_continues A c none sample
  unfold beginOperation
  split
  · rename_i heq
    rw [heq] at hsampled
    exact ⟨hsampled, by simp⟩
  · rename_i heq
    rw [heq] at hsampled
    split
    · exact ⟨hsampled, by simp⟩
    · rename_i lease epochs hbegin
      refine ⟨hsampled.trans
        (withEpochs_continues A _ (OperationEpochs.begin_continues hbegin)), ?_⟩
      rintro lease' hlease
      obtain rfl := Except.ok.inj hlease
      exact OperationEpochs.isCurrent_begin hbegin

/-- A time check fails with one rejection only. -/
theorem currentTime_error {lease : Option LeaseId} {sample : ClockSample} {e : ProfileError}
    (h : (c.currentTime A lease sample).2 = .error e) : e = clockUnavailable := by
  unfold currentTime at h
  split at h
  · exact (Except.error.inj h).symm
  · simp only at h
    split at h
    · exact (Except.error.inj h).symm
    · split at h
      · simp at h
      · exact (Except.error.inj h).symm

/-- In an open context the epoch is active, and a lease is current. -/
theorem admits_iff : c.admits (some lease) ↔ c.isOpen ∧ c.epochs.isCurrent lease := by
  simp [admits]

end Controller

end AgentSig.Profiles
