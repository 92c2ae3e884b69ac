import AgentSig.Profiles.EngineSystem

/-!
# The steps of a reset

A reset is refused at once, or accepted. An accepted reset is abandoned when its first sample is
no reference; otherwise it closes the epoch, and then it fails, or opens the next epoch under the
reference that it has sampled.

## Main definitions

* `Controller.Resets`: a step of a reset, by what it leaves in the controller
* `Closing`: the point from which a reset fails or succeeds
* `ResetCase`: what a step of a reset does

## Main results

* `resetTurn_cases`: what each step of a reset does
* `ResetCase.open_of_open`: what a reset leaves alone while its epoch stays open
-/

namespace AgentSig.Profiles

open Commons Core StructuredFields

namespace Controller

variable (A : Rounding) (c : Controller) (declaration : Option RetentionClock) (reason : ResetReason)

/-- The controller with new epochs, a new tracker and a new `busy`; its health and its events may
differ too. -/
structure Resets (c c' : Controller) (epochs : OperationEpochs) (tracker : ClockTracker)
    (busy : Bool) : Prop where
  epochs : c'.epochs = epochs
  tracker : c'.tracker = tracker
  busy : c'.busy = busy
  providerDepth : c'.providerDepth = c.providerDepth
  delivering : c'.delivering = c.delivering

theorem rejectReset_resets (code : ResetOutcome) :
    Resets c (c.rejectReset declaration reason code) c.epochs c.tracker c.busy := by
  obtain ⟨emitted, h⟩ := emit_eq c
    (c.resetEvent declaration reason c.epochs.lastEpoch code noCounts 0)
  rw [rejectReset, h]
  exact ⟨rfl, rfl, rfl, rfl, rfl⟩

theorem endReset_resets (oldEpoch : ℕ) (outcome : ResetOutcome) (counts : MemoryCleanupReport)
    (invalidated : ℕ) (events : List SecurityContextEvent) :
    Resets c (c.endReset declaration reason oldEpoch outcome counts invalidated events) c.epochs
      c.tracker false := by
  obtain ⟨emitted, h⟩ := emitAll_eq { c with busy := false } events
  obtain ⟨emitted', h'⟩ := emit_eq { c with busy := false, emitted }
    ({ c with busy := false }.resetEvent declaration reason oldEpoch outcome counts invalidated)
  simp only [endReset, h, h']
  exact ⟨rfl, rfl, rfl, rfl, rfl⟩

theorem failReset_resets (oldEpoch : ℕ) (counts : MemoryCleanupReport) (invalidated : ℕ) :
    Resets c (c.failReset declaration reason oldEpoch counts invalidated) c.epochs.invalidate.2
      c.tracker false := by
  obtain ⟨h₁, h₂, h₃, h₄, h₅⟩ := endReset_resets
    ((c.withEpochs c.epochs.invalidate.2).setHealthy false) declaration reason oldEpoch .resetFailed
    counts (invalidated + c.epochs.invalidate.1)
    (if c.healthy then [.clockHealth none (some .resetFailed)] else [])
  exact ⟨h₁, h₂, h₃, h₄, h₅⟩

/-- A reset is refused, or makes the controller busy. -/
theorem startReset_resets (hasPort : Bool) :
    (∃ code, (c.startReset declaration hasPort reason).2 = .error code ∧
      Resets c (c.startReset declaration hasPort reason).1 c.epochs c.tracker c.busy ∧
      (code = .resetInProgress ∨ code = .resetUnsupportedStore ∧ c.busy = false) ∧
      (c.busy → code = .resetInProgress)) ∨
    ((c.startReset declaration hasPort reason).2 = .ok (.started reason c.epochs.lastEpoch) ∧
      c.busy = false ∧
      Resets c (c.startReset declaration hasPort reason).1 c.epochs c.tracker true) := by
  unfold startReset
  split
  · exact .inl ⟨_, rfl, ⟨rfl, rfl, rfl, rfl, rfl⟩, .inl rfl, fun _ => rfl⟩
  · split
    · exact .inl ⟨_, rfl, rejectReset_resets c declaration reason _, .inl rfl, fun _ => rfl⟩
    · rename_i hbusy
      split
      · exact .inl ⟨_, rfl, rejectReset_resets c declaration reason _,
          .inr ⟨rfl, by simpa using hbusy⟩, fun h => absurd h hbusy⟩
      · exact .inr ⟨rfl, by simpa using hbusy, rfl, rfl, rfl, rfl, rfl⟩

theorem abandonReset_resets (oldEpoch : ℕ) (sample : ClockSample) :
    Resets c (c.abandonReset A declaration reason oldEpoch sample) c.epochs
      (c.tracker.observe A sample).1 false := by
  obtain ⟨healthy, h⟩ := healthChange_eq { c with tracker := (c.tracker.observe A sample).1 }
    (c.tracker.observe A sample).2
  obtain ⟨h₁, h₂, h₃, h₄, h₅⟩ := endReset_resets
    { c with tracker := (c.tracker.observe A sample).1, healthy } declaration reason oldEpoch
    .resetClockUnavailable noCounts 0 ({ c with tracker := (c.tracker.observe A sample).1 }.healthChange
      (c.tracker.observe A sample).2).2
  simp only [abandonReset, h]
  exact ⟨h₁, h₂, h₃, h₄, h₅⟩

/-- A conclusion fails and closes the epoch, or opens the next one under the reference given. -/
theorem concludeReset_resets (oldEpoch invalidated : ℕ) (counts : MemoryCleanupReport)
    (replacement : ClockTracker) (sample : ClockSample) :
    ((c.concludeReset A declaration reason oldEpoch invalidated counts replacement sample).2 =
        .resetFailed ∧
      Resets c (c.concludeReset A declaration reason oldEpoch invalidated counts replacement sample).1
        c.epochs.invalidate.2 c.tracker false) ∨
    ((c.concludeReset A declaration reason oldEpoch invalidated counts replacement sample).2 =
        .success ∧
      ∃ epochs tracker, c.epochs.activateNext = some epochs ∧
        tracker.reference = replacement.reference ∧
        Resets c (c.concludeReset A declaration reason oldEpoch invalidated counts replacement
          sample).1 epochs tracker false) := by
  have hreference := ClockTracker.reference_observe A replacement sample
  unfold concludeReset
  split
  · rename_i tracker effective now epochs hobserve hactivate
    rw [hobserve] at hreference
    obtain ⟨h₁, h₂, h₃, h₄, h₅⟩ := endReset_resets
      ({ c with epochs, tracker }.setHealthy true) declaration reason oldEpoch .success counts
      invalidated (if c.healthy then [] else [.clockHealth epochs.activeEpoch none])
    exact .inr ⟨rfl, epochs, tracker, hactivate, hreference, h₁, h₂, h₃, h₄, h₅⟩
  · exact .inl ⟨rfl, failReset_resets c declaration reason oldEpoch counts invalidated⟩

end Controller

/-- The sample that a tracker has as its reference. -/
def ClockTracker.referenceSample (t : ClockTracker) : ClockSample :=
  ⟨some t.reference.1, some t.reference.2⟩

/-- The point from which a reset fails or succeeds, with the reference it has sampled, and the
events that lead there in the same step. -/
inductive Closing : Option ResetPhase → List Event → ClockTracker → Prop
  | atOnce {reason : ResetReason} {oldEpoch : ℕ} (replacement : ClockTracker) :
    Closing (some (.started reason oldEpoch)) [.sampled replacement.referenceSample, .invalidated]
      replacement
  | cleaned {reason : ResetReason} {oldEpoch invalidated : ℕ} (replacement : ClockTracker)
    {cleanup : Cleanup} :
    Closing (some (.clearing reason oldEpoch invalidated replacement cleanup)) [] replacement

/-- What a step of a reset does. -/
inductive ResetCase {σ : Type} (A : Rounding) (s : Shared σ) :
    Option ResetPhase → ResetTurn σ → Prop
  /-- Another reset is busy, or a store does not support resets. -/
  | refused {reset : Option ResetPhase} {t : ResetTurn σ} (code : ResetOutcome)
    (events : t.events = [.resetEnded code]) (reset_eq : t.reset = reset)
    (store : t.shared.store = s.store)
    (resets : s.controller.Resets t.shared.controller s.controller.epochs s.controller.tracker
      s.controller.busy)
    (code_eq : code = .resetInProgress ∨
      code = .resetUnsupportedStore ∧ s.controller.busy = false)
    (code_of_busy : s.controller.busy → code = .resetInProgress) : ResetCase A s reset t
  | accepted {reset : Option ResetPhase} {t : ResetTurn σ} (reason : ResetReason) (oldEpoch : ℕ)
    (events : t.events = [.resetStarted]) (reset_eq : t.reset = some (.started reason oldEpoch))
    (store : t.shared.store = s.store) (unbusy : s.controller.busy = false)
    (resets : s.controller.Resets t.shared.controller s.controller.epochs s.controller.tracker true) :
    ResetCase A s reset t
  | abandoned {reason : ResetReason} {oldEpoch : ℕ} {t : ResetTurn σ} (sample : ClockSample)
    (events : t.events = [.resetEnded .resetClockUnavailable]) (reset_eq : t.reset = none)
    (store : t.shared.store = s.store)
    (resets : s.controller.Resets t.shared.controller s.controller.epochs
      (s.controller.tracker.observe A sample).1 false) :
    ResetCase A s (some (.started reason oldEpoch)) t
  /-- The epoch is closed and the memory is being cleared. -/
  | closed {reason : ResetReason} {oldEpoch : ℕ} {t : ResetTurn σ} (replacement : ClockTracker)
    (invalidated : ℕ) (cleanup : Cleanup)
    (events : t.events = [.sampled replacement.referenceSample, .invalidated])
    (reset_eq : t.reset = some (.clearing reason oldEpoch invalidated replacement cleanup))
    (resets : s.controller.Resets t.shared.controller s.controller.epochs.invalidate.2
      s.controller.tracker s.controller.busy) : ResetCase A s (some (.started reason oldEpoch)) t
  | failed {reset : Option ResetPhase} {pre : List Event} {t : ResetTurn σ}
    (replacement : ClockTracker) (closing : Closing reset pre replacement)
    (events : t.events = pre ++ [.invalidated, .resetEnded .resetFailed]) (reset_eq : t.reset = none)
    (resets : ∃ epochs, (epochs = s.controller.epochs ∨ epochs = s.controller.epochs.invalidate.2) ∧
      s.controller.Resets t.shared.controller epochs.invalidate.2 s.controller.tracker false) :
    ResetCase A s reset t
  | succeeded {reset : Option ResetPhase} {pre : List Event} {t : ResetTurn σ} (epoch : ℕ)
    (replacement tracker : ClockTracker) (closing : Closing reset pre replacement)
    (reference : tracker.reference = replacement.reference)
    (events : t.events = pre ++ [.activated epoch, .resetEnded .success]) (reset_eq : t.reset = none)
    (resets : ∃ epochs epochs', (epochs = s.controller.epochs ∨
        epochs = s.controller.epochs.invalidate.2) ∧ epochs.activateNext = some epochs' ∧
      epochs'.activeEpoch = some epoch ∧
      s.controller.Resets t.shared.controller epochs' tracker false) : ResetCase A s reset t

variable {σ ω : Type} {A : Rounding} {store : ReplayStore σ ω} {s : Shared σ} {t : ResetTurn σ}
  {reset : Option ResetPhase}

theorem startReset_case (reason : ResetReason) :
    ResetCase A s reset (startReset store reset reason s) := by
  unfold startReset
  rcases Controller.startReset_resets s.controller store.retentionClock reason
    store.clearForClockReset.isSome with ⟨code, hcode, hresets, hcode_eq, hbusy⟩ |
      ⟨hphase, hbusy, hresets⟩
  · simp only [hcode]
    exact .refused code rfl rfl rfl hresets hcode_eq hbusy
  · simp only [hphase]
    exact .accepted reason s.controller.epochs.lastEpoch rfl rfl rfl hbusy hresets

theorem endReset_failed {c : Controller} (hclosed : c.epochs.activeEpoch = none) :
    (endReset s (c, .resetFailed)).events = [.invalidated, .resetEnded .resetFailed] := by
  simp [endReset, hclosed]

/-- The conclusion of a reset. -/
theorem concludeReset_case {declaration : Option RetentionClock} {reason : ResetReason}
    {oldEpoch invalidated : ℕ} {counts : MemoryCleanupReport} {replacement : ClockTracker}
    {sample : ClockSample} {pre : List Event} {epochs : OperationEpochs}
    (hepochs : epochs = s.controller.epochs ∨ epochs = s.controller.epochs.invalidate.2)
    (hclosing : Closing reset pre replacement)
    (ht : t.events = pre ++ (endReset s ((s.controller.withEpochs epochs).concludeReset A declaration
      reason oldEpoch invalidated counts replacement sample)).events)
    (hreset : t.reset = none)
    (hcontroller : t.shared.controller = ((s.controller.withEpochs epochs).concludeReset A declaration
      reason oldEpoch invalidated counts replacement sample).1) : ResetCase A s reset t := by
  rcases Controller.concludeReset_resets A (s.controller.withEpochs epochs) declaration reason oldEpoch
    invalidated counts replacement sample with ⟨hfailed, hresets⟩ | ⟨hsuccess, epochs', tracker,
      hactivate, hreference, hresets⟩
  · rw [← hcontroller] at hresets
    refine .failed replacement hclosing ?_ hreset ⟨epochs, hepochs, hresets.epochs, hresets.tracker,
      hresets.busy, hresets.providerDepth, hresets.delivering⟩
    rw [ht, endReset, ← hcontroller, hresets.epochs, hfailed]
    rfl
  · rw [← hcontroller] at hresets
    obtain ⟨-, hactive, -, -⟩ := OperationEpochs.activateNext_spec hactivate
    refine .succeeded _ replacement tracker hclosing hreference ?_ hreset ⟨epochs, epochs', hepochs,
      hactivate, hactive, hresets.epochs, hresets.tracker, hresets.busy, hresets.providerDepth,
      hresets.delivering⟩
    rw [ht, endReset, ← hcontroller, hresets.epochs, hsuccess, hactive]
    rfl

/-- What each step of a reset does. -/
theorem resetTurn_cases {action : ResetAction ω}
    (h : resetTurn A store s reset action = some t) : ResetCase A s reset t := by
  unfold resetTurn at h
  split at h
  · obtain rfl := Option.some.inj h
    exact startReset_case _
  · rename_i reason oldEpoch choice sample final
    obtain rfl := Option.some.inj h
    unfold prepareReset
    split
    · exact .abandoned sample rfl rfl rfl (Controller.abandonReset_resets A _ _ _ _ _)
    · rename_i replacement hreplacement
      obtain rfl : sample = replacement.referenceSample := ClockTracker.reference_create hreplacement
      unfold closeEpoch
      simp only
      split
      · unfold cleanupReset
        split
        · exact .closed replacement _ _ rfl rfl ⟨rfl, rfl, rfl, rfl, rfl⟩
        · exact concludeReset_case (.inr rfl) (.atOnce replacement) rfl rfl rfl
      · have hresets := Controller.failReset_resets
          (s.controller.withEpochs s.controller.epochs.invalidate.2) store.retentionClock reason
          oldEpoch Controller.noCounts s.controller.epochs.invalidate.1
        refine .failed replacement (.atOnce replacement) ?_ rfl ⟨_, .inr rfl, hresets.epochs,
          hresets.tracker, hresets.busy, hresets.providerDepth, hresets.delivering⟩
        refine congrArg (fun events => _ :: _ :: events) (endReset_failed ?_)
        exact congrArg OperationEpochs.activeEpoch hresets.epochs
  · rename_i reason oldEpoch invalidated replacement cleanup sample
    obtain rfl := Option.some.inj h
    unfold Controller.finishReset
    split
    · have hresets := Controller.failReset_resets s.controller store.retentionClock reason oldEpoch
        (Controller.failedCounts cleanup) invalidated
      refine .failed replacement (.cleaned replacement) ?_ rfl ⟨_, .inl rfl, hresets⟩
      exact endReset_failed (congrArg OperationEpochs.activeEpoch hresets.epochs)
    · exact concludeReset_case (.inl rfl) (.cleaned replacement) rfl rfl rfl
  · simp at h

/-- While an epoch stays open without a commit, a reset has left the store and the time alone. -/
theorem ResetCase.open_of_open (h : ResetCase A s reset t) (hreset : ∀ epoch, .activated epoch ∉ t.events) :
    t.shared.controller.epochs.activeEpoch.isSome → s.controller.epochs.activeEpoch.isSome ∧
      t.shared.store = s.store ∧ s.controller.tracker.second A ≤ t.shared.controller.tracker.second A := by
  cases h with
  | refused code events _ store resets =>
    rw [resets.epochs, resets.tracker, store]
    exact fun hactive => ⟨hactive, rfl, le_rfl⟩
  | accepted reason oldEpoch events _ store _ resets =>
    rw [resets.epochs, resets.tracker, store]
    exact fun hactive => ⟨hactive, rfl, le_rfl⟩
  | abandoned sample events _ store resets =>
    rw [resets.epochs, resets.tracker, store]
    exact fun hactive => ⟨hactive, rfl, ClockTracker.second_le_observe A _ _⟩
  | closed replacement invalidated cleanup events _ resets =>
    rw [resets.epochs]
    simp
  | failed replacement closing events _ resets =>
    obtain ⟨epochs, -, hresets⟩ := resets
    rw [hresets.epochs]
    simp
  | succeeded epoch replacement tracker closing reference events =>
    exact absurd (by rw [events]; simp) (hreset epoch)

end AgentSig.Profiles
