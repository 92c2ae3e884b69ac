import AgentSig.Profiles.EngineRuns

/-!
# Resets are atomic

A reset runs in several steps, between which other calls begin, finish and complete. Until it takes
its first sample it has changed nothing but that the context is busy, and a busy context neither
begins nor completes an operation. From then on no epoch is open, until the reset opens the next
one under the reference that it has sampled. So whichever way it ends, it leaves everything as it
was, or a closed context, or a new epoch.

## Main definitions

* `Gated`: a context is busy exactly during a reset
* `ResetCall`: a call of `resetClockReference` from its start to its end
* `Unchanged`, `ClosedUntilReset`, `NeverCurrent`: what a reset leaves behind
* `Midway`: the invariant of a reset that has not ended

## Main results

* `midway_step`: every step keeps the invariant of a reset that has not ended
* `settledAs_of_step`: how the last step of a reset leaves the context
* `reset_atomic`: **a reset is atomic per outcome**
-/

namespace AgentSig.Profiles

open Commons Core StructuredFields

variable {σ ω : Type} {A : Rounding} {store : ReplayStore σ ω} {configs : ℕ → EngineConfig}
  {policy : ClockPolicy} {first : ClockSample} {initial : σ} {es fs : List Event}
  {s t u : System σ} {outcome : ResetOutcome}

/-! ## Busy contexts -/

/-- A context is busy exactly during a reset, and between two steps no callback runs. -/
structure Gated (s : System σ) : Prop where
  busy : s.shared.controller.busy = s.reset.isSome
  providerDepth : s.shared.controller.providerDepth = 0
  delivering : s.shared.controller.delivering = false

theorem Gated.of_resets {c' : Controller} {shared : Shared σ} {reset reset' : Option ResetPhase}
    {calls calls' : ℕ → Phase} {epochs : OperationEpochs} {tracker : ClockTracker} {busy : Bool}
    (h : Gated ⟨shared, reset, calls⟩)
    (hresets : shared.controller.Resets c' epochs tracker busy) (hbusy : busy = reset'.isSome)
    (store' : σ) : Gated ⟨⟨c', store'⟩, reset', calls'⟩ :=
  ⟨hresets.busy.trans hbusy, hresets.providerDepth.trans h.providerDepth,
    hresets.delivering.trans h.delivering⟩

/-- Every step keeps a context gated. -/
theorem gated_step {action : Action ω} (hsystem : SystemOf configs es s) (h : Gated s)
    (hstep : step A store configs s action = some (t, fs)) : Gated t := by
  obtain ⟨shared, reset, calls⟩ := s
  cases action with
  | call i action =>
    obtain ⟨turn, hturn, heq⟩ := Option.map_eq_some_iff.mp hstep
    obtain ⟨rfl, -⟩ := Prod.mk.inj heq
    have hcontinues := (turn_turnOf (hsystem.phases i) hturn).continues
    exact ⟨hcontinues.busy.trans h.busy, hcontinues.providerDepth.trans h.providerDepth,
      hcontinues.delivering.trans h.delivering⟩
  | reset action =>
    obtain ⟨turn, hturn, heq⟩ := Option.map_eq_some_iff.mp hstep
    obtain ⟨rfl, -⟩ := Prod.mk.inj heq
    cases resetTurn_cases hturn with
    | refused code events reset_eq store_eq resets =>
      exact h.of_resets resets (reset_eq ▸ h.busy) _
    | accepted reason oldEpoch events reset_eq store_eq unbusy resets =>
      exact h.of_resets resets (by rw [reset_eq]; rfl) _
    | abandoned sample events reset_eq store_eq resets =>
      exact h.of_resets resets (by rw [reset_eq]; rfl) _
    | closed replacement invalidated cleanup events reset_eq resets =>
      exact h.of_resets resets (by rw [reset_eq]; exact h.busy) _
    | failed replacement closing events reset_eq resets =>
      obtain ⟨epochs, -, resets⟩ := resets
      exact h.of_resets resets (by rw [reset_eq]; rfl) _
    | succeeded epoch replacement tracker closing reference events reset_eq resets =>
      obtain ⟨epochs, epochs', -, -, -, resets⟩ := resets
      exact h.of_resets resets (by rw [reset_eq]; rfl) _

/-- A context is busy exactly during a reset, in every run. -/
theorem gated_run (h : EngineRun A store configs policy first initial es s) : Gated s := by
  induction h with
  | init hinit =>
    obtain ⟨controller, hcontroller, rfl⟩ := hinit
    simp only [createSecurityContextController, bind_eq_ok, pure_eq_ok] at hcontroller
    obtain ⟨tracker, -, rfl⟩ := hcontroller
    exact ⟨rfl, rfl, rfl⟩
  | step hrun hstep ih =>
    obtain ⟨action, hstep⟩ := hstep
    exact gated_step (systemOf_run hrun) ih hstep

theorem Controller.isOpen_of_busy {c : Controller} (h : c.busy = true) : c.isOpen = false := by
  simp [Controller.isOpen, h]

theorem Controller.isOpen_of_closed {c : Controller} (h : c.epochs.activeEpoch = none) :
    c.isOpen = false := by
  simp [Controller.isOpen, h]

/-- A turn in a closed context leaves the store alone. -/
theorem store_of_closed {config : EngineConfig} {i : ℕ} {phase : Phase} {action : CallAction ω}
    {s : Shared σ} {turn : Turn σ} (hclosed : s.controller.isOpen = false)
    (h : Profiles.turn A store config i s phase action = some turn) :
    turn.shared.store = s.store := by
  rcases turn_store h with ⟨hstore, -⟩ | hasks
  · exact hstore
  · exact absurd hasks.isOpen (by simp [hclosed])

/-! ## What a reset leaves behind -/

/-- The sample that a reset took as its new reference. -/
def Event.sampled? : Event → Option ClockSample
  | .sampled reference => some reference
  | _ => none

theorem Event.sampled?_of_call {ev : Event} {i : ℕ} (h : ev.call? = some i) : ev.sampled? = none := by
  cases ev <;> simp_all [Event.call?, Event.sampled?]

/-- The steps of a context. -/
abbrev EngineStep (A : Rounding) (store : ReplayStore σ ω) (configs : ℕ → EngineConfig)
    (s : System σ) (events : List Event) (t : System σ) : Prop :=
  ∃ action, step A store configs s action = some (t, events)

/-- A call of `resetClockReference`, from its start to its end, with the history between. -/
inductive ResetCall (A : Rounding) (store : ReplayStore σ ω) (configs : ℕ → EngineConfig)
    (s : System σ) : List Event → ResetOutcome → System σ → Prop
  /-- The call ends in its first step. -/
  | refused {reason : ResetReason} {outcome : ResetOutcome} {u : System σ}
    (start : step A store configs s (.reset (.start reason)) = some (u, [.resetEnded outcome])) :
    ResetCall A store configs s [.resetEnded outcome] outcome u
  /-- The call is accepted, and ends later; other calls are refused meanwhile. -/
  | accepted {reason : ResetReason} {mid fs : List Event} {s₁ t u : System σ} {action : Action ω}
    {outcome : ResetOutcome}
    (start : step A store configs s (.reset (.start reason)) = some (s₁, [.resetStarted]))
    (between : Run (· = s₁) (EngineStep A store configs) mid t)
    (refusals : ∀ o, .resetEnded o ∈ mid → o = .resetInProgress)
    (last : step A store configs t action = some (u, fs)) (ended : .resetEnded outcome ∈ fs)
    (own : outcome ≠ .resetInProgress) :
    ResetCall A store configs s (.resetStarted :: mid ++ fs) outcome u

/-- The epoch, the reference and the records are as they were, and a current lease is still current
unless its operation has finished it. -/
structure Unchanged (s : System σ) (es : List Event) (u : System σ) : Prop where
  activeEpoch : u.shared.controller.epochs.activeEpoch = s.shared.controller.epochs.activeEpoch
  reference : u.shared.controller.tracker.reference = s.shared.controller.tracker.reference
  store : u.shared.store = s.shared.store
  valid : .invalidated ∉ es
  leases : ∀ lease, s.shared.controller.epochs.isCurrent lease →
    u.shared.controller.epochs.isCurrent lease ∨
      ∃ l, u.shared.controller.epochs.leases[lease]? = some l ∧ l.finished

/-- Until a reset succeeds, no epoch is active, no operation begins, asks the store or completes,
and no entry of the controller reads the clock. -/
def ClosedUntilReset (A : Rounding) (store : ReplayStore σ ω) (configs : ℕ → EngineConfig)
    (u : System σ) : Prop :=
  ∀ fs v, Run (· = u) (EngineStep A store configs) fs v → (∀ epoch, .activated epoch ∉ fs) →
    v.shared.controller.epochs.activeEpoch = none ∧ (∀ ev ∈ fs, ¬ ev.Operates) ∧
      ∀ lease sample,
        v.shared.controller.beginOperation A sample = (v.shared.controller, .error clockUnavailable) ∧
        v.shared.controller.currentTime A (some lease) sample =
          (v.shared.controller, .error clockUnavailable) ∧
        v.shared.controller.completeOperation A lease sample =
          (v.shared.controller, .error clockUnavailable)

/-- No lease that was issued so far is current in any later state. -/
def NeverCurrent (A : Rounding) (store : ReplayStore σ ω) (configs : ℕ → EngineConfig)
    (u : System σ) : Prop :=
  ∀ fs v, Run (· = u) (EngineStep A store configs) fs v →
    ∀ lease < u.shared.controller.epochs.leases.length,
      v.shared.controller.epochs.isCurrent lease = false

/-! ## Between the start and the end -/

/-- A reset that was accepted in the state `s` has not ended in the state `t`. -/
def Midway (s : System σ) (es : List Event) (t : System σ) : Prop :=
  t.shared.controller.busy = true ∧
    t.shared.controller.epochs.lastEpoch = s.shared.controller.epochs.lastEpoch ∧
    match t.reset with
    | some (.started _ _) =>
      OperationEpochs.Continues s.shared.controller.epochs t.shared.controller.epochs ∧
        t.shared.controller.tracker.reference = s.shared.controller.tracker.reference ∧
        t.shared.store = s.shared.store ∧ es.filterMap Event.sampled? = [] ∧ .invalidated ∉ es
    | some (.clearing _ _ _ replacement _) => t.shared.controller.epochs.activeEpoch = none ∧
        es.filterMap Event.sampled? = [replacement.referenceSample]
    | none => False

/-- How a reset that was accepted in the state `s` leaves the context. -/
def SettledAs (s : System σ) (es : List Event) (u : System σ) : ResetOutcome → Prop
  | .resetClockUnavailable => Unchanged s es u
  | .resetFailed => u.shared.controller.epochs.activeEpoch = none
  | .success => ∃ epoch, u.shared.controller.epochs.activeEpoch = some epoch ∧
      s.shared.controller.epochs.lastEpoch < epoch ∧
      es.filterMap Event.sampled? = [u.shared.controller.tracker.referenceSample] ∧
      ∀ l ∈ u.shared.controller.epochs.leases, l.epoch < epoch
  | .resetInProgress | .resetUnsupportedStore => False

/-- A call between its awaits does nothing to a reset that has not ended. -/
theorem midway_call {i : ℕ} {action : CallAction ω} {pre : List Event}
    (hsystem : SystemOf configs pre t) (h : Midway s es t)
    (hstep : step A store configs t (.call i action) = some (u, fs)) : Midway s (es ++ fs) u := by
  obtain ⟨turn, hturn, heq⟩ := Option.map_eq_some_iff.mp hstep
  obtain ⟨rfl, rfl⟩ := Prod.mk.inj heq
  have hturnOf := turn_turnOf (hsystem.phases i) hturn
  have hcontinues := hturnOf.continues
  have hsampled : turn.events.filterMap Event.sampled? = [] :=
    List.filterMap_eq_nil_iff.mpr fun ev hev => Event.sampled?_of_call (hturnOf.events ev hev).1
  obtain ⟨hbusy, hlast, hphase⟩ := h
  refine ⟨hcontinues.busy.trans hbusy, hcontinues.epochs.lastEpoch.trans hlast, ?_⟩
  simp only
  split
  · rename_i hreset
    rw [hreset] at hphase
    obtain ⟨hepochs, hreference, hstore, hnone, hvalid⟩ := hphase
    refine ⟨hepochs.trans hcontinues.epochs, hcontinues.reference.trans hreference,
      (store_of_closed (Controller.isOpen_of_busy hbusy) hturn).trans hstore, ?_, fun hmem => ?_⟩
    · rw [List.filterMap_append, hnone, hsampled, List.append_nil]
    · rcases List.mem_append.mp hmem with hmem | hmem
      · exact hvalid hmem
      · have hcall := (hturnOf.events _ hmem).1
        simp [Event.call?] at hcall
  · rename_i hreset
    rw [hreset] at hphase
    refine ⟨hcontinues.epochs.activeEpoch.trans hphase.1, ?_⟩
    rw [List.filterMap_append, hphase.2, hsampled, List.append_nil]
  · rename_i hreset
    rwa [hreset] at hphase

/-- A step of a reset that does not end it. -/
theorem midway_reset {action : ResetAction ω} (h : Midway s es t)
    (hstep : step A store configs t (.reset action) = some (u, fs))
    (hpending : ∀ o, .resetEnded o ∈ fs → o = .resetInProgress) : Midway s (es ++ fs) u := by
  obtain ⟨shared, reset, calls⟩ := t
  obtain ⟨turn, hturn, heq⟩ := Option.map_eq_some_iff.mp hstep
  obtain ⟨rfl, rfl⟩ := Prod.mk.inj heq
  obtain ⟨hbusy, hlast, hphase⟩ := h
  cases resetTurn_cases hturn with
  | refused code events reset_eq store_eq resets =>
    refine ⟨resets.busy.trans hbusy, (congrArg OperationEpochs.lastEpoch resets.epochs).trans hlast, ?_⟩
    have hsampled : (es ++ [Event.resetEnded code]).filterMap Event.sampled? =
        es.filterMap Event.sampled? := by
      rw [List.filterMap_append]
      exact List.append_nil _
    have hvalid : .invalidated ∈ es ++ [.resetEnded code] ↔ .invalidated ∈ es := by simp
    simp only [events, reset_eq, store_eq, resets.epochs, resets.tracker, hsampled, hvalid]
    exact hphase
  | accepted reason oldEpoch events reset_eq store_eq unbusy resets =>
    exact absurd (unbusy.symm.trans hbusy) Bool.false_ne_true
  | abandoned sample events reset_eq store_eq resets =>
    exact absurd (hpending .resetClockUnavailable (by simp [events])) (by simp)
  | closed replacement invalidated cleanup events reset_eq resets =>
    obtain ⟨-, -, -, hnone, -⟩ := hphase
    refine ⟨resets.busy.trans hbusy, (congrArg OperationEpochs.lastEpoch resets.epochs).trans hlast, ?_⟩
    simp only [events, reset_eq, resets.epochs, List.filterMap_append, hnone]
    exact ⟨rfl, rfl⟩
  | failed replacement closing events reset_eq resets =>
    exact absurd (hpending .resetFailed (by simp [events])) (by simp)
  | succeeded epoch replacement tracker closing reference events reset_eq resets =>
    exact absurd (hpending .success (by simp [events])) (by simp)

/-- Every step keeps the invariant of a reset that has not ended. -/
theorem midway_step {action : Action ω} {pre : List Event} (hsystem : SystemOf configs pre t)
    (h : Midway s es t) (hstep : step A store configs t action = some (u, fs))
    (hpending : ∀ o, .resetEnded o ∈ fs → o = .resetInProgress) : Midway s (es ++ fs) u := by
  cases action with
  | call i action => exact midway_call hsystem h hstep
  | reset action => exact midway_reset h hstep hpending

/-- The samples that a reset has taken at the point from which it fails or succeeds. -/
theorem Midway.sampled {pre : List Event} {replacement : ClockTracker} (h : Midway s es t)
    (hclosing : Closing t.reset pre replacement) :
    (es ++ pre).filterMap Event.sampled? = [replacement.referenceSample] := by
  obtain ⟨shared, reset, calls⟩ := t
  obtain ⟨-, -, hphase⟩ := h
  cases hclosing with
  | atOnce =>
    obtain ⟨-, -, -, hnone, -⟩ := hphase
    rw [List.filterMap_append, hnone]
    rfl
  | cleaned => simpa using hphase.2

/-- How the last step of a reset leaves the context. -/
theorem settledAs_of_step {action : Action ω} {pre : List Event} (hsystem : SystemOf configs pre t)
    (h : Midway s es t) (hstep : step A store configs t action = some (u, fs))
    (hended : .resetEnded outcome ∈ fs) (hown : outcome ≠ .resetInProgress) :
    SettledAs s (es ++ fs) u outcome ∧ u.shared.controller.busy = false := by
  obtain ⟨shared, reset, calls⟩ := t
  cases action with
  | call i action =>
    obtain ⟨turn, hturn, heq⟩ := Option.map_eq_some_iff.mp hstep
    obtain ⟨-, rfl⟩ := Prod.mk.inj heq
    have hcall := ((turn_turnOf (hsystem.phases i) hturn).events _ hended).1
    simp [Event.call?] at hcall
  | reset action =>
    obtain ⟨turn, hturn, heq⟩ := Option.map_eq_some_iff.mp hstep
    obtain ⟨rfl, rfl⟩ := Prod.mk.inj heq
    have hsampled : ∀ pre replacement, Closing reset pre replacement →
        (es ++ pre).filterMap Event.sampled? = [replacement.referenceSample] :=
      fun _ _ hclosing => h.sampled hclosing
    obtain ⟨hbusy, hlast, hphase⟩ := h
    cases resetTurn_cases hturn with
    | refused code events reset_eq store_eq resets code_eq code_of_busy =>
      obtain rfl : outcome = code := by simpa [events] using hended
      exact absurd (code_of_busy hbusy) hown
    | accepted reason oldEpoch events => simp [events] at hended
    | closed replacement invalidated cleanup events => simp [events] at hended
    | abandoned sample events reset_eq store_eq resets =>
      obtain rfl : outcome = .resetClockUnavailable := by simpa [events] using hended
      obtain ⟨hepochs, hreference, hstore, -, hvalid⟩ := hphase
      refine ⟨⟨?_, ?_, store_eq.trans hstore, by simpa [events] using hvalid, fun lease hlease => ?_⟩,
        resets.busy⟩
      · rw [resets.epochs]
        exact hepochs.activeEpoch
      · rw [resets.tracker, ClockTracker.reference_observe]
        exact hreference
      · rw [resets.epochs]
        exact hepochs.isCurrent_or hlease
    | failed replacement closing events reset_eq resets =>
      obtain rfl : outcome = .resetFailed := by
        rw [events] at hended
        rcases List.mem_append.mp hended with hmem | hmem
        · rcases closing.not_begun hmem with heq | heq <;> cases heq
        · simpa using hmem
      obtain ⟨epochs, -, resets⟩ := resets
      exact ⟨congrArg OperationEpochs.activeEpoch resets.epochs, resets.busy⟩
    | succeeded epoch replacement tracker closing reference events reset_eq resets =>
      obtain rfl : outcome = .success := by
        rw [events] at hended
        rcases List.mem_append.mp hended with hmem | hmem
        · rcases closing.not_begun hmem with heq | heq <;> cases heq
        · simpa using hmem
      obtain ⟨epochs, epochs', hepochs, hactivate, hactive, resets⟩ := resets
      obtain ⟨-, hactive', -, hleases⟩ := OperationEpochs.activateNext_spec hactivate
      have hepoch : epoch = shared.controller.epochs.lastEpoch + 1 := by
        have := Option.some.inj (hactive.symm.trans hactive')
        rcases hepochs with rfl | rfl <;> exact this
      refine ⟨⟨epoch, ?_, ?_, ?_, fun l hl => ?_⟩, resets.busy⟩
      · rw [resets.epochs, hactive]
      · have : shared.controller.epochs.lastEpoch = _ := hlast
        omega
      · rw [resets.tracker, ClockTracker.referenceSample, reference, events, ← List.append_assoc,
          List.filterMap_append, hsampled _ _ closing]
        rfl
      · rw [resets.epochs, hleases] at hl
        have hle : l.epoch ≤ shared.controller.epochs.lastEpoch := by
          rcases hepochs with rfl | rfl <;> exact shared.controller.epochs.leases_le l hl
        omega

/-! ## The start -/

/-- A call that ends in its first step changes nothing but the events it emits. -/
theorem refused_spec (hgated : Gated s) {reason : ResetReason}
    (hstart : step A store configs s (.reset (.start reason)) = some (u, [.resetEnded outcome])) :
    Unchanged s [.resetEnded outcome] u ∧
      u.shared.controller.busy = s.shared.controller.busy ∧
      (outcome = .resetInProgress ∧ s.shared.controller.busy = true ∨
        outcome = .resetUnsupportedStore ∧ s.shared.controller.busy = false) := by
  obtain ⟨rfl, hevents⟩ := Prod.mk.inj (Option.some.inj hstart)
  have hopen : s.shared.controller.entryOpen (.resetClockReference reason) = true := by
    simp [Controller.entryOpen, hgated.providerDepth, hgated.delivering]
  rcases Controller.startReset_resets s.shared.controller store.retentionClock reason
    store.clearForClockReset.isSome with ⟨code, hcode, hresets, hcode_eq, hbusy⟩ |
      ⟨hphase, hbusy, hresets⟩
  · simp only [startReset, hcode] at hevents ⊢
    obtain rfl : code = outcome := by simpa using hevents
    refine ⟨⟨?_, ?_, rfl, by simp, fun lease hlease => .inl ?_⟩, hresets.busy, ?_⟩
    · exact congrArg OperationEpochs.activeEpoch hresets.epochs
    · exact congrArg ClockTracker.reference hresets.tracker
    · exact (congrArg (·.isCurrent lease) hresets.epochs).trans hlease
    · rcases hcode_eq with rfl | hunsupported
      · refine .inl ⟨rfl, by_contra fun hidle => ?_⟩
        unfold Controller.startReset at hcode
        rw [hopen] at hcode
        simp only [Bool.not_true, Bool.false_eq_true, if_false, hidle] at hcode
        split at hcode <;> simp at hcode
      · exact .inr hunsupported
  · simp [startReset, hphase] at hevents

/-- A call that is accepted has not ended after its first step. -/
theorem midway_start {reason : ResetReason} {s₁ : System σ}
    (hstart : step A store configs s (.reset (.start reason)) = some (s₁, [.resetStarted])) :
    Midway s [.resetStarted] s₁ := by
  obtain ⟨rfl, hevents⟩ := Prod.mk.inj (Option.some.inj hstart)
  rcases Controller.startReset_resets s.shared.controller store.retentionClock reason
    store.clearForClockReset.isSome with ⟨code, hcode, -⟩ | ⟨hphase, hbusy, hresets⟩
  · simp [startReset, hcode] at hevents
  · simp only [startReset, hphase]
    refine ⟨hresets.busy, congrArg OperationEpochs.lastEpoch hresets.epochs, ?_, ?_, rfl, rfl,
      by simp⟩
    · exact (congrArg (OperationEpochs.Continues _) hresets.epochs).mpr (.refl _)
    · exact congrArg ClockTracker.reference hresets.tracker

/-- Every call that is accepted leaves the context by its outcome. -/
theorem settledAs_of_call {pre mid : List Event} {reason : ResetReason} {s₁ : System σ}
    {action : Action ω} (hrun : EngineRun A store configs policy first initial pre s)
    (hstart : step A store configs s (.reset (.start reason)) = some (s₁, [.resetStarted]))
    (hbetween : Run (· = s₁) (EngineStep A store configs) mid t)
    (hrefusals : ∀ o, .resetEnded o ∈ mid → o = .resetInProgress)
    (hlast : step A store configs t action = some (u, fs)) (hended : .resetEnded outcome ∈ fs)
    (hown : outcome ≠ .resetInProgress) :
    SettledAs s (.resetStarted :: mid ++ fs) u outcome ∧ u.shared.controller.busy = false := by
  have hstarted := hrun.step ⟨.reset (.start reason), hstart⟩
  have hmidway : (∀ o, .resetEnded o ∈ mid → o = .resetInProgress) →
      Midway s (.resetStarted :: mid) t := by
    refine hstarted.invariant_after (I := fun fs t =>
      (∀ o, .resetEnded o ∈ fs → o = .resetInProgress) → Midway s (.resetStarted :: fs) t) hbetween
      (fun _ => midway_start hstart) ?_
    rintro fs gs t u hrun ih ⟨action, hstep⟩ hpending
    exact midway_step (systemOf_run hrun) (ih fun o ho => hpending o (List.mem_append_left _ ho))
      hstep fun o ho => hpending o (List.mem_append_right _ ho)
  exact settledAs_of_step (systemOf_run (hstarted.append hbetween)) (hmidway hrefusals) hlast hended hown

/-! ## After the end -/

/-- A closed context stays closed in every step that does not activate an epoch. -/
theorem closed_step {action : Action ω} (hsystem : SystemOf configs es s)
    (hclosed : s.shared.controller.epochs.activeEpoch = none)
    (hstep : step A store configs s action = some (t, fs)) (hreset : ∀ epoch, .activated epoch ∉ fs) :
    t.shared.controller.epochs.activeEpoch = none ∧ ∀ ev ∈ fs, ¬ ev.Operates := by
  cases action with
  | call i action =>
    obtain ⟨turn, hturn, heq⟩ := Option.map_eq_some_iff.mp hstep
    obtain ⟨rfl, rfl⟩ := Prod.mk.inj heq
    have hcontinues := (turn_turnOf (hsystem.phases i) hturn).continues
    exact ⟨hcontinues.epochs.activeEpoch.trans hclosed,
      turn_closed (Controller.isOpen_of_closed hclosed) hturn⟩
  | reset action =>
    obtain ⟨turn, hturn, heq⟩ := Option.map_eq_some_iff.mp hstep
    obtain ⟨rfl, rfl⟩ := Prod.mk.inj heq
    have hcase := resetTurn_cases hturn
    refine ⟨?_, fun ev hev hoperates => ?_⟩
    · by_contra hactive
      have hopen := (hcase.open_of_open hreset (Option.isSome_iff_ne_none.mpr hactive)).1
      simp [hclosed] at hopen
    · have hcall := hcase.call?_eq hev
      cases ev <;> simp [Event.call?, Event.Operates] at hcall hoperates

/-- A closed context is closed until a reset succeeds. -/
theorem closedUntilReset (hrun : EngineRun A store configs policy first initial es u)
    (hclosed : u.shared.controller.epochs.activeEpoch = none) : ClosedUntilReset A store configs u := by
  intro fs v hfs hreset
  have hquiet : (∀ epoch, .activated epoch ∉ fs) →
      v.shared.controller.epochs.activeEpoch = none ∧ ∀ ev ∈ fs, ¬ ev.Operates := by
    refine hrun.invariant_after (I := fun fs v => (∀ epoch, .activated epoch ∉ fs) →
      v.shared.controller.epochs.activeEpoch = none ∧ ∀ ev ∈ fs, ¬ ev.Operates) hfs
      (fun _ => ⟨hclosed, by simp⟩) ?_
    rintro fs gs t v hrun ih ⟨action, hstep⟩ hreset
    obtain ⟨hclosed, hquiet⟩ := ih fun epoch hmem => hreset epoch (List.mem_append_left _ hmem)
    obtain ⟨hclosed', hquiet'⟩ := closed_step (systemOf_run hrun) hclosed hstep
      fun epoch hmem => hreset epoch (List.mem_append_right _ hmem)
    exact ⟨hclosed', fun ev hev => (List.mem_append.mp hev).elim (hquiet ev) (hquiet' ev)⟩
  obtain ⟨hclosed, hquiet⟩ := hquiet hreset
  have hopen := Controller.isOpen_of_closed hclosed
  exact ⟨hclosed, hquiet, fun lease sample => ⟨Controller.beginOperation_closed hopen sample,
    Controller.currentTime_closed hopen _ sample, Controller.completeOperation_closed hopen lease sample⟩⟩

/-- The first `n` leases are of epochs up to `b`, and the active epoch is later. -/
structure Outdated (n b : ℕ) (e : OperationEpochs) : Prop where
  length : n ≤ e.leases.length
  leases : ∀ lease < n, ∀ l, e.leases[lease]? = some l → l.epoch ≤ b
  bound_le : b ≤ e.lastEpoch
  active : ∀ x, e.activeEpoch = some x → b < x

theorem Outdated.step {n b : ℕ} {e e' : OperationEpochs} (h : Outdated n b e)
    (hstep : EpochStep e fs e') : Outdated n b e' := by
  have hkept : ∀ lease < n, ∃ l', e'.leases[lease]? = some l' ∧ l'.epoch ≤ b := by
    intro lease hlease
    obtain ⟨l, hl⟩ : ∃ l, e.leases[lease]? = some l :=
      ⟨_, List.getElem?_eq_getElem (hlease.trans_le h.length)⟩
    obtain ⟨l', hl', hepoch⟩ := hstep.leases lease l hl
    exact ⟨l', hl', hepoch ▸ h.leases lease hlease l hl⟩
  refine ⟨?_, fun lease hlease l hl => ?_, h.bound_le.trans hstep.last_le, fun x hx => ?_⟩
  · cases n with
    | zero => exact Nat.zero_le _
    | succ n =>
      obtain ⟨l', hl', -⟩ := hkept n (Nat.lt_succ_self n)
      exact (List.getElem?_eq_some_iff.mp hl').1
  · obtain ⟨l', hl', hle⟩ := hkept lease hlease
    rwa [← Option.some.inj (hl'.symm.trans hl)]
  · rcases hstep.active with ⟨hsame, -⟩ | hlater
    · exact h.active x (hsame.symm.trans hx)
    · exact h.bound_le.trans_lt (hlater x hx)

theorem Outdated.isCurrent_eq_false {n b : ℕ} {e : OperationEpochs} (h : Outdated n b e)
    {lease : LeaseId} (hlease : lease < n) : e.isCurrent lease = false := by
  refine Bool.eq_false_iff.mpr fun hcurrent => ?_
  obtain ⟨epoch, hactive, hl⟩ := OperationEpochs.isCurrent_iff.mp hcurrent
  exact absurd (h.leases lease hlease _ hl) (not_le.mpr (h.active epoch hactive))

/-- What a step does to the epochs, in every run. -/
theorem epochStep_of_step {action : Action ω} (hsystem : SystemOf configs es s)
    (hstep : step A store configs s action = some (t, fs)) :
    EpochStep s.shared.controller.epochs fs t.shared.controller.epochs := by
  cases action with
  | call i action =>
    obtain ⟨turn, hturn, heq⟩ := Option.map_eq_some_iff.mp hstep
    obtain ⟨rfl, rfl⟩ := Prod.mk.inj heq
    exact epochStep_of_turn (turn_turnOf (hsystem.phases i) hturn)
  | reset action =>
    obtain ⟨turn, hturn, heq⟩ := Option.map_eq_some_iff.mp hstep
    obtain ⟨rfl, rfl⟩ := Prod.mk.inj heq
    exact epochStep_of_reset (resetTurn_cases hturn)

/-- Outdated leases are never current again. -/
theorem neverCurrent {b : ℕ} (hrun : EngineRun A store configs policy first initial es u)
    (houtdated : Outdated u.shared.controller.epochs.leases.length b u.shared.controller.epochs) :
    NeverCurrent A store configs u := by
  intro fs v hfs lease hlease
  refine Outdated.isCurrent_eq_false (b := b) ?_ hlease
  refine hrun.invariant_after (I := fun _ v => Outdated u.shared.controller.epochs.leases.length b
    v.shared.controller.epochs) hfs houtdated ?_
  rintro fs gs t v hrun ih ⟨action, hstep⟩
  exact ih.step (epochStep_of_step (systemOf_run hrun) hstep)

/-- A call of `resetClockReference` that is refused, or whose first sample is no reference, leaves
everything as it was. One that fails leaves the context closed until a later one succeeds. One that
succeeds has opened a later epoch under the one reference that it has sampled. No lease issued before
the end of the latter two is ever current again. After a call the context is not busy, unless the call
was refused because another one was running. -/
theorem reset_atomic (A : Rounding) (store : ReplayStore σ ω) (configs : ℕ → EngineConfig)
    (policy : ClockPolicy) (first : ClockSample) (initial : σ) {pre es : List Event} {s u : System σ}
    {outcome : ResetOutcome} (hrun : EngineRun A store configs policy first initial pre s)
    (hcall : ResetCall A store configs s es outcome u) :
    (outcome = .resetInProgress ∨ outcome = .resetUnsupportedStore ∨
        outcome = .resetClockUnavailable → Unchanged s es u) ∧
      (outcome = .resetFailed → u.shared.controller.epochs.activeEpoch = none ∧
        ClosedUntilReset A store configs u ∧ NeverCurrent A store configs u) ∧
      (outcome = .success → ∃ sample epoch, es.filterMap Event.sampled? = [sample] ∧
        u.shared.controller.tracker.referenceSample = sample ∧
        u.shared.controller.epochs.activeEpoch = some epoch ∧
        s.shared.controller.epochs.lastEpoch < epoch ∧ NeverCurrent A store configs u) ∧
      (outcome ≠ .resetInProgress → u.shared.controller.busy = false) ∧
      (outcome = .resetInProgress →
        s.shared.controller.busy = true ∧ u.shared.controller.busy = true) ∧
      ∀ declaration hasPort reason,
        s.shared.controller.inProvider.startReset declaration hasPort reason =
          (s.shared.controller.inProvider, .error .resetInProgress) ∧
        s.shared.controller.inObserver.startReset declaration hasPort reason =
          (s.shared.controller.inObserver, .error .resetInProgress) := by
  have hcallbacks : ∀ declaration hasPort reason,
      s.shared.controller.inProvider.startReset declaration hasPort reason =
        (s.shared.controller.inProvider, .error .resetInProgress) ∧
      s.shared.controller.inObserver.startReset declaration hasPort reason =
        (s.shared.controller.inObserver, .error .resetInProgress) := fun _ _ _ => by
    simp [Controller.startReset, Controller.entryOpen_eq_false_of_provider,
      Controller.entryOpen_eq_false_of_observer]
  cases hcall with
  | refused hstart =>
    obtain ⟨hunchanged, hbusy, hcase⟩ := refused_spec (gated_run hrun) hstart
    rcases hcase with ⟨rfl, hbusy'⟩ | ⟨rfl, hbusy'⟩
    · exact ⟨fun _ => hunchanged, by simp, by simp, by simp,
        fun _ => ⟨hbusy', hbusy.trans hbusy'⟩, hcallbacks⟩
    · exact ⟨fun _ => hunchanged, by simp, by simp, fun _ => hbusy.trans hbusy', by simp, hcallbacks⟩
  | accepted hstart hbetween hrefusals hlast hended hown =>
    obtain ⟨hsettled, hbusy⟩ :=
      settledAs_of_call hrun hstart hbetween hrefusals hlast hended hown
    have hrun' := ((hrun.step ⟨_, hstart⟩).append hbetween).step ⟨_, hlast⟩
    refine ⟨fun h => ?_, fun h => ?_, fun h => ?_, fun _ => hbusy, fun h => absurd h hown, hcallbacks⟩
    · rcases h with rfl | rfl | rfl
      · exact absurd rfl hown
      · exact absurd hsettled id
      · exact hsettled
    · subst h
      refine ⟨hsettled, closedUntilReset hrun' hsettled, neverCurrent hrun' ⟨le_rfl,
        fun lease _ l hl => u.shared.controller.epochs.leases_le l (List.mem_of_getElem? hl), le_rfl,
        fun x hx => ?_⟩⟩
      have hnone : u.shared.controller.epochs.activeEpoch = none := hsettled
      simp [hnone] at hx
    · subst h
      obtain ⟨epoch, hactive, hlater, hsampled, hleases⟩ := hsettled
      refine ⟨_, epoch, hsampled, rfl, hactive, hlater, neverCurrent hrun' (b := epoch - 1) ⟨le_rfl,
        fun lease _ l hl => ?_, ?_, fun x hx => ?_⟩⟩
      · have := hleases l (List.mem_of_getElem? hl)
        omega
      · have := u.shared.controller.epochs.active_eq epoch hactive
        omega
      · have := Option.some.inj (hactive.symm.trans hx)
        omega

/-! ## Two calls at once -/

/-- The controller of a new context. -/
def exampleController (busy : Bool) : Controller :=
  ⟨exampleClockPolicy, .create, ⟨10000, 10000, 5000, 10000, false, le_rfl⟩, true, busy, 0, false, []⟩

theorem createSecurityContextController_example :
    createSecurityContextController exampleClockPolicy exampleSample = .ok (exampleController false) := by
  have hsample : wallSample (some 10000) = some 10000 ∧ boundedNumber (some 10000) = some 10000 := by
    decide +kernel
  simp only [createSecurityContextController, createClockTracker, exampleSample, hsample.1, hsample.2]
  norm_num [exampleController, exampleClockPolicy]

/-- The context of `exampleController` during a reset. -/
def exampleResetting (store : σ) : System σ :=
  ⟨⟨exampleController true, store⟩, some (.started .operator 1), fun _ => .idle⟩

theorem exampleResetting_started (configs : ℕ → EngineConfig) :
    step .exact (anyStore (some .independent)) configs (.init (exampleController false) ())
      (.reset (.start .operator)) = some (exampleResetting (), [.resetStarted]) := rfl

theorem exampleResetting_run : EngineRun .exact (anyStore (some .independent))
    (fun _ => exampleConfig) exampleClockPolicy exampleSample () ([] ++ [.resetStarted])
    (exampleResetting ()) :=
  (Run.init ⟨_, createSecurityContextController_example, rfl⟩).step ⟨_, exampleResetting_started _⟩

/-- A call that is refused while another one runs leaves the context busy. -/
theorem refused_while_busy : ¬ ∀ (σ ω : Type) (A : Rounding) (store : ReplayStore σ ω)
    (configs : ℕ → EngineConfig) (policy : ClockPolicy) (first : ClockSample) (initial : σ)
    (pre es : List Event) (s u : System σ) (outcome : ResetOutcome),
    EngineRun A store configs policy first initial pre s → ResetCall A store configs s es outcome u →
      u.shared.controller.busy = false := by
  intro h
  have hcall := ResetCall.refused (show step .exact (anyStore (some .independent))
    (fun _ => exampleConfig) (exampleResetting ()) (.reset (.start .operator)) =
      some (_, [.resetEnded .resetInProgress]) from rfl)
  exact absurd (h _ _ _ _ _ _ _ _ _ _ _ _ _ exampleResetting_run hcall) (by decide)

/-- A reset succeeds. -/
def Event.isSuccess : Event → Bool
  | .resetEnded outcome => outcome = .success
  | _ => false

theorem reset_atomic_example : ∃ (u : System Unit) (epoch : ℕ),
    u.shared.controller.epochs.activeEpoch = some epoch ∧ 1 < epoch ∧
      u.shared.controller.busy = false := by
  have hlast : (match step .exact (anyStore (some .independent)) (fun _ => exampleConfig)
      (exampleResetting ()) (.reset (.prepare .other exampleSample exampleSample)) with
      | some (_, fs) => fs.any Event.isSuccess
      | none => false) = true := by decide +kernel
  split at hlast
  · rename_i u fs hstep
    obtain ⟨ev, hev, hsuccess⟩ := List.any_eq_true.mp hlast
    obtain ⟨outcome, rfl⟩ : ∃ outcome, ev = .resetEnded outcome := by
      cases ev <;> simp_all [Event.isSuccess]
    obtain rfl : outcome = .success := by simpa [Event.isSuccess] using hsuccess
    obtain ⟨-, -, hspec, hbusy, -⟩ := reset_atomic _ _ _ _ _ _
      (.init ⟨_, createSecurityContextController_example, rfl⟩)
      (.accepted (exampleResetting_started _) (.init rfl) (by simp) hstep hev (by simp))
    obtain ⟨sample, epoch, -, -, hactive, hlater, -⟩ := hspec rfl
    exact ⟨u, epoch, hactive, hlater, hbusy (by simp)⟩
  · simp at hlast

end AgentSig.Profiles
