import AgentSig.Profiles.Accounting
import AgentSig.Profiles.EngineSystem

/-!
# What a turn of a call keeps

Between its awaits a call knows a few things about the history of the run: it has begun with its
lease, it has not returned, and whichever candidate it holds to be accepted was dispatched with
that lease and accepted by the store. Each turn keeps what its phase knows, and other calls cannot
change it, since it speaks of events of the call only.

## Main definitions

* `PhaseOf`: what a phase knows about the history
* `EventOf`: what is true of an event by itself
* `TurnOf`: what a turn keeps

## Main results

* `turn_turnOf`: every turn keeps what its phase knows
-/

namespace AgentSig.Profiles

open Commons Core StructuredFields

/-- The call that an event is of. -/
def Event.call? : Event → Option ℕ
  | .begun i _ _ => some i
  | .dispatched i _ _ _ _ => some i
  | .completed i _ _ _ => some i
  | .returned i _ _ _ _ => some i
  | .invalidated | .activated _ | .resetStarted | .sampled _ | .resetEnded _ => none

/-- A call asks the store. -/
def Event.Dispatches (i : ℕ) : Event → Prop
  | .dispatched j _ _ _ _ => j = i
  | _ => False

/-- A call returns the result of a request. -/
def Event.Returns (i : ℕ) (request : RequestParts) : Event → Prop
  | .returned j request' _ _ _ => j = i ∧ request' = request
  | _ => False

/-- A call begins with a lease, asks the store, or completes its operation. -/
def Event.Operates : Event → Prop
  | .begun _ _ _ | .dispatched _ _ _ _ _ | .completed _ _ _ _ => True
  | _ => False

/-- What a call with a lease knows. -/
structure CallOf (es : List Event) (config : EngineConfig) (i : ℕ) (call : Call) : Prop where
  /-- The call began with its lease, and nothing of it was before. -/
  begun : ∃ pre epoch mid, es = pre ++ .begun i call.lease epoch :: mid ∧
    ∀ ev ∈ pre, ev.call? ≠ some i
  selected : ∃ signatures,
    selectCandidates config call.request = .ok (.candidates signatures call.selected)
  pending : ∀ ev ∈ es, ∀ request, ¬ ev.Returns i request

/-- What the loop over the replay groups knows. -/
structure LoopOf (es : List Event) (config : EngineConfig) (i : ℕ) (call : Call)
    (loop : ReplayLoop) : Prop where
  started : CallOf es config i call
  unambiguous : isAmbiguous config call.selected = false
  evaluated : EvaluationsOf config call.selected loop.evaluations
  length : loop.evaluations.length = call.selected.length
  groups : GroupsOf config.scope (eligibleCandidates loop.evaluations) loop.groups
  accepted : ∀ position, OrderedMap.lookup loop.outcomes position = some .accepted →
    ∃ input members m, .dispatched i call.lease input members (.outcome .accepted) ∈ es ∧
      m ∈ members ∧ m.1 = position ∧ m ∈ eligibleCandidates loop.evaluations

/-- What the phase of a call knows about the history. -/
def PhaseOf (es : List Event) (config : EngineConfig) (i : ℕ) : Phase → Prop
  | .idle => ∀ ev ∈ es, ev.call? ≠ some i
  | .evaluating call evaluations => CallOf es config i call ∧
      EvaluationsOf config call.selected evaluations ∧ ∀ ev ∈ es, ¬ ev.Dispatches i
  | .replaying call loop => LoopOf es config i call loop
  | .consuming call loop _ ready answer => LoopOf es config i call loop ∧
      (∀ m ∈ ready, m ∈ eligibleCandidates loop.evaluations) ∧
      ∃ input, .dispatched i call.lease input ready answer ∈ es
  | .consumed call loop _ ready result => LoopOf es config i call loop ∧
      (∀ m ∈ ready, m ∈ eligibleCandidates loop.evaluations) ∧
      (result = .ok .accepted →
        ∃ input, .dispatched i call.lease input ready (.outcome .accepted) ∈ es)
  | .done => ∀ request signatures selected, (∃ ev ∈ es, ev.Returns i request) →
      selectCandidates config request = .ok (.candidates signatures selected) →
        isAmbiguous config selected → ∀ ev ∈ es, ¬ ev.Dispatches i

/-- What is true of an event by itself. -/
def EventOf (config : EngineConfig) : Event → Prop
  | .dispatched _ _ input members _ => ∀ m ∈ members,
      replayIdentity config.scope m.2 = some input.identity ∧
        ReadyUntil input.nowEpochSeconds input.retainUntilEpochSeconds m.2 ∧
        ∃ profile, m.2.time = config.time profile
  | .returned _ request _ failure (.ok result) => Accounted config request failure result
  | _ => True

/-- What a turn keeps. -/
structure TurnOf {σ : Type} (A : Rounding) (config : EngineConfig) (i : ℕ) (es : List Event)
    (s : Shared σ) (t : Turn σ) : Prop where
  continues : s.controller.Continues A t.shared.controller
  phase : PhaseOf (es ++ t.events) config i t.phase
  events : ∀ ev ∈ t.events, ev.call? = some i ∧ EventOf config ev
  begun : ∀ j lease epoch, .begun j lease epoch ∈ t.events → ∃ e, epoch = some e ∧
    s.controller.epochs.activeEpoch = some e ∧
      ∃ l, t.shared.controller.epochs.leases[lease]? = some l ∧ l.epoch = e

section

variable {σ ω : Type} {A : Rounding} {store : ReplayStore σ ω} {config : EngineConfig} {i : ℕ}
  {es fs : List Event} {call : Call} {loop : ReplayLoop} {s s₀ : Shared σ} {t : Turn σ}
  {evaluations : List CandidateEvaluation} {phase : Phase}

/-! ## Histories -/

theorem CallOf.append (h : CallOf es config i call)
    (hfs : ∀ ev ∈ fs, ∀ request, ¬ ev.Returns i request) : CallOf (es ++ fs) config i call := by
  obtain ⟨pre, epoch, mid, rfl, hpre⟩ := h.begun
  refine ⟨⟨pre, epoch, mid ++ fs, by simp, hpre⟩, h.selected, fun ev hev => ?_⟩
  rcases List.mem_append.mp hev with hev | hev
  · exact h.pending ev hev
  · exact hfs ev hev

theorem LoopOf.append (h : LoopOf es config i call loop)
    (hfs : ∀ ev ∈ fs, ∀ request, ¬ ev.Returns i request) : LoopOf (es ++ fs) config i call loop := by
  refine ⟨h.started.append hfs, h.unambiguous, h.evaluated, h.length, h.groups, fun position hp => ?_⟩
  obtain ⟨input, members, m, hdispatched, hm⟩ := h.accepted position hp
  exact ⟨input, members, m, List.mem_append_left _ hdispatched, hm⟩

theorem Event.not_returns {ev : Event} (h : ev.call? ≠ some i) (request : RequestParts) :
    ¬ ev.Returns i request := by
  cases ev <;> simp_all [Event.call?, Event.Returns]

theorem Event.not_dispatches {ev : Event} (h : ev.call? ≠ some i) : ¬ ev.Dispatches i := by
  cases ev <;> simp_all [Event.call?, Event.Dispatches]

/-- Events of other calls change nothing that a phase knows. -/
theorem PhaseOf.append (h : PhaseOf es config i phase) (hfs : ∀ ev ∈ fs, ev.call? ≠ some i) :
    PhaseOf (es ++ fs) config i phase := by
  have hreturns : ∀ ev ∈ fs, ∀ request, ¬ ev.Returns i request := fun ev hev =>
    Event.not_returns (hfs ev hev)
  have hdispatches : ∀ ev ∈ fs, ¬ ev.Dispatches i := fun ev hev => Event.not_dispatches (hfs ev hev)
  cases phase with
  | idle =>
    intro ev hev
    rcases List.mem_append.mp hev with hev | hev
    · exact h ev hev
    · exact hfs ev hev
  | evaluating call evaluations =>
    refine ⟨h.1.append hreturns, h.2.1, fun ev hev => ?_⟩
    rcases List.mem_append.mp hev with hev | hev
    · exact h.2.2 ev hev
    · exact hdispatches ev hev
  | replaying call loop => exact LoopOf.append h hreturns
  | consuming call loop group ready answer =>
    obtain ⟨hloop, hready, input, hinput⟩ := h
    exact ⟨hloop.append hreturns, hready, input, List.mem_append_left _ hinput⟩
  | consumed call loop group ready result =>
    obtain ⟨hloop, hready, haccepted⟩ := h
    refine ⟨hloop.append hreturns, hready, fun heq => ?_⟩
    obtain ⟨input, hinput⟩ := haccepted heq
    exact ⟨input, List.mem_append_left _ hinput⟩
  | done =>
    rintro request signatures selected ⟨ev, hev, hreturned⟩ hselected hambiguous ev' hev'
    rcases List.mem_append.mp hev with hev | hev
    · rcases List.mem_append.mp hev' with hev' | hev'
      · exact h request signatures selected ⟨ev, hev, hreturned⟩ hselected hambiguous ev' hev'
      · exact hdispatches ev' hev'
    · exact absurd hreturned (hreturns ev hev request)

/-! ## The end of a call -/

/-- A call may end that has dispatched nothing where it was ambiguous. -/
structure MayEnd (es : List Event) (config : EngineConfig) (i : ℕ) (call : Call)
    (evaluations : List CandidateEvaluation) : Prop where
  started : CallOf es config i call
  evaluated : EvaluationsOf config call.selected evaluations
  undispatched : isAmbiguous config call.selected → ∀ ev ∈ es, ¬ ev.Dispatches i

theorem LoopOf.mayEnd (h : LoopOf es config i call loop) :
    MayEnd es config i call loop.evaluations :=
  ⟨h.started, h.evaluated, fun hambiguous => by simp [h.unambiguous] at hambiguous⟩

/-- The selection of a request that has a lease. -/
theorem CallOf.selection (h : CallOf es config i call) {selection : CandidateSelection}
    (hselect : selectCandidates config call.request = .ok selection) :
    ∃ signatures, selection = .candidates signatures call.selected := by
  obtain ⟨signatures, hselected⟩ := h.selected
  exact ⟨signatures, Except.ok.inj (hselect.symm.trans hselected)⟩

/-- After its end a call knows whether it has dispatched anything. -/
theorem MayEnd.done (h : MayEnd es config i call evaluations)
    (hreturns : ∀ ev ∈ fs, ∀ request, ev.Returns i request → request = call.request)
    (hdispatches : ∀ ev ∈ fs, ¬ ev.Dispatches i) : PhaseOf (es ++ fs) config i .done := by
  rintro request signatures selected ⟨ev, hev, hreturned⟩ hselected hambiguous ev' hev'
  rcases List.mem_append.mp hev with hev | hev
  · exact absurd hreturned (h.started.pending ev hev request)
  · obtain rfl := hreturns ev hev request hreturned
    obtain ⟨_, hselection⟩ := h.started.selection hselected
    obtain ⟨-, rfl⟩ := CandidateSelection.candidates.inj hselection
    rcases List.mem_append.mp hev' with hev' | hev'
    · exact h.undispatched hambiguous ev' hev'
    · exact hdispatches ev' hev'

theorem endCall_turnOf {result : Except ProfileError VerificationResult}
    (h : MayEnd es config i call evaluations)
    (hresult : ∀ r, result = .ok r → Accounted config call.request none r)
    (hs : s₀.controller.Continues A s.controller) :
    TurnOf A config i es s₀ (endCall config i call evaluations result s) := by
  have hcontinues := hs.trans (Controller.finishOperation_continues A s.controller call.lease)
  unfold endCall
  cases result with
  | ok r =>
    refine ⟨hcontinues, ?_, ?_, by simp⟩
    · exact h.done (by simp [Event.Returns, eq_comm]) (by simp [Event.Dispatches])
    · rintro ev hev
      obtain rfl := List.mem_singleton.mp hev
      exact ⟨rfl, hresult r rfl⟩
  | error e =>
    refine ⟨hcontinues, ?_, ?_, by simp⟩
    · exact h.done (by simp [Event.Returns, eq_comm]) (by simp [Event.Dispatches])
    · rintro ev hev
      obtain rfl := List.mem_singleton.mp hev
      refine ⟨rfl, ?_⟩
      cases hfailed : failedResult config call.selected (some call.profile) evaluations e with
      | error e' => exact trivial
      | ok r => exact accounted_failed (fun _ => h.started.selection) h.evaluated hfailed

theorem completeCall_turnOf {result : ℤ → Except ProfileError VerificationResult}
    {sample : ClockSample} (h : MayEnd es config i call evaluations)
    (hresult : ∀ now r, result now = .ok r → Accounted config call.request none r)
    (hs : s₀.controller.Continues A s.controller) :
    TurnOf A config i es s₀ (completeCall A config i call evaluations sample result s) := by
  have hcontinues := hs.trans
    (Controller.completeOperation_spec A s.controller call.lease sample).2
  unfold completeCall
  simp only
  split
  · exact endCall_turnOf h (by simp) hcontinues
  · rename_i now _
    have hend := endCall_turnOf h (hresult now)
      (s := s.withController (s.controller.completeOperation A call.lease sample).1) hcontinues
    refine ⟨hend.continues, ?_, ?_, ?_⟩
    · unfold endCall
      cases result now with
      | ok r => exact h.done (by simp [Event.Returns, eq_comm]) (by simp [Event.Dispatches])
      | error e => exact h.done (by simp [Event.Returns, eq_comm]) (by simp [Event.Dispatches])
    · rintro ev hev
      rcases List.mem_cons.mp hev with rfl | hev
      · exact ⟨rfl, trivial⟩
      · exact hend.events ev hev
    · rintro j lease epoch hev
      rcases List.mem_cons.mp hev with hev | hev
      · cases hev
      · exact hend.begun j lease epoch hev

/-! ## The steps of a call -/

theorem failUnleased_turnOf {request : RequestParts} {selected : List ParsedSignature}
    {e : ProfileError} (h : ∀ ev ∈ es, ev.call? ≠ some i)
    (hselect : ∀ selection, selectCandidates config request = .ok selection →
      ∃ signatures, selection = .candidates signatures selected)
    (hs : s₀.controller.Continues A s.controller) :
    TurnOf A config i es s₀ (failUnleased config i request selected e s) := by
  refine ⟨hs, ?_, ?_, by simp [failUnleased]⟩
  · rintro _ _ _ - - - ev hev
    rcases List.mem_append.mp hev with hev | hev
    · exact Event.not_dispatches (h ev hev)
    · obtain rfl := List.mem_singleton.mp hev
      exact id
  · rintro ev hev
    obtain rfl := List.mem_singleton.mp hev
    refine ⟨rfl, ?_⟩
    cases hfailed : failedResult config selected none [] e with
    | error e' => exact trivial
    | ok r => exact accounted_failed hselect .nil hfailed

theorem readAgent_turnOf {request : RequestParts} {selected signatures : List ParsedSignature}
    {lease : LeaseId} (h : ∀ ev ∈ es, ev.call? ≠ some i)
    (hselect : selectCandidates config request = .ok (.candidates signatures selected))
    (hcurrent : s.controller.epochs.isCurrent lease)
    (hs : s₀.controller.Continues A s.controller) :
    TurnOf A config i es s₀ (readAgent config i request selected lease s) := by
  obtain ⟨epoch, hactive, hlease⟩ := OperationEpochs.isCurrent_iff.mp hcurrent
  have hactive₀ := hs.epochs.activeEpoch.symm.trans hactive
  unfold readAgent
  split
  · have hfinish := Controller.finishOperation_continues A s.controller lease
    have hfail := failUnleased_turnOf (e := ‹_›) h
      (fun selection hs => ⟨signatures, Except.ok.inj (hs.symm.trans hselect)⟩)
      (s := s.withController (s.controller.finishOperation lease)) (hs.trans hfinish)
    obtain ⟨l, hl, hepoch⟩ := hfinish.epochs.leases lease _ hlease
    refine ⟨hfail.continues, ?_, ?_, ?_⟩
    · rintro _ _ _ - - - ev hev
      rcases List.mem_append.mp hev with hev | hev
      · exact Event.not_dispatches (h ev hev)
      · rcases List.mem_cons.mp hev with rfl | hev
        · exact id
        · obtain rfl := List.mem_singleton.mp hev
          exact id
    · rintro ev hev
      rcases List.mem_cons.mp hev with rfl | hev
      · exact ⟨rfl, trivial⟩
      · exact hfail.events ev hev
    · rintro j lease' epoch' hev
      rcases List.mem_cons.mp hev with hev | hev
      · obtain ⟨rfl, rfl, rfl⟩ := Event.begun.inj hev
        exact ⟨epoch, hactive, hactive₀, l, hl, hepoch⟩
      · exact hfail.begun j lease' epoch' hev
  · refine ⟨hs, ⟨⟨⟨es, _, [], rfl, h⟩, ⟨signatures, hselect⟩, ?_⟩, .nil, ?_⟩, ?_, ?_⟩
    · intro ev hev request'
      rcases List.mem_append.mp hev with hev | hev
      · exact Event.not_returns (h ev hev) request'
      · obtain rfl := List.mem_singleton.mp hev
        exact id
    · intro ev hev
      rcases List.mem_append.mp hev with hev | hev
      · exact Event.not_dispatches (h ev hev)
      · obtain rfl := List.mem_singleton.mp hev
        exact id
    · rintro ev hev
      obtain rfl := List.mem_singleton.mp hev
      exact ⟨rfl, trivial⟩
    · rintro j lease' epoch' hev
      obtain ⟨rfl, rfl, rfl⟩ := Event.begun.inj (List.mem_singleton.mp hev)
      exact ⟨epoch, hactive, hactive₀, _, hlease, rfl⟩

theorem startCall_turnOf {request : RequestParts} {sample : ClockSample}
    (h : ∀ ev ∈ es, ev.call? ≠ some i) :
    TurnOf A config i es s (startCall A config i request sample s) := by
  unfold startCall
  split
  · rename_i e herror
    exact failUnleased_turnOf h (by simp [herror]) (.refl A _)
  · rename_i reason hreason
    refine ⟨.refl A _, ?_, ?_, by simp⟩
    · rintro _ _ _ - - - ev hev
      rcases List.mem_append.mp hev with hev | hev
      · exact Event.not_dispatches (h ev hev)
      · obtain rfl := List.mem_singleton.mp hev
        exact id
    · rintro ev hev
      obtain rfl := List.mem_singleton.mp hev
      refine ⟨rfl, ⟨?_, by simp [hreason], by simp [hreason], by simp [hreason], by simp,
        by simp [hreason]⟩⟩
      rintro reason' heq
      rw [hreason, VerificationResult.unsigned.inj heq]
  · rename_i signatures selected hselected
    obtain ⟨hcontinues, hcurrent⟩ := Controller.beginOperation_spec A s.controller sample
    simp only
    split
    · exact failUnleased_turnOf h
        (fun selection hs => ⟨signatures, Except.ok.inj (hs.symm.trans hselected)⟩) hcontinues
    · rename_i lease hlease
      exact readAgent_turnOf h hselected (hcurrent lease hlease) hcontinues

/-- A turn without events keeps what its new phase knows. -/
theorem turnOf_silent {phase : Phase} (hphase : PhaseOf es config i phase)
    (hs : s₀.controller.Continues A s.controller) : TurnOf A config i es s₀ ⟨s, phase, []⟩ :=
  ⟨hs, by simpa using hphase, by simp, by simp⟩

theorem endEvaluation_turnOf {signature : ParsedSignature} {result : EvaluationEnd}
    (h : PhaseOf es config i (.evaluating call evaluations))
    (hsignature : call.selected[evaluations.length]? = some signature) :
    TurnOf A config i es s (endEvaluation config i call evaluations signature s result) := by
  obtain ⟨hcall, hevaluations, hundispatched⟩ := h
  cases result with
  | eligible finding =>
    refine turnOf_silent ⟨hcall, ?_, hundispatched⟩ (.refl A _)
    refine hevaluations.concat hsignature rfl fun candidate heq => ?_
    obtain rfl := CandidateEvaluation.eligible.inj heq
    exact ⟨call.profile, rfl⟩
  | rejected rejection =>
    refine turnOf_silent ⟨hcall, ?_, hundispatched⟩ (.refl A _)
    refine hevaluations.concat hsignature rfl fun candidate heq => ?_
    cases heq
  | threw e =>
    rw [endEvaluation]
    exact endCall_turnOf ⟨hcall, hevaluations, fun _ => hundispatched⟩ (by simp) (.refl A _)

theorem endEvaluations_turnOf {checkEvidence : ℕ → Except ProfileError Unit} {sample : ClockSample}
    (h : PhaseOf es config i (.evaluating call evaluations))
    (hlength : evaluations.length = call.selected.length) :
    TurnOf A config i es s (endEvaluations A config i call evaluations checkEvidence sample s) := by
  obtain ⟨hcall, hevaluations, hundispatched⟩ := h
  have hmay : MayEnd es config i call evaluations := ⟨hcall, hevaluations, fun _ => hundispatched⟩
  obtain ⟨signatures, hselected⟩ := hcall.selected
  unfold endEvaluations
  split
  · rename_i hambiguous
    exact completeCall_turnOf hmay
      (fun now r hr => accounted_ambiguous hselected hambiguous hevaluations hlength hr) (.refl A _)
  · rename_i hunambiguous
    split
    · exact endCall_turnOf hmay (by simp) (.refl A _)
    · rename_i screened hscreened
      obtain ⟨hscreen, hlength'⟩ := hevaluations.screen hscreened
      obtain ⟨hgroups, haccepted⟩ :=
        groupCandidates_nil_spec config.scope (eligibleCandidates screened)
      exact turnOf_silent ⟨hcall, by simpa using hunambiguous, hscreen, hlength'.trans hlength,
        hgroups, fun position hp => absurd hp (haccepted position)⟩ (.refl A _)

/-- What the loop knows when a group has left it. -/
theorem LoopOf.tail {evaluations : List CandidateEvaluation} {groups : ReplayGroups}
    {outcomes : ReplayOutcomes} {g : ReplayIdentity × List Positioned}
    (h : LoopOf es config i call ⟨evaluations, g :: groups, outcomes⟩) :
    LoopOf es config i call ⟨evaluations, groups, outcomes⟩ :=
  ⟨h.started, h.unambiguous, h.evaluated, h.length,
    fun g' hg' => h.groups g' (List.mem_cons_of_mem _ hg'), h.accepted⟩

/-- What the loop knows when no further candidate has become accepted. -/
theorem LoopOf.withOutcomes {outcomes : ReplayOutcomes} (h : LoopOf es config i call loop)
    (houtcomes : ∀ position, OrderedMap.lookup outcomes position = some .accepted →
      OrderedMap.lookup loop.outcomes position = some .accepted) :
    LoopOf es config i call { loop with outcomes } :=
  ⟨h.started, h.unambiguous, h.evaluated, h.length, h.groups,
    fun position hp => h.accepted position (houtcomes position hp)⟩

theorem refuseGroup_turnOf {group : List Positioned} {e : ProfileError}
    (h : LoopOf es config i call loop) (hs : s₀.controller.Continues A s.controller) :
    TurnOf A config i es s₀ (refuseGroup call loop group e s) :=
  turnOf_silent ⟨h, by simp, by simp⟩ hs

theorem askStore_turnOf {group ready : List Positioned} {input : ReplayConsumeInput} {choice : ω}
    {retry : ClockSample} (h : LoopOf es config i call loop)
    (hready : ∀ m ∈ ready, m ∈ eligibleCandidates loop.evaluations)
    (hevent : ∀ m ∈ ready, replayIdentity config.scope m.2 = some input.identity ∧
      ReadyUntil input.nowEpochSeconds input.retainUntilEpochSeconds m.2)
    (hs : s₀.controller.Continues A s.controller) :
    TurnOf A config i es s₀ (askStore A store i call loop group ready input choice retry s) := by
  have hreturns : ∀ answer, ∀ ev ∈ [Event.dispatched i call.lease input ready answer],
      ∀ request, ¬ ev.Returns i request := by simp [Event.Returns]
  have hevents : ∀ answer, ∀ ev ∈ [Event.dispatched i call.lease input ready answer],
      ev.call? = some i ∧ EventOf config ev := by
    intro answer ev hev
    obtain rfl := List.mem_singleton.mp hev
    refine ⟨rfl, fun m hm => ?_⟩
    obtain ⟨hidentity, huntil⟩ := hevent m hm
    exact ⟨hidentity, huntil, h.evaluated.time m.2
      (List.mem_of_getElem? (eligibleCandidates_spec.mp (hready m hm)))⟩
  unfold askStore
  simp only
  split
  · refine ⟨hs.trans (Controller.currentTime_continues A _ _ _), ⟨h.append (hreturns _), hready, ?_⟩,
      hevents _, by simp⟩
    intro heq
    cases hr : (s.controller.currentTime A (some call.lease) retry).2 with
    | ok now => simp [hr, Except.map] at heq
    | error e => simp [hr, Except.map] at heq
  · exact ⟨hs, ⟨h.append (hreturns _), hready, input, by simp⟩, hevents _, by simp⟩

theorem dispatchAt_turnOf {identity : ReplayIdentity} {group : List Positioned} {now : ℤ}
    {choice : ω} {retry : ClockSample} (h : LoopOf es config i call loop)
    (hgroup : ∀ m ∈ group, replayIdentity config.scope m.2 = some identity ∧
      m ∈ eligibleCandidates loop.evaluations)
    (hs : s₀.controller.Continues A s.controller) :
    TurnOf A config i es s₀ (dispatchAt A store config i call loop group now choice retry s) := by
  unfold dispatchAt
  split
  · exact refuseGroup_turnOf h hs
  · rename_i prepared hprepared
    have hspec := prepareGroup_spec hprepared
    have hloop := h.withOutcomes hspec.outcomes
    simp only
    split
    · exact refuseGroup_turnOf hloop hs
    · rename_i input hinput
      obtain ⟨hidentity, hnow, hretain⟩ := preparedInput_spec
        (fun m hm => (hgroup m (hspec.mem m hm)).1) hinput
      split
      · refine askStore_turnOf hloop (fun m hm => (hgroup m (hspec.mem m hm)).2) (fun m hm => ?_) hs
        rw [hidentity, hnow, hretain]
        exact ⟨(hgroup m (hspec.mem m hm)).1, hspec.ready m hm⟩
      · exact refuseGroup_turnOf hloop hs

theorem dispatchGroup_turnOf {evaluations : List CandidateEvaluation} {groups : ReplayGroups}
    {outcomes : ReplayOutcomes} {g : ReplayIdentity × List Positioned} {choice : ω}
    {sample retry : ClockSample} (h : LoopOf es config i call ⟨evaluations, g :: groups, outcomes⟩) :
    TurnOf A config i es s (dispatchGroup A store config i call ⟨evaluations, groups, outcomes⟩ g.2
      choice sample retry s) := by
  have hcontinues := Controller.currentTime_continues A s.controller (some call.lease) sample
  unfold dispatchGroup
  simp only
  split
  · exact refuseGroup_turnOf h.tail hcontinues
  · exact dispatchAt_turnOf h.tail (h.groups g List.mem_cons_self) hcontinues

theorem receiveAnswer_turnOf {group ready : List Positioned} {answer : StoreAnswer}
    {sample : ClockSample} (h : PhaseOf es config i (.consuming call loop group ready answer)) :
    TurnOf A config i es s (receiveAnswer A call loop group ready answer sample s) := by
  obtain ⟨hloop, hready, input, hinput⟩ := h
  refine turnOf_silent ⟨hloop, hready, fun heq => ?_⟩ (Controller.currentTime_continues A _ _ _)
  cases hr : (s.controller.currentTime A (some call.lease) sample).2 with
  | error e => simp [hr, Except.map] at heq
  | ok now =>
    rw [hr] at heq
    have hanswer := Except.ok.inj heq
    cases answer with
    | outcome outcome =>
      obtain rfl : outcome = .accepted := hanswer
      exact ⟨input, hinput⟩
    | other => simp [StoreAnswer.storeOutcome] at hanswer
    | threw => simp [StoreAnswer.storeOutcome] at hanswer

theorem rejectGroup_turnOf {group : List Positioned} {e : ProfileError}
    (h : LoopOf es config i call loop) (hs : s₀.controller.Continues A s.controller) :
    TurnOf A config i es s₀ (rejectGroup config i call loop group e s) := by
  unfold rejectGroup
  split
  · exact turnOf_silent (h.withOutcomes fun _ => failGroup_accepted) hs
  · exact endCall_turnOf h.mayEnd (by simp) hs

theorem settleRound_turnOf {group ready : List Positioned} {sample : ClockSample}
    {result : Except ProfileError StoreOutcome}
    (h : PhaseOf es config i (.consumed call loop group ready result)) :
    TurnOf A config i es s (settleRound A config i call loop group ready result sample s) := by
  obtain ⟨hloop, hready, haccepted⟩ := h
  unfold settleRound
  split
  · exact rejectGroup_turnOf hloop (.refl A _)
  · rename_i outcome
    have hcontinues := Controller.currentTime_continues A s.controller (some call.lease) sample
    simp only
    split
    · exact rejectGroup_turnOf hloop hcontinues
    · rename_i outcomes houtcomes
      obtain ⟨now, -, hsettled⟩ := bind_eq_ok.mp houtcomes
      refine turnOf_silent ⟨hloop.started, hloop.unambiguous, hloop.evaluated, hloop.length,
        hloop.groups, fun position hp => ?_⟩ hcontinues
      rcases settleGroup_accepted hsettled position hp with hbefore | ⟨rfl, m, hm, hposition⟩
      · exact hloop.accepted position hbefore
      · obtain ⟨input, hinput⟩ := haccepted rfl
        exact ⟨input, ready, m, hinput, hm, hposition, hready m hm⟩

theorem endGroups_turnOf {checkEvidence : ℕ → Except ProfileError Unit} {sample : ClockSample}
    (h : LoopOf es config i call loop) :
    TurnOf A config i es s (endGroups A config i call loop checkEvidence sample s) := by
  unfold endGroups
  split
  · exact endCall_turnOf h.mayEnd (by simp) (.refl A _)
  · rename_i lost hlost
    obtain ⟨signatures, hselected⟩ := h.started.selected
    exact completeCall_turnOf h.mayEnd
      (fun now r hr => accounted_final hselected h.unambiguous h.evaluated h.length hlost hr)
      (.refl A _)

/-- Every turn keeps what its phase knows. -/
theorem turn_turnOf {action : CallAction ω} (hphase : PhaseOf es config i phase)
    (h : turn A store config i s phase action = some t) : TurnOf A config i es s t := by
  unfold turn at h
  split at h
  · obtain rfl := Option.some.inj h
    exact startCall_turnOf hphase
  · obtain rfl := Option.some.inj h
    exact turnOf_silent hphase (Controller.currentTime_continues A _ _ _)
  · obtain ⟨signature, hsignature, rfl⟩ := Option.map_eq_some_iff.mp h
    exact endEvaluation_turnOf hphase hsignature
  · split at h
    · rename_i hlength
      obtain rfl := Option.some.inj h
      exact endEvaluations_turnOf hphase hlength
    · simp at h
  · obtain rfl := Option.some.inj h
    exact dispatchGroup_turnOf hphase
  · obtain rfl := Option.some.inj h
    exact receiveAnswer_turnOf hphase
  · obtain rfl := Option.some.inj h
    exact settleRound_turnOf hphase
  · obtain rfl := Option.some.inj h
    exact endGroups_turnOf hphase
  · simp at h

end

end AgentSig.Profiles
