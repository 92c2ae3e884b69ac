import AgentSig.Profiles.EngineOutcomes
import AgentSig.Profiles.ResetTurns

/-!
# Runs of a context

What the history of a run says about its last state, over any interleaving of calls and resets. A
lease is of the epoch that was active when its call began: closing an epoch leaves no epoch, or one
with a greater number, so a lease that is current was current ever since. Every result that a call
returns accounts for the candidates that were selected.

## Main definitions

* `EpochsOf`: what the history says about the leases of the calls that have begun
* `SystemOf`: the invariant of a context
* `exampleRun`: a call that verifies a request with a nonce

## Main results

* `systemOf_run`: the invariant holds in every run
* `verify_accounts`: **every result accounts for the candidates**
-/

namespace AgentSig.Profiles

open Commons Core StructuredFields

/-- Each begun call has a lease of the epoch that was active then, and a closed epoch is not active. -/
def EpochsOf (es : List Event) (e : OperationEpochs) : Prop :=
  ∀ pre mid i lease epoch, es = pre ++ .begun i lease epoch :: mid →
    ∃ x, epoch = some x ∧ x ≤ e.lastEpoch ∧
      (∃ l, e.leases[lease]? = some l ∧ l.epoch = x) ∧
      (.invalidated ∈ mid → e.activeEpoch ≠ some x)

/-- What a step does to the epochs. -/
structure EpochStep (e : OperationEpochs) (fs : List Event) (e' : OperationEpochs) : Prop where
  leases : ∀ (lease : LeaseId) (l : LeaseState), e.leases[lease]? = some l →
    ∃ l', e'.leases[lease]? = some l' ∧ l'.epoch = l.epoch
  last_le : e.lastEpoch ≤ e'.lastEpoch
  active : e'.activeEpoch = e.activeEpoch ∧ .invalidated ∉ fs ∨
    ∀ x, e'.activeEpoch = some x → e.lastEpoch < x
  begun : ∀ i lease epoch, .begun i lease epoch ∈ fs → .invalidated ∉ fs ∧
    ∃ x, epoch = some x ∧ e.activeEpoch = some x ∧
      ∃ l, e'.leases[lease]? = some l ∧ l.epoch = x

/-- The invariant of a context. -/
structure SystemOf {σ : Type} (configs : ℕ → EngineConfig) (es : List Event) (s : System σ) :
    Prop where
  phases : ∀ i, PhaseOf es (configs i) i (s.calls i)
  events : ∀ ev ∈ es, ∀ i, ev.call? = some i → EventOf (configs i) ev
  epochs : EpochsOf es s.shared.controller.epochs

variable {σ ω : Type} {A : Rounding} {store : ReplayStore σ ω} {configs : ℕ → EngineConfig}
  {policy : ClockPolicy} {first : ClockSample} {initial : σ} {es fs : List Event} {s t : System σ}
  {e e' : OperationEpochs}

/-! ## Epochs -/

theorem EpochsOf.step (h : EpochsOf es e) (hstep : EpochStep e fs e') : EpochsOf (es ++ fs) e' := by
  intro pre mid i lease epoch heq
  rcases append_eq_append_cons heq with ⟨mid', hes, rfl⟩ | ⟨pre', rfl, hfs⟩
  · obtain ⟨x, rfl, hx, ⟨l, hl, hlx⟩, hclosed⟩ := h pre mid' i lease epoch hes
    obtain ⟨l', hl', hepoch⟩ := hstep.leases lease l hl
    refine ⟨x, rfl, hx.trans hstep.last_le, ⟨l', hl', hepoch.trans hlx⟩, fun hmem hactive => ?_⟩
    rcases hstep.active with ⟨hsame, hnot⟩ | hlater
    · rcases List.mem_append.mp hmem with hmem | hmem
      · exact hclosed hmem (hsame.symm.trans hactive)
      · exact hnot hmem
    · exact absurd hx (not_le.mpr (hlater x hactive))
  · obtain ⟨hnot, x, rfl, hactive, hl⟩ := hstep.begun i lease epoch (by simp [hfs])
    refine ⟨x, rfl, (e.active_eq x hactive).le.trans hstep.last_le, hl, fun hmem => ?_⟩
    exact absurd (by rw [hfs]; exact List.mem_append_right _ (List.mem_cons_of_mem _ hmem)) hnot

theorem epochStep_of_turn {config : EngineConfig} {i : ℕ} {s : Shared σ} {t : Turn σ}
    (h : TurnOf A config i es s t) :
    EpochStep s.controller.epochs t.events t.shared.controller.epochs := by
  have hnot : .invalidated ∉ t.events := fun hmem => by
    have hcall := (h.events _ hmem).1
    simp [Event.call?] at hcall
  refine ⟨h.continues.epochs.leases, h.continues.epochs.lastEpoch.ge,
    .inl ⟨h.continues.epochs.activeEpoch, hnot⟩, fun j lease epoch hmem => ⟨hnot, ?_⟩⟩
  exact h.begun j lease epoch hmem

/-- A step that leaves the leases as they are and records no beginning. -/
theorem epochStep_of_leases (hleases : e'.leases = e.leases) (hlast : e.lastEpoch ≤ e'.lastEpoch)
    (hactive : e'.activeEpoch = e.activeEpoch ∧ .invalidated ∉ fs ∨
      ∀ x, e'.activeEpoch = some x → e.lastEpoch < x)
    (hbegun : ∀ i lease epoch, .begun i lease epoch ∉ fs) : EpochStep e fs e' :=
  ⟨fun lease l hl => ⟨l, by rw [hleases, hl], rfl⟩, hlast, hactive,
    fun i lease epoch hmem => absurd hmem (hbegun i lease epoch)⟩

theorem Closing.not_begun {reset : Option ResetPhase} {pre : List Event} {replacement : ClockTracker}
    (h : Closing reset pre replacement) {ev : Event} (hev : ev ∈ pre) :
    ev = .sampled replacement.referenceSample ∨ ev = .invalidated := by
  cases h with
  | atOnce => simpa using hev
  | cleaned => simp at hev

theorem epochStep_of_reset {reset : Option ResetPhase} {s : Shared σ} {t : ResetTurn σ}
    (h : ResetCase A s reset t) :
    EpochStep s.controller.epochs t.events t.shared.controller.epochs := by
  cases h with
  | refused code events _ _ resets =>
    rw [events, resets.epochs]
    exact epochStep_of_leases rfl le_rfl (.inl ⟨rfl, by simp⟩) (by simp)
  | accepted reason oldEpoch events _ _ _ resets =>
    rw [events, resets.epochs]
    exact epochStep_of_leases rfl le_rfl (.inl ⟨rfl, by simp⟩) (by simp)
  | abandoned sample events _ _ resets =>
    rw [events, resets.epochs]
    exact epochStep_of_leases rfl le_rfl (.inl ⟨rfl, by simp⟩) (by simp)
  | closed replacement invalidated cleanup events _ resets =>
    rw [events, resets.epochs]
    exact epochStep_of_leases rfl le_rfl (.inr (by simp)) (by simp)
  | failed replacement closing events _ resets =>
    obtain ⟨epochs, hepochs, hresets⟩ := resets
    rw [hresets.epochs]
    have hsame : epochs.leases = s.controller.epochs.leases ∧
        epochs.lastEpoch = s.controller.epochs.lastEpoch := by
      rcases hepochs with rfl | rfl <;> exact ⟨rfl, rfl⟩
    refine epochStep_of_leases hsame.1 hsame.2.ge (.inr (by simp)) fun i lease epoch hmem => ?_
    rw [events] at hmem
    rcases List.mem_append.mp hmem with hmem | hmem
    · rcases closing.not_begun hmem with heq | heq <;> cases heq
    · simp at hmem
  | succeeded epoch replacement tracker closing reference events _ resets =>
    obtain ⟨epochs, epochs', hepochs, hactivate, -, hresets⟩ := resets
    obtain ⟨-, hactive, hlast, hleases⟩ := OperationEpochs.activateNext_spec hactivate
    have hsame : epochs.leases = s.controller.epochs.leases ∧
        epochs.lastEpoch = s.controller.epochs.lastEpoch := by
      rcases hepochs with rfl | rfl <;> exact ⟨rfl, rfl⟩
    rw [hresets.epochs]
    refine epochStep_of_leases (hleases.trans hsame.1) (by omega) (.inr fun x hx => ?_)
      fun i lease epoch hmem => ?_
    · rw [hactive] at hx
      have := Option.some.inj hx
      omega
    · rw [events] at hmem
      rcases List.mem_append.mp hmem with hmem | hmem
      · rcases closing.not_begun hmem with heq | heq <;> cases heq
      · simp at hmem

/-! ## The invariant -/

theorem systemOf_init (h : ∃ controller, createSecurityContextController policy first = .ok controller ∧
    s = .init controller initial) : SystemOf configs [] s := by
  obtain ⟨controller, -, rfl⟩ := h
  refine ⟨fun i => ?_, by simp, fun pre mid i lease epoch heq => by simp at heq⟩
  intro ev hev
  simp at hev

/-- Events of a reset are of no call. -/
theorem ResetCase.call?_eq {reset : Option ResetPhase} {s : Shared σ} {t : ResetTurn σ}
    (h : ResetCase A s reset t) {ev : Event} (hev : ev ∈ t.events) : ev.call? = none := by
  cases h with
  | refused code events => simp_all [Event.call?]
  | accepted reason oldEpoch events => simp_all [Event.call?]
  | abandoned sample events => simp_all [Event.call?]
  | closed replacement invalidated cleanup events =>
    rw [events] at hev
    rcases List.mem_pair.mp hev with rfl | rfl <;> rfl
  | failed replacement closing events =>
    rw [events] at hev
    rcases List.mem_append.mp hev with hev | hev
    · rcases closing.not_begun hev with rfl | rfl <;> rfl
    · rcases List.mem_pair.mp hev with rfl | rfl <;> rfl
  | succeeded epoch replacement tracker closing reference events =>
    rw [events] at hev
    rcases List.mem_append.mp hev with hev | hev
    · rcases closing.not_begun hev with rfl | rfl <;> rfl
    · rcases List.mem_pair.mp hev with rfl | rfl <;> rfl

/-- Every step keeps the invariant. -/
theorem systemOf_step {action : Action ω} (h : SystemOf configs es s)
    (hstep : step A store configs s action = some (t, fs)) : SystemOf configs (es ++ fs) t := by
  cases action with
  | call i action =>
    obtain ⟨turn, hturn, heq⟩ := Option.map_eq_some_iff.mp hstep
    obtain ⟨rfl, rfl⟩ := Prod.mk.inj heq
    have hturnOf := turn_turnOf (h.phases i) hturn
    refine ⟨fun j => ?_, fun ev hev j hj => ?_, h.epochs.step (epochStep_of_turn hturnOf)⟩
    · by_cases hij : j = i
      · subst hij
        simpa using hturnOf.phase
      · simp only [Function.update_of_ne hij]
        refine (h.phases j).append fun ev hev hcall => hij ?_
        exact Option.some.inj (hcall.symm.trans (hturnOf.events ev hev).1)
    · rcases List.mem_append.mp hev with hev | hev
      · exact h.events ev hev j hj
      · obtain ⟨hcall, hevent⟩ := hturnOf.events ev hev
        rwa [Option.some.inj (hj.symm.trans hcall)]
  | reset action =>
    obtain ⟨turn, hturn, heq⟩ := Option.map_eq_some_iff.mp hstep
    obtain ⟨rfl, rfl⟩ := Prod.mk.inj heq
    have hcase := resetTurn_cases hturn
    refine ⟨fun j => (h.phases j).append fun ev hev => by simp [hcase.call?_eq hev],
      fun ev hev j hj => ?_, h.epochs.step (epochStep_of_reset hcase)⟩
    rcases List.mem_append.mp hev with hev | hev
    · exact h.events ev hev j hj
    · simp [hcase.call?_eq hev] at hj

/-- The invariant holds in every run. -/
theorem systemOf_run (h : EngineRun A store configs policy first initial es s) :
    SystemOf configs es s := by
  refine h.invariant (fun s hs => systemOf_init hs) ?_
  rintro es fs s t - hs ⟨action, hstep⟩
  exact systemOf_step hs hstep

/-! ## The results of calls -/

/-- A call that has returned is done. -/
theorem SystemOf.done_of_returns (h : SystemOf configs es s) {i : ℕ} {request : RequestParts}
    (hreturns : ∃ ev ∈ es, ev.Returns i request) : s.calls i = .done := by
  obtain ⟨ev, hev, hreturns⟩ := hreturns
  have hcall : ev.call? = some i := by
    by_contra hne
    exact Event.not_returns hne request hreturns
  have hphase := h.phases i
  cases hp : s.calls i with
  | idle =>
    rw [hp] at hphase
    exact absurd hcall (hphase ev hev)
  | evaluating call evaluations =>
    rw [hp] at hphase
    exact absurd hreturns (hphase.1.pending ev hev request)
  | replaying call loop =>
    rw [hp] at hphase
    exact absurd hreturns (hphase.started.pending ev hev request)
  | consuming call loop group ready answer =>
    rw [hp] at hphase
    exact absurd hreturns (hphase.1.started.pending ev hev request)
  | consumed call loop group ready result =>
    rw [hp] at hphase
    exact absurd hreturns (hphase.1.started.pending ev hev request)
  | done => rfl

/-- Whichever way a call ends, its result accounts for the candidates that were selected, each of
them once. Where several were selected and exactly one is allowed, the store is never asked. -/
theorem verify_accounts (A : Rounding) (store : ReplayStore σ ω) (configs : ℕ → EngineConfig)
    (policy : ClockPolicy) (first : ClockSample) (initial : σ) {es : List Event} {s : System σ}
    (hrun : EngineRun A store configs policy first initial es s) {i : ℕ} {request : RequestParts}
    {evaluations : List CandidateEvaluation} {failure : Option ProfileError}
    {result : VerificationResult}
    (hreturned : .returned i request evaluations failure (.ok result) ∈ es) :
    Accounted (configs i) request failure result ∧
      (result.isUnsigned → result.candidates = []) ∧
      ∀ signatures selected,
        selectCandidates (configs i) request = .ok (.candidates signatures selected) →
          (labels selected).Nodup ∧
            (isAmbiguous (configs i) selected → ∀ ev ∈ es, ¬ ev.Dispatches i) := by
  have hsystem := systemOf_run hrun
  refine ⟨hsystem.events _ hreturned i rfl, fun hunsigned => ?_, fun signatures selected hselect =>
    ⟨nodup_labels hselect, fun hambiguous => ?_⟩⟩
  · cases result with
    | unsigned reason => rfl
    | verified | failed => simp [VerificationResult.isUnsigned] at hunsigned
  · have hreturns : ∃ ev ∈ es, ev.Returns i request := ⟨_, hreturned, rfl, rfl⟩
    have hphase := hsystem.phases i
    rw [hsystem.done_of_returns hreturns] at hphase
    exact hphase request signatures selected hreturns hselect hambiguous

/-! ## A run -/

/-- A request with one candidate. -/
def exampleRequest : RequestParts :=
  ⟨ascii "GET", ascii "https://site.example/", none,
    [⟨ascii "Signature-Agent", .text (ascii "sig1=\"https://a.example\"")⟩,
      ⟨ascii "Signature-Input", .text (ascii "sig1=();tag=\"web-bot-auth\"")⟩,
      ⟨ascii "Signature", .text (ascii "sig1=:AAAA:")⟩], none⟩

/-- A verifier with the default limits and the default time policy. -/
def exampleConfig : EngineConfig :=
  ⟨DEFAULT_CORE_LIMITS, 16, ascii "site", .exactlyOne, .all, fun _ => DEFAULT_TIME_POLICY⟩

/-- A sample at the tenth second. -/
def exampleSample : ClockSample := ⟨some 10000, some 10000⟩

/-- An evaluation that finds a nonce. -/
def exampleFinding : Finding :=
  ⟨⟨.integer 9, .integer 60, List.replicate 43 65, none, some (ascii "bm9uY2U")⟩,
    List.replicate 43 65, ascii "https://a.example"⟩

/-- The steps of a call that verifies `exampleRequest`. -/
def exampleActions : List (Action Unit) :=
  [.verify exampleRequest exampleSample, .evaluated (.eligible exampleFinding),
    .endEvaluations (fun _ => .ok ()) exampleSample, .dispatch () exampleSample exampleSample,
    .answer exampleSample, .settle exampleSample,
    .endGroups (fun _ => .ok ()) exampleSample].map (.call 0)

theorem exampleDrift_safe : 5 * 1000 ≤ maxSafeInteger := by decide

/-- A clock policy that allows five seconds of drift. -/
def exampleClockPolicy : ClockPolicy := ⟨5, exampleDrift_safe⟩

/-- The run of `exampleActions` in a context with its owned store. -/
def exampleRun : Except ProfileError (Option (System MemoryReplayStore × List Event)) := do
  let controller ← createSecurityContextController exampleClockPolicy exampleSample
  return runActions .exact (ownedMemoryStore ⟨10, 10⟩ ⟨2048, 256⟩) (fun _ => exampleConfig)
    exampleActions (.init controller .empty) []

/-- A call returns a verified result. -/
def Event.isVerification : Event → Bool
  | .returned _ _ _ _ (.ok result) => result.isVerified
  | _ => false

/-- A call of `exampleRun` verifies its request. -/
theorem exampleRun_verified : ∃ es s i request evaluations failure r,
    EngineRun .exact (ownedMemoryStore ⟨10, 10⟩ ⟨2048, 256⟩) (fun _ => exampleConfig)
      exampleClockPolicy exampleSample .empty es s ∧
    (∀ epoch, .activated epoch ∉ es) ∧
    .returned i request evaluations failure (.ok r) ∈ es ∧ r.isVerified := by
  have hrun : exampleRun.toOption.any (fun result => result.any fun run =>
      run.2.any Event.isVerification && !run.2.any (·.call?.isNone)) = true := by decide +kernel
  obtain ⟨result, hok, hresult⟩ := (Option.any_eq_true _ _).mp hrun
  obtain ⟨⟨s, es⟩, rfl, hevents⟩ := (Option.any_eq_true _ _).mp hresult
  cases heq : exampleRun with
  | error e =>
    rw [heq] at hok
    cases hok
  | ok result =>
    rw [heq] at hok
    obtain rfl := Option.some.inj hok
    simp only [exampleRun, bind_eq_ok, pure_eq_ok] at heq
    obtain ⟨controller, hcontroller, hactions⟩ := heq
    obtain ⟨hany, hnone⟩ := Bool.and_eq_true_iff.mp hevents
    obtain ⟨ev, hev, hverifies⟩ := List.any_eq_true.mp hany
    unfold Event.isVerification at hverifies
    split at hverifies
    · refine ⟨es, s, _, _, _, _, _, engineRun_of_runActions (.init ⟨controller, hcontroller, rfl⟩)
        hactions, fun epoch hmem => ?_, hev, hverifies⟩
      simp only [Bool.not_eq_true', List.any_eq_false] at hnone
      exact absurd rfl (hnone _ hmem)
    · simp at hverifies

theorem verify_accounts_exampleRun : ∃ (es : List Event), ∃ i request evaluations failure r,
    .returned i request evaluations failure (.ok r) ∈ es ∧ r.isVerified ∧
      Accounted exampleConfig request failure r := by
  obtain ⟨es, s, i, request, evaluations, failure, r, hrun, -, hreturned, hverified⟩ :=
    exampleRun_verified
  exact ⟨es, i, request, evaluations, failure, r, hreturned, hverified,
    (verify_accounts _ _ _ _ _ _ hrun hreturned).1⟩

end AgentSig.Profiles
