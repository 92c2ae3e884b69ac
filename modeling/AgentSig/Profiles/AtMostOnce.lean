import AgentSig.Profiles.ResetSafety
import Mathlib.Data.List.Pairwise

/-!
# At most one verification of a signed request

The owned store holds the record of an accepted request until its deadline, and two records of one
identity are accepted only where the deadline of the first has passed. A request that is ready for
the store is acceptable then, and no request is acceptable any more after the deadline of its
record: so one signed request is accepted at most once.

## Main definitions

* `Spaced`: the second of two acceptances of one identity is after the deadline of the first
* `StoreOf`: what the history says about the owned store, while its epoch is open
* `VerifiesRequest`: a call that verifies a candidate with given signed values

## Main results

* `storeOf_run`: acceptances are spaced in every run without a committed reset
* `verified_at_most_once`: **at most one call verifies a signed request**
-/

namespace AgentSig.Profiles

open Commons Core StructuredFields

/-- The second of two acceptances of one identity is not before the deadline of the first. -/
def Spaced : Event → Event → Prop
  | .dispatched _ _ input _ (.outcome .accepted), .dispatched _ _ input' _ (.outcome .accepted) =>
    input.identity = input'.identity → input.retainUntilEpochSeconds ≤ input'.nowEpochSeconds
  | _, _ => True

/-- What the history says about the owned store. -/
structure StoreOf (A : Rounding) (es : List Event) (s : System MemoryReplayStore) : Prop where
  spaced : es.Pairwise Spaced
  held : s.shared.controller.epochs.activeEpoch.isSome → ∀ i lease input members,
    .dispatched i lease input members (.outcome .accepted) ∈ es →
      s.shared.store.Holds input.identity input.retainUntilEpochSeconds
  last_le : s.shared.controller.epochs.activeEpoch.isSome →
    s.shared.store.lastNow ≤ s.shared.controller.tracker.second A

variable {A : Rounding} {replay : ReplayPolicy} {limits : ReplayLimits} {configs : ℕ → EngineConfig}
  {policy : ClockPolicy} {first : ClockSample} {es fs : List Event} {s t : System MemoryReplayStore}

theorem spaced_of_not_dispatches {ev ev' : Event} (h : ∀ i, ¬ ev'.Dispatches i) : Spaced ev ev' := by
  cases ev' with
  | dispatched i => exact absurd rfl (h i)
  | _ => cases ev <;> simp [Spaced]

/-- A step that asks nothing of the store, leaves it alone while its epoch stays open, and does not
go back in time. -/
theorem StoreOf.silent (h : StoreOf A es s) (hfs : ∀ ev ∈ fs, ∀ i, ¬ ev.Dispatches i)
    (hopen : t.shared.controller.epochs.activeEpoch.isSome →
      s.shared.controller.epochs.activeEpoch.isSome ∧ t.shared.store = s.shared.store ∧
        s.shared.controller.tracker.second A ≤ t.shared.controller.tracker.second A) :
    StoreOf A (es ++ fs) t := by
  refine ⟨?_, fun hactive i lease input members hmem => ?_, fun hactive => ?_⟩
  · refine List.pairwise_append.mpr ⟨h.spaced, ?_, fun _ _ ev hev =>
      spaced_of_not_dispatches (hfs ev hev)⟩
    exact List.pairwise_of_forall_mem_list fun _ _ ev hev => spaced_of_not_dispatches (hfs ev hev)
  · obtain ⟨hactive, hstore, -⟩ := hopen hactive
    rw [hstore]
    rcases List.mem_append.mp hmem with hmem | hmem
    · exact h.held hactive i lease input members hmem
    · exact absurd rfl (hfs _ hmem i)
  · obtain ⟨hactive, hstore, hle⟩ := hopen hactive
    rw [hstore]
    exact (h.last_le hactive).trans hle

theorem StoreOf.asks {i : ℕ} {turn : Turn MemoryReplayStore} {phases : ℕ → Phase}
    (h : StoreOf A es s) (hasks : Asks A (ownedMemoryStore replay limits) i s.shared turn)
    (hlast : s.shared.controller.tracker.second A ≤ turn.shared.controller.tracker.second A) :
    StoreOf A (es ++ turn.events) { s with shared := turn.shared, calls := phases } := by
  obtain ⟨⟨lease, input, members, choice, hevents, hstore, hnow, hsecond⟩, hopen⟩ := hasks
  have hactive : s.shared.controller.epochs.activeEpoch.isSome := by
    simp only [Controller.isOpen, Bool.and_eq_true] at hopen
    exact hopen.2
  obtain ⟨hholds, haccepted, hlastNow⟩ :=
    MemoryReplayStore.consume_spec replay limits s.shared.store input
  have hstore' : turn.shared.store = (s.shared.store.consume replay limits input).1 := hstore
  refine ⟨?_, fun _ j lease' input' members' hmem => ?_, fun _ => ?_⟩
  · refine List.pairwise_append.mpr ⟨h.spaced, by rw [hevents]; exact List.pairwise_singleton _ _,
      fun ev hev ev' hev' => ?_⟩
    rw [hevents] at hev'
    obtain rfl := List.mem_singleton.mp hev'
    unfold Spaced
    split
    · rename_i j lease' input' members' heq
      obtain ⟨rfl, rfl, rfl, rfl, hanswer⟩ := Event.dispatched.inj heq
      exact fun hidentity => (haccepted (StoreAnswer.outcome.inj hanswer)).1 _
        (hidentity ▸ h.held hactive _ _ _ _ hev)
    · trivial
  · simp only
    rw [hstore']
    rcases List.mem_append.mp hmem with hmem | hmem
    · exact hholds _ _ (h.held hactive j lease' input' members' hmem)
    · rw [hevents] at hmem
      obtain ⟨rfl, rfl, rfl, rfl, hanswer⟩ := Event.dispatched.inj (List.mem_singleton.mp hmem)
      exact (haccepted (StoreAnswer.outcome.inj hanswer.symm)).2
  · simp only
    rw [hstore']
    rcases hlastNow with hlastNow | hlastNow
    · exact hlastNow.le.trans ((h.last_le hactive).trans hlast)
    · exact hlastNow.le.trans hsecond

/-- Every step but the commit of a reset keeps what the history says about the store. -/
theorem storeOf_step {action : Action Unit} (hsystem : SystemOf configs es s) (h : StoreOf A es s)
    (hstep : step A (ownedMemoryStore replay limits) configs s action = some (t, fs))
    (hreset : ∀ epoch, .activated epoch ∉ fs) : StoreOf A (es ++ fs) t := by
  cases action with
  | call i action =>
    obtain ⟨turn, hturn, heq⟩ := Option.map_eq_some_iff.mp hstep
    obtain ⟨rfl, rfl⟩ := Prod.mk.inj heq
    have hcontinues := (turn_turnOf (hsystem.phases i) hturn).continues
    rcases turn_store hturn with ⟨hstore, hsilent⟩ | hasks
    · refine h.silent hsilent fun hactive => ⟨?_, hstore, hcontinues.second_le⟩
      rwa [← hcontinues.epochs.activeEpoch]
    · exact h.asks hasks hcontinues.second_le
  | reset action =>
    obtain ⟨turn, hturn, heq⟩ := Option.map_eq_some_iff.mp hstep
    obtain ⟨rfl, rfl⟩ := Prod.mk.inj heq
    have hcase := resetTurn_cases hturn
    exact h.silent (fun ev hev i => Event.not_dispatches (by simp [hcase.call?_eq hev]))
      (hcase.open_of_open hreset)

/-- Acceptances are spaced in every run without a committed reset. -/
theorem storeOf_run
    (h : EngineRun A (ownedMemoryStore replay limits) configs policy first .empty es s)
    (hreset : ∀ epoch, .activated epoch ∉ es) : StoreOf A es s := by
  induction h with
  | init hinit =>
    obtain ⟨controller, hcontroller, rfl⟩ := hinit
    refine ⟨.nil, by simp, fun _ => ?_⟩
    simp only [createSecurityContextController, bind_eq_ok, pure_eq_ok] at hcontroller
    obtain ⟨tracker, htracker, rfl⟩ := hcontroller
    exact ClockTracker.second_create_nonneg htracker
  | step hrun hstep ih =>
    obtain ⟨action, hstep⟩ := hstep
    refine storeOf_step (systemOf_run hrun) (ih fun epoch hmem => ?_) hstep fun epoch hmem => ?_
    · exact hreset epoch (List.mem_append_left _ hmem)
    · exact hreset epoch (List.mem_append_right _ hmem)

/-- A call returned a result in which a candidate with these signed values is verified. -/
def VerifiesRequest (es : List Event) (i : ℕ) (thumbprint nonce : Text) (created expires : Number) :
    Prop :=
  ∃ (request : RequestParts) (evaluations : List CandidateEvaluation)
    (failure : Option ProfileError) (r : VerificationResult) (position : ℕ)
    (candidate : EligibleCandidate) (v : VerifiedCandidate), .returned i request evaluations failure (.ok r) ∈ es ∧
      evaluations[position]? = some (.eligible candidate) ∧
      r.candidates[position]? = some (.verified v) ∧
      candidate.thumbprint = thumbprint ∧ candidate.metadata.nonce = some nonce ∧
      candidate.metadata.created = created ∧ candidate.metadata.expires = expires

/-- A call that verifies a request was accepted by the store when the request was acceptable, until
a deadline that is not before the end of the time policy's window. -/
theorem VerifiesRequest.accepted {σ ω : Type} {store : ReplayStore σ ω} {initial : σ}
    {s : System σ} {scope thumbprint nonce : Text} {created expires : Number} {time : TimePolicy}
    {i : ℕ} (hrun : EngineRun A store configs policy first initial es s)
    (hscope : (configs i).scope = scope) (htime : ∀ profile, (configs i).time profile = time)
    (h : VerifiesRequest es i thumbprint nonce created expires) :
    ∃ lease input members, .dispatched i lease input members (.outcome .accepted) ∈ es ∧
      input.identity = (scope, thumbprint, nonce) ∧
      time.Accepts created expires input.nowEpochSeconds ∧
      ∀ later, time.Accepts created expires later → later < input.retainUntilEpochSeconds := by
  obtain ⟨request, evaluations, failure, r, position, candidate, v, hreturned, heligible, hv, rfl,
    hnonce, rfl, rfl⟩ := h
  obtain ⟨pre, t, call, sample, now, -, hgate⟩ :=
    exists_atGate hrun hreturned (.inr ⟨v, List.mem_of_getElem? hv⟩)
  obtain ⟨candidate', heligible', -, -, hdispatched⟩ := hgate.dispatched hv
  obtain rfl := CandidateEvaluation.eligible.inj (Option.some.inj (heligible.symm.trans heligible'))
  obtain ⟨input, members, hmem, hmember⟩ := hdispatched (by simp [hnonce])
  obtain ⟨post, rfl⟩ := hgate.events
  obtain ⟨hidentity, ⟨haccepts, own, hown, hretain⟩, profile, hprofile⟩ :=
    hgate.system.events _ hmem i rfl _ hmember
  simp only at hidentity haccepts hretain hprofile
  rw [hprofile, htime] at haccepts hretain
  refine ⟨call.lease, input, members, List.mem_append_left _ hmem, ?_, haccepts, fun later hlater =>
    (TimePolicy.lt_retainUntil hretain hlater).trans_le hown⟩
  simpa [replayIdentity, hnonce, hscope] using hidentity.symm

theorem Spaced.dispatched {i i' : ℕ} {lease lease' : LeaseId} {input input' : ReplayConsumeInput}
    {members members' : List Positioned}
    (h : Spaced (.dispatched i lease input members (.outcome .accepted))
      (.dispatched i' lease' input' members' (.outcome .accepted)))
    (hidentity : input.identity = input'.identity) :
    input.retainUntilEpochSeconds ≤ input'.nowEpochSeconds := h hidentity

/-- Of two acceptances of one identity in a run, one is not before the deadline of the other. -/
theorem StoreOf.spaced_or (h : StoreOf A es s) {i i' : ℕ} {lease lease' : LeaseId}
    {input input' : ReplayConsumeInput} {members members' : List Positioned} (hne : i ≠ i')
    (hmem : .dispatched i lease input members (.outcome .accepted) ∈ es)
    (hmem' : .dispatched i' lease' input' members' (.outcome .accepted) ∈ es)
    (hidentity : input.identity = input'.identity) :
    input.retainUntilEpochSeconds ≤ input'.nowEpochSeconds ∨
      input'.retainUntilEpochSeconds ≤ input.nowEpochSeconds := by
  have hpairwise : es.Pairwise fun ev ev' => Spaced ev ev' ∨ Spaced ev' ev := h.spaced.imp .inl
  have : Std.Symm fun ev ev' : Event => Spaced ev ev' ∨ Spaced ev' ev := ⟨fun _ _ => Or.symm⟩
  have hdifferent : Event.dispatched i lease input members (.outcome .accepted) ≠
      .dispatched i' lease' input' members' (.outcome .accepted) := fun heq =>
    hne (Event.dispatched.inj heq).1
  rcases hpairwise.forall hmem hmem' hdifferent with hspaced | hspaced
  · exact .inl (hspaced.dispatched hidentity)
  · exact .inr (hspaced.dispatched hidentity.symm)

/-- Calls that share one context with its owned store, one scope and one time policy: at most one of
them verifies a signed request, and the record of an accepted request is held, and not expired, for
as long as the request is acceptable at a healthy sample of the epoch. -/
theorem verified_at_most_once (A : Rounding) (replay : ReplayPolicy) (limits : ReplayLimits)
    (configs : ℕ → EngineConfig) (policy : ClockPolicy) (first : ClockSample) (scope : Text)
    (time : TimePolicy) (hscope : ∀ i, (configs i).scope = scope)
    (htime : ∀ i profile, (configs i).time profile = time) {es : List Event}
    {s : System MemoryReplayStore}
    (hrun : EngineRun A (ownedMemoryStore replay limits) configs policy first .empty es s)
    (hreset : ∀ epoch, .activated epoch ∉ es) :
    (∀ i i' thumbprint nonce created expires, VerifiesRequest es i thumbprint nonce created expires →
      VerifiesRequest es i' thumbprint nonce created expires → i = i') ∧
    ∀ i lease input members, .dispatched i lease input members (.outcome .accepted) ∈ es →
      ∀ m ∈ members, s.shared.controller.epochs.activeEpoch.isSome →
        ∀ sample tracker effective now,
          s.shared.controller.tracker.observe A sample = (tracker, .healthy effective now) →
          time.check m.2.metadata.created m.2.metadata.expires now = .ok () →
            ∃ entry, s.shared.store.record input.identity = some entry ∧ now < entry.retainUntil := by
  have hstore := storeOf_run hrun hreset
  refine ⟨fun i i' thumbprint nonce created expires h h' => ?_, ?_⟩
  · obtain ⟨lease, input, members, hmem, hidentity, haccepts, hbefore⟩ :=
      h.accepted hrun (hscope i) (htime i)
    obtain ⟨lease', input', members', hmem', hidentity', haccepts', hbefore'⟩ :=
      h'.accepted hrun (hscope i') (htime i')
    by_contra hne
    rcases hstore.spaced_or hne hmem hmem' (hidentity.trans hidentity'.symm) with hle | hle
    · exact absurd hle (not_le.mpr (hbefore _ haccepts'))
    · exact absurd hle (not_le.mpr (hbefore' _ haccepts))
  · intro i lease input members hmem m hm hactive sample tracker effective now hobserve hcheck
    obtain ⟨-, ⟨-, own, hown, hretain⟩, profile, hprofile⟩ :=
      (systemOf_run hrun).events _ hmem i rfl m hm
    rw [hprofile, htime] at hretain
    have hbefore := TimePolicy.lt_retainUntil hretain (TimePolicy.check_eq_ok.mp hcheck)
    rcases hstore.held hactive i lease input members hmem with ⟨entry, hentry, hdeadline⟩ | hpast
    · exact ⟨entry, hentry, by omega⟩
    · -- The deadline has passed for the store, so also for every later healthy sample.
      obtain ⟨hnow, -⟩ := ClockTracker.observe_healthy hobserve
      have hle := ClockTracker.second_le_observe A s.shared.controller.tracker sample
      rw [hobserve] at hle
      have := hstore.last_le hactive
      simp only at hle
      omega

theorem verified_at_most_once_exampleRun : ∃ es : List Event, es.any Event.isVerification ∧
    ∀ i i' thumbprint nonce created expires, VerifiesRequest es i thumbprint nonce created expires →
      VerifiesRequest es i' thumbprint nonce created expires → i = i' := by
  obtain ⟨es, s, i, request, evaluations, failure, r, hrun, hreset, hreturned, hverified⟩ :=
    exampleRun_verified
  exact ⟨es, List.any_eq_true.mpr ⟨_, hreturned, hverified⟩,
    (verified_at_most_once .exact ⟨10, 10⟩ ⟨2048, 256⟩ (fun _ => exampleConfig) exampleClockPolicy
      exampleSample (ascii "site") DEFAULT_TIME_POLICY (fun _ => rfl) (fun _ _ => rfl) hrun hreset).1⟩

end AgentSig.Profiles
