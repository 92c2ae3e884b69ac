import AgentSig.Profiles.ReplayRounds
import AgentSig.Profiles.EngineRuns

/-!
# Replay grouping

When `consumeCandidateGroups` returns, every candidate has an outcome, and each identity was asked of
the store at most once, for the members that were ready.

## Main definitions

* `ReplayGrouping`: what holds when `consumeCandidateGroups` returns
* `undisturbedRounds`: the rounds when nothing else runs during their awaits

## Main results

* `replay_grouping`: what holds when `consumeCandidateGroups` returns
* `window_without_dispatch`: a member may be in its window and have no deadline
-/

namespace AgentSig.Profiles

open Commons Core StructuredFields

/-- What holds when `consumeCandidateGroups` returns. -/
structure ReplayGrouping (scope : Text) (i : ℕ) (call : Call) (members : List Positioned)
    (records : List RoundRecord) (outcomes : ReplayOutcomes) : Prop where
  /-- The map has an outcome for exactly the candidates. -/
  complete : ∀ position, (OrderedMap.lookup outcomes position).isSome ↔
    ∃ m ∈ members, m.1 = position
  optional : ∀ m ∈ members, m.2.metadata.nonce = none →
    OrderedMap.lookup outcomes m.1 = some .optional ∧ ∀ r ∈ records, m ∉ r.group
  /-- There is one round for each identity, with all candidates of that identity. -/
  identities : (records.map (·.identity)).Nodup
  identified : ∀ identity, (∃ r ∈ records, r.identity = identity) ↔
    ∃ m ∈ members, replayIdentity scope m.2 = some identity
  group : ∀ r ∈ records, r.group = ofIdentity scope r.identity members
  settled : ∀ r ∈ records, RoundSettled i call r outcomes
  accepted : ∀ m ∈ members, OrderedMap.lookup outcomes m.1 = some .accepted →
    ∃ r ∈ records, m ∈ r.group ∧ AcceptedIn r m

variable {σ ω : Type} {A : Rounding} {store : ReplayStore σ ω} {config : EngineConfig} {i : ℕ}
  {call : Call} {members : List Positioned} {records : List RoundRecord}
  {outcomes outcomes' : ReplayOutcomes} {scope : Text}

theorem mem_ofIdentity {m : Positioned} {identity : ReplayIdentity} :
    m ∈ ofIdentity scope identity members ↔
      m ∈ members ∧ replayIdentity scope m.2 = some identity := by
  simp [ofIdentity]

theorem replayIdentity_eq_none {candidate : EligibleCandidate} :
    replayIdentity scope candidate = none ↔ candidate.metadata.nonce = none := by
  simp [replayIdentity]

/-- There is a group for each identity of a candidate. -/
theorem exists_mem_groupCandidates {identity : ReplayIdentity} :
    (∃ g ∈ (groupCandidates scope [] [] members).1, g.1 = identity) ↔
      ∃ m ∈ members, replayIdentity scope m.2 = some identity := by
  have hlookup := lookup_groupCandidates scope members identity
  constructor
  · rintro ⟨g, hg, rfl⟩
    have hsome := (OrderedMap.lookup_isSome (k := g.1)).mpr (List.mem_map_of_mem hg)
    rw [hlookup] at hsome
    split at hsome
    · simp at hsome
    · rename_i hne
      obtain ⟨m, hm⟩ := List.exists_mem_of_ne_nil _ hne
      exact ⟨m, mem_ofIdentity.mp hm⟩
  · rintro ⟨m, hm, hidentity⟩
    have hne : ofIdentity scope identity members ≠ [] :=
      List.ne_nil_of_mem (mem_ofIdentity.mpr ⟨hm, hidentity⟩)
    rw [if_neg hne] at hlookup
    exact ⟨_, OrderedMap.mem_of_lookup hlookup, rfl⟩

/-- **Replay grouping**: every candidate has one outcome; candidates without a nonce are optional; each
identity is asked of the store at most once, and is asked exactly if a member is ready; and nobody is
accepted who was not ready before and in its window after the store has accepted. -/
theorem replay_grouping (hidentified : Identified members)
    (h : ConsumesCandidateGroups A store config i call members records outcomes) :
    ReplayGrouping config.scope i call members records outcomes := by
  obtain ⟨evaluations, hrounds⟩ := h
  obtain ⟨hkeys, hgroup, hfresh⟩ := groupCandidates_grouped config.scope hidentified
  obtain ⟨hrecords, hkept, hsettled⟩ := rounds_spec hidentified
    (groupCandidates_nil_spec config.scope members).1 hkeys hfresh hrounds
  have hmem {r : RoundRecord} (hr : r ∈ records) :
      (r.identity, r.group) ∈ (groupCandidates config.scope [] [] members).1 := by
    rw [← hrecords]
    exact List.mem_map_of_mem hr
  have hgroupOf : ∀ r ∈ records, r.group = ofIdentity config.scope r.identity members :=
    fun r hr => (hgroup _ (hmem hr)).1
  have hidentities : ∀ identity, (∃ r ∈ records, r.identity = identity) ↔
      ∃ m ∈ members, replayIdentity config.scope m.2 = some identity := by
    intro identity
    rw [← exists_mem_groupCandidates, ← hrecords]
    simp
  -- A candidate is in the group of its identity, or keeps its first outcome.
  have hcases {m : Positioned} (hm : m ∈ members) : (∃ r ∈ records, m ∈ r.group) ∨
      OrderedMap.lookup outcomes m.1 = some .optional := by
    cases hidentity : replayIdentity config.scope m.2 with
    | some identity =>
      obtain ⟨r, hr, rfl⟩ := (hidentities identity).mpr ⟨m, hm, hidentity⟩
      refine .inl ⟨r, hr, ?_⟩
      rw [hgroupOf r hr]
      exact mem_ofIdentity.mpr ⟨hm, hidentity⟩
    | none =>
      refine .inr ?_
      rw [hkept m.1, groupCandidates_outcomes rfl, if_pos]
      · exact List.any_eq_true.mpr ⟨m, hm, by simp [hidentity]⟩
      · intro g hg m' hm' heq
        rw [(hgroup g hg).1] at hm'
        obtain ⟨hm', hidentity'⟩ := mem_ofIdentity.mp hm'
        obtain rfl := hidentified m' hm' m hm heq
        rw [hidentity] at hidentity'
        simp at hidentity'
  refine ⟨?_, ?_, ?_, hidentities, hgroupOf, hsettled, ?_⟩
  · intro position
    constructor
    · intro hsome
      by_contra hnone
      push Not at hnone
      rw [hkept position, groupCandidates_outcomes rfl, if_neg] at hsome
      · simp [OrderedMap.lookup] at hsome
      · rw [List.any_eq_true]
        rintro ⟨m, hm, hm'⟩
        exact hnone m hm (of_decide_eq_true hm').1
      · intro g hg m hm
        rw [(hgroup g hg).1] at hm
        exact hnone m (mem_ofIdentity.mp hm).1
    · rintro ⟨m, hm, rfl⟩
      rcases hcases hm with ⟨r, hr, hmr⟩ | hoptional
      · exact (hsettled r hr).complete m hmr
      · rw [hoptional]
        rfl
  · intro m hm hnonce
    have hnot : ∀ r ∈ records, m ∉ r.group := by
      intro r hr hmr
      rw [hgroupOf r hr] at hmr
      have hidentity := (mem_ofIdentity.mp hmr).2
      rw [replayIdentity_eq_none.mpr hnonce] at hidentity
      simp at hidentity
    refine ⟨?_, hnot⟩
    rcases hcases hm with ⟨r, hr, hmr⟩ | hoptional
    · exact absurd hmr (hnot r hr)
    · exact hoptional
  · have hmap := congrArg (List.map Prod.fst) hrecords
    rw [List.map_map] at hmap
    change records.map (·.identity) = _ at hmap
    rw [hmap]
    exact hkeys
  · intro m hm haccepted
    rcases hcases hm with ⟨r, hr, hmr⟩ | hoptional
    · exact ⟨r, hr, hmr, (hsettled r hr).accepted m hmr haccepted⟩
    · rw [hoptional] at haccepted
      simp at haccepted

/-! ## Undisturbed rounds -/

section Undisturbed

variable (A store config i call) (choice : ω) (sample : ClockSample)

/-- `consume` of the controller for a group, when nothing else runs during its await. -/
def undisturbedConsume (loop : ReplayLoop) (group : List Positioned) (s : Shared σ) : Turn σ :=
  let turn := dispatchGroup A store config i call loop group choice sample sample s
  match turn.phase with
  | .consuming call loop group ready answer =>
    { receiveAnswer A call loop group ready answer sample turn.shared with events := turn.events }
  | _ => turn

/-- A round when nothing else runs during its await. -/
def undisturbedRound (loop : ReplayLoop) (g : ReplayIdentity × List Positioned) (s : Shared σ) :
    Option (RoundRecord × Turn σ) :=
  let turn := undisturbedConsume A store config i call choice sample loop g.2 s
  match turn.phase with
  | .consumed _ loop _ ready result =>
    some (⟨g.1, g.2, (s.controller.currentTime A (some call.lease) sample).2, turn.events, result,
      (turn.shared.controller.currentTime A (some call.lease) sample).2⟩,
      settleRound A config i call loop g.2 ready result sample turn.shared)
  | _ => none

/-- The rounds over some groups when nothing else runs during their awaits. -/
def undisturbedRounds : ReplayGroups → ReplayOutcomes → Shared σ →
    Option (List RoundRecord × ReplayOutcomes)
  | [], outcomes, _ => some ([], outcomes)
  | g :: groups, outcomes, s =>
    match undisturbedRound A store config i call choice sample ⟨[], groups, outcomes⟩ g s with
    | some (record, ⟨s, .replaying _ loop, []⟩) =>
      (undisturbedRounds groups loop.outcomes s).map fun (records, outcomes) =>
        (record :: records, outcomes)
    | _ => none

variable {A store config i call choice sample}

/-- A dispatch ends in `consume` of the controller, for its call and its group. -/
theorem dispatchGroup_phase (retry : ClockSample) (loop : ReplayLoop) (group : List Positioned)
    (s : Shared σ) : ∃ loop' ready,
      (∃ result, (dispatchGroup A store config i call loop group choice sample retry s).phase =
        .consumed call loop' group ready result) ∨
      ∃ answer, (dispatchGroup A store config i call loop group choice sample retry s).phase =
        .consuming call loop' group ready answer := by
  unfold dispatchGroup
  dsimp only
  split
  · exact ⟨_, _, .inl ⟨_, rfl⟩⟩
  · unfold dispatchAt
    split
    · exact ⟨_, _, .inl ⟨_, rfl⟩⟩
    · dsimp only
      split
      · exact ⟨_, _, .inl ⟨_, rfl⟩⟩
      · split
        · unfold askStore
          dsimp only
          split
          · exact ⟨_, _, .inl ⟨_, rfl⟩⟩
          · exact ⟨_, _, .inr ⟨_, rfl⟩⟩
        · exact ⟨_, _, .inl ⟨_, rfl⟩⟩

/-- The rest of a round is of its call. -/
theorem settleRound_call {loop loop' : ReplayLoop} {group ready : List Positioned}
    {result : Except ProfileError StoreOutcome} {call' : Call} {s : Shared σ}
    (h : (settleRound A config i call loop group ready result sample s).phase =
      .replaying call' loop') : call' = call := by
  unfold settleRound rejectGroup endCall at h
  split at h
  · split at h <;> simp_all
  · dsimp only at h
    split at h
    · split at h <;> simp_all
    · simp_all

/-- A round during whose await nothing else runs is a round. -/
theorem round_of_undisturbedRound {loop loop' : ReplayLoop} {g : ReplayIdentity × List Positioned}
    {s s' : Shared σ} {r : RoundRecord} {call' : Call}
    (h : undisturbedRound A store config i call choice sample loop g s =
      some (r, ⟨s', .replaying call' loop', []⟩)) :
    Round A store config i call loop g r loop'.outcomes := by
  unfold undisturbedRound at h
  dsimp only at h
  split at h
  · rename_i call'' loop'' group ready result hphase
    simp only [Option.some.injEq, Prod.mk.injEq] at h
    obtain ⟨rfl, hsettle⟩ := h
    obtain rfl := settleRound_call (congrArg Turn.phase hsettle)
    refine .settle ?_ hsettle
    unfold undisturbedConsume at hphase ⊢
    obtain ⟨loop₁, ready₁, hcases⟩ := dispatchGroup_phase sample loop g.2 s
    generalize hdispatch : dispatchGroup A store config i call' loop g.2 choice sample sample s = turn
      at hphase hcases ⊢
    obtain ⟨s₁, phase, events⟩ := turn
    rcases hcases with ⟨result₁, rfl⟩ | ⟨answer, rfl⟩
    · simp only [Phase.consumed.injEq] at hphase
      obtain ⟨-, rfl, -, rfl, rfl⟩ := hphase
      exact .atOnce hdispatch
    · simp only [receiveAnswer, Phase.consumed.injEq] at hphase
      obtain ⟨-, rfl, -, rfl, rfl⟩ := hphase
      exact .awaited hdispatch rfl
  · simp at h

theorem rounds_of_undisturbedRounds {groups : ReplayGroups} {s : Shared σ}
    (h : undisturbedRounds A store config i call choice sample groups outcomes s =
      some (records, outcomes')) :
    Rounds A store config i call [] groups outcomes records outcomes' := by
  induction groups generalizing outcomes s records with
  | nil =>
    obtain ⟨rfl, rfl⟩ := Prod.mk.inj (Option.some.inj h)
    exact .nil
  | cons g groups ih =>
    unfold undisturbedRounds at h
    split at h
    · rename_i record s' call' loop hround
      obtain ⟨⟨rest, outcomes₁⟩, hrest, heq⟩ := Option.map_eq_some_iff.mp h
      obtain ⟨rfl, rfl⟩ := Prod.mk.inj heq
      exact .cons (round_of_undisturbedRound hround) (ih hrest)
    · simp at h

end Undisturbed

/-! ## Examples -/

/-- A candidate at the ninth second, with a nonce or without. -/
def exampleCandidate (time : TimePolicy) (nonce : Option Text) : EligibleCandidate :=
  ⟨ascii "sig1", .ietfWgProtocol00, [],
    ⟨.integer 9, .integer 60, List.replicate 43 65, none, nonce⟩, List.replicate 43 65,
    ascii "https://a.example", time⟩

/-- A time policy whose deadlines are not safe integers, from the first second on. -/
def longestPolicy : TimePolicy := ⟨60, 300, 9007199254740991, 0, by decide, by decide, by decide⟩

/-- The call of the examples. -/
def exampleCall : Call := ⟨exampleRequest, [], 0, .ietfWgProtocol00⟩

/-- The rounds over some candidates at the tenth second, in a context whose store always accepts. -/
def exampleRounds (members : List Positioned) : Option (List RoundRecord × ReplayOutcomes) := do
  let controller ← (createSecurityContextController exampleClockPolicy exampleSample).toOption
  undisturbedRounds .exact (anyStore (some .independent)) exampleConfig 0 exampleCall
    (.outcome .accepted) exampleSample (groupCandidates exampleConfig.scope [] [] members).1
    (groupCandidates exampleConfig.scope [] [] members).2
    ⟨(controller.beginOperation .exact exampleSample).1, ()⟩

theorem consumesCandidateGroups_of_exampleRounds
    (h : exampleRounds members = some (records, outcomes)) :
    ConsumesCandidateGroups .exact (anyStore (some .independent)) exampleConfig 0 exampleCall members
      records outcomes := by
  unfold exampleRounds at h
  obtain ⟨controller, -, hrounds⟩ := Option.bind_eq_some_iff.mp h
  exact ⟨[], rounds_of_undisturbedRounds hrounds⟩

/-- A member of `longestPolicy` is in its window when the time is checked before the dispatch, and yet
the store is not asked. -/
theorem window_without_dispatch : ∃ members records outcomes, Identified members ∧
    ConsumesCandidateGroups .exact (anyStore (some .independent)) exampleConfig 0 exampleCall members
      records outcomes ∧
    ∃ r ∈ records, ∃ m ∈ r.group, ∃ now u,
      r.sampled = .ok now ∧ checkAt now m = .ok u ∧ r.events = [] := by
  have hrounds : (exampleRounds [(0, exampleCandidate longestPolicy (some (ascii "bm9uY2U")))]).any
      (fun rounds => rounds.1.any fun r => r.events.isEmpty && r.group.any fun m =>
        r.sampled.toOption.any fun now => (checkAt now m).isOk) = true := by decide +kernel
  obtain ⟨⟨records, outcomes⟩, hrecords, hany⟩ := (Option.any_eq_true _ _).mp hrounds
  obtain ⟨r, hr, hround⟩ := List.any_eq_true.mp hany
  obtain ⟨hevents, hgroup⟩ := Bool.and_eq_true_iff.mp hround
  obtain ⟨m, hm, hcheck⟩ := List.any_eq_true.mp hgroup
  refine ⟨_, records, outcomes, ?_, consumesCandidateGroups_of_exampleRounds hrecords, r, hr, m, hm,
    ?_⟩
  · simp [Identified]
  · obtain ⟨now, hnow, hcheck⟩ := (Option.any_eq_true _ _).mp hcheck
    cases hsampled : r.sampled with
    | error e =>
      rw [hsampled] at hnow
      cases hnow
    | ok now' =>
      rw [hsampled] at hnow
      obtain rfl := Option.some.inj hnow
      cases hok : checkAt now' m with
      | ok u => exact ⟨now', u, rfl, hok, List.isEmpty_iff.mp hevents⟩
      | error e =>
        rw [hok] at hcheck
        exact absurd hcheck Bool.false_ne_true

/-- Two candidates of an identity and one without a nonce. -/
def exampleMembers : List Positioned :=
  [(0, exampleCandidate DEFAULT_TIME_POLICY (some (ascii "bm9uY2U"))),
    (1, exampleCandidate DEFAULT_TIME_POLICY none),
    (2, exampleCandidate DEFAULT_TIME_POLICY (some (ascii "bm9uY2U")))]

theorem replay_grouping_exampleMembers : ∃ records outcomes,
    OrderedMap.lookup outcomes 0 = some .accepted ∧
      OrderedMap.lookup outcomes 1 = some .optional ∧
      OrderedMap.lookup outcomes 2 = some .accepted ∧
      ReplayGrouping exampleConfig.scope 0 exampleCall exampleMembers records outcomes := by
  have hrounds : (exampleRounds exampleMembers).any (fun rounds =>
      OrderedMap.lookup rounds.2 0 = some .accepted ∧ OrderedMap.lookup rounds.2 1 = some .optional ∧
        OrderedMap.lookup rounds.2 2 = some .accepted) = true := by decide +kernel
  obtain ⟨⟨records, outcomes⟩, hrecords, hlookups⟩ := (Option.any_eq_true _ _).mp hrounds
  obtain ⟨hfirst, hsecond, hthird⟩ := of_decide_eq_true hlookups
  have hidentified : Identified exampleMembers := by
    simp [Identified, exampleMembers]
  exact ⟨records, outcomes, hfirst, hsecond, hthird,
    replay_grouping hidentified (consumesCandidateGroups_of_exampleRounds hrecords)⟩

end AgentSig.Profiles
