import AgentSig.Profiles.EngineSystem

/-!
# The rounds of replay grouping

`consumeCandidateGroups` groups the eligible candidates of a call and consumes one group after
the other. Between the turns of a round, other calls and resets may do anything to what is
shared, so a round is stated over any shared states, clocks and stores.

## Main definitions

* `Failure`, `ReadyAt`: how a member fails, or that it is ready, at a second
* `Consumes`: `consume` of the controller for a group, over its await
* `Round`, `Rounds`: a round of the loop, and the rounds of some groups
* `ConsumesCandidateGroups`: the function returns

## Main results

* `lookup_groupCandidates`: the group of an identity has all candidates of that identity
* `prepareGroup_eq_ok`, `settleGroup_eq_ok`: what the two loops over a group do, member by member
* `round_spec`: what a round does
-/

namespace AgentSig.Profiles

open Commons Core StructuredFields

/-! ## The groups -/

variable {scope : Text} {groups groups' : ReplayGroups} {outcomes outcomes' : ReplayOutcomes}
  {members group ready : List Positioned} {now : ℤ} {position : ℕ} {identity : ReplayIdentity}

/-- The candidates of an identity. -/
def ofIdentity (scope : Text) (identity : ReplayIdentity) (members : List Positioned) :
    List Positioned :=
  members.filter fun m => replayIdentity scope m.2 = some identity

theorem lookup_joinGroup (m : Positioned) (k : ReplayIdentity) :
    OrderedMap.lookup (joinGroup groups k m) identity =
      if k = identity then some ((OrderedMap.lookup groups k).getD [] ++ [m])
      else OrderedMap.lookup groups identity :=
  OrderedMap.lookup_set _ _ _ _

/-- The groups after more candidates: each has gained the candidates of its identity. -/
theorem groupCandidates_groups {rest : List Positioned}
    (h : groupCandidates scope groups outcomes rest = (groups', outcomes'))
    (hkeys : (groups.map (·.1)).Nodup) :
    (groups'.map (·.1)).Nodup ∧ ∀ identity,
      OrderedMap.lookup groups' identity =
        if ofIdentity scope identity rest = [] then OrderedMap.lookup groups identity
        else some ((OrderedMap.lookup groups identity).getD [] ++ ofIdentity scope identity rest) := by
  induction rest generalizing groups outcomes with
  | nil =>
    obtain ⟨rfl, rfl⟩ := Prod.mk.inj h
    exact ⟨hkeys, fun identity => by simp [ofIdentity]⟩
  | cons m rest ih =>
    unfold groupCandidates at h
    split at h
    · rename_i hnone
      obtain ⟨hnodup, hlookup⟩ := ih h hkeys
      refine ⟨hnodup, fun identity => ?_⟩
      rw [hlookup, ofIdentity, ofIdentity, List.filter_cons_of_neg (by simp [hnone])]
    · rename_i k hk
      obtain ⟨hnodup, hlookup⟩ := ih h (OrderedMap.nodup_keys_set hkeys _ _)
      refine ⟨hnodup, fun identity => ?_⟩
      rw [hlookup, lookup_joinGroup]
      by_cases heq : k = identity
      · subst heq
        have hcons : ofIdentity scope k (m :: rest) = m :: ofIdentity scope k rest := by
          rw [ofIdentity, List.filter_cons_of_pos (by simp [hk]), ← ofIdentity]
        rw [hcons, if_pos rfl, if_neg (List.cons_ne_nil _ _)]
        split
        · rename_i hnil
          rw [hnil]
        · simp
      · have hcons : ofIdentity scope identity (m :: rest) = ofIdentity scope identity rest := by
          rw [ofIdentity, List.filter_cons_of_neg (by simp [hk, heq]), ← ofIdentity]
        rw [hcons, if_neg heq]

/-- The outcomes after more candidates: those without a nonce are optional. -/
theorem groupCandidates_outcomes {rest : List Positioned}
    (h : groupCandidates scope groups outcomes rest = (groups', outcomes')) (position : ℕ) :
    OrderedMap.lookup outcomes' position =
      if rest.any fun m => m.1 = position ∧ replayIdentity scope m.2 = none then some .optional
      else OrderedMap.lookup outcomes position := by
  induction rest generalizing groups outcomes with
  | nil =>
    obtain ⟨rfl, rfl⟩ := Prod.mk.inj h
    rfl
  | cons m rest ih =>
    unfold groupCandidates at h
    rw [List.any_cons]
    split at h
    · rename_i hnone
      rw [ih h, OrderedMap.lookup_set]
      by_cases hm : m.1 = position
      · rw [decide_eq_true (show m.1 = position ∧ _ from ⟨hm, hnone⟩), if_pos hm]
        simp
      · rw [decide_eq_false (fun h => hm h.1), Bool.false_or, if_neg hm]
    · rename_i k hk
      rw [ih h, decide_eq_false (fun h => by simp [hk] at h), Bool.false_or]

/-- The group of an identity has all candidates of that identity, in order. -/
theorem lookup_groupCandidates (scope : Text) (members : List Positioned)
    (identity : ReplayIdentity) :
    OrderedMap.lookup (groupCandidates scope [] [] members).1 identity =
      if ofIdentity scope identity members = [] then none
      else some (ofIdentity scope identity members) := by
  have hgrouped : groupCandidates scope [] [] members = _ := rfl
  simpa [OrderedMap.lookup] using (groupCandidates_groups hgrouped List.nodup_nil).2 identity

/-! ## The loop before the dispatch -/

/-- Positions stand for candidates: one position is one candidate. -/
def Identified (members : List Positioned) : Prop :=
  ∀ m ∈ members, ∀ m' ∈ members, m.1 = m'.1 → m = m'

theorem Identified.filter (h : Identified members) (p : Positioned → Bool) :
    Identified (members.filter p) :=
  fun m hm m' hm' => h m (List.mem_of_mem_filter hm) m' (List.mem_of_mem_filter hm')

theorem checkWindow_error {policy : TimePolicy} {start stop : ℤ} {e : ProfileError}
    (h : policy.checkWindow start stop now = .error e) : ∃ rejection, e.rejection? = some rejection := by
  simp only [TimePolicy.checkWindow, bind_eq_error, require_eq_error] at h
  rcases h with ⟨-, rfl⟩ | ⟨_, -, ⟨-, rfl⟩ | ⟨_, -, ⟨-, rfl⟩ | ⟨_, -, ⟨-, rfl⟩ | ⟨_, -, -, rfl⟩⟩⟩⟩
  all_goals exact ⟨_, rfl⟩

/-- A time check fails with a rejection. -/
theorem check_error {policy : TimePolicy} {created expires : Number} {e : ProfileError}
    (h : policy.check created expires now = .error e) : ∃ rejection, e.rejection? = some rejection := by
  simp only [TimePolicy.check, bind_eq_error, require_eq_error] at h
  rcases h with ⟨-, rfl⟩ | ⟨_, -, h⟩
  · exact ⟨_, rfl⟩
  · split at h
    · exact checkWindow_error h
    · obtain rfl := Except.error.inj h
      exact ⟨_, rfl⟩

/-- A member that is not ready fails with a rejection. -/
theorem memberDeadline_error {candidate : EligibleCandidate} {e : ProfileError}
    (h : memberDeadline candidate now = .error e) : ∃ rejection, e.rejection? = some rejection := by
  simp only [memberDeadline, bind_eq_error] at h
  rcases h with h | ⟨_, -, h⟩
  · exact check_error h
  · simp only [TimePolicy.retainUntil, bind_eq_error, require_eq_error] at h
    rcases h with ⟨-, rfl⟩ | ⟨_, -, h⟩
    · exact ⟨_, rfl⟩
    · split at h
      · simp only [bind_eq_error, require_eq_error] at h
        rcases h with ⟨-, rfl⟩ | ⟨_, -, h⟩
        · exact ⟨_, rfl⟩
        · exact absurd h (by simp [pure, Except.pure])
      · obtain rfl := Except.error.inj h
        exact ⟨_, rfl⟩

/-- The deadline of a member is positive. -/
theorem memberDeadline_pos {candidate : EligibleCandidate} {deadline : ℤ}
    (h : memberDeadline candidate now = .ok deadline) : 0 < deadline := by
  obtain ⟨haccepts, own, -, hown⟩ := memberDeadline_eq_ok h
  obtain ⟨_, -, hretain⟩ := bind_eq_ok.mp h
  have hlt := (TimePolicy.retainUntil_bounds hretain).1
  have hsecond := (isSecond_iff.mp haccepts.second).1
  omega

/-- A member is ready at a second: it is in its window, and has a deadline. -/
def isReady (now : ℤ) (m : Positioned) : Bool := (memberDeadline m.2 now).isOk

theorem isReady_of_ok {m : Positioned} {deadline : ℤ} (h : memberDeadline m.2 now = .ok deadline) :
    isReady now m := by
  rw [isReady, h]
  rfl

theorem not_isReady_of_error {m : Positioned} {e : ProfileError}
    (h : memberDeadline m.2 now = .error e) : ¬ isReady now m := by
  rw [isReady, h]
  exact Bool.false_ne_true

/-- What the loop over a group leaves at a second. -/
structure PreparedGroup (now : ℤ) (outcomes : ReplayOutcomes) (group : List Positioned)
    (p : Preparation) : Prop where
  /-- The ready members, in order. -/
  ready : p.ready = group.filter (isReady now)
  empty : p.ready = [] → p.retainUntil = 0
  /-- The retention is the latest deadline of a ready member. -/
  retained : ∀ m ∈ p.ready, ∀ deadline, memberDeadline m.2 now = .ok deadline →
    deadline ≤ p.retainUntil
  attained : p.ready ≠ [] → ∃ m ∈ p.ready, memberDeadline m.2 now = .ok p.retainUntil
  failed : p.ready = [] → group ≠ [] → ∃ e, p.lastFailure = some e ∧ e.rejection?.isSome
  /-- A member that fails has its own rejection, and no other outcome changes. -/
  rejected : ∀ m ∈ group, ∀ e rejection, memberDeadline m.2 now = .error e →
    e.rejection? = some rejection → OrderedMap.lookup p.outcomes m.1 = some (.rejected rejection)
  unchanged : ∀ position, (∀ m ∈ group, m.1 = position → isReady now m) →
    OrderedMap.lookup p.outcomes position = OrderedMap.lookup outcomes position

theorem preparedGroup_ready {p : Preparation} {m : Positioned} {deadline : ℤ}
    (hp : PreparedGroup now outcomes group p) (hm : memberDeadline m.2 now = .ok deadline) :
    PreparedGroup now outcomes (group ++ [m])
      { p with retainUntil := max p.retainUntil deadline, ready := p.ready ++ [m] } := by
  have hok := isReady_of_ok hm
  refine ⟨?_, by simp, ?_, fun _ => ?_, by simp, ?_, ?_⟩
  · rw [hp.ready, List.filter_append, List.filter_cons_of_pos hok, List.filter_nil]
  · intro m' hm' deadline' hdeadline'
    rcases List.mem_append.mp hm' with hm' | hm'
    · exact (hp.retained m' hm' deadline' hdeadline').trans (le_max_left _ _)
    · obtain rfl := List.mem_singleton.mp hm'
      obtain rfl := Except.ok.inj (hm.symm.trans hdeadline')
      exact le_max_right _ _
  · -- The later of two deadlines is one of them; with nobody ready before, it is the new one.
    by_cases hle : p.retainUntil ≤ deadline
    · exact ⟨m, by simp, by rw [max_eq_right hle]; exact hm⟩
    · by_cases hempty : p.ready = []
      · have hpos := memberDeadline_pos hm
        rw [hp.empty hempty] at hle
        omega
      · obtain ⟨m', hm', hdeadline'⟩ := hp.attained hempty
        exact ⟨m', by simp [hm'], by rw [max_eq_left (by omega)]; exact hdeadline'⟩
  · intro m' hm' e rejection he hrejection
    rcases List.mem_append.mp hm' with hm' | hm'
    · exact hp.rejected m' hm' e rejection he hrejection
    · obtain rfl := List.mem_singleton.mp hm'
      rw [hm] at he
      simp at he
  · intro position hposition
    exact hp.unchanged position fun m' hm' => hposition m' (List.mem_append_left _ hm')

theorem preparedGroup_failed {p : Preparation} {m : Positioned} {e : ProfileError}
    {rejection : ProfileRejection} (hidentified : Identified (group ++ [m]))
    (hp : PreparedGroup now outcomes group p) (hm : memberDeadline m.2 now = .error e)
    (hrejection : e.rejection? = some rejection) :
    PreparedGroup now outcomes (group ++ [m])
      { p with outcomes := OrderedMap.set p.outcomes m.1 (.rejected rejection),
               lastFailure := some e } := by
  have hok := not_isReady_of_error hm
  refine ⟨?_, hp.empty, hp.retained, hp.attained, fun _ _ => ⟨e, rfl, by simp [hrejection]⟩, ?_, ?_⟩
  · rw [hp.ready, List.filter_append, List.filter_cons_of_neg hok, List.filter_nil, List.append_nil]
  · intro m' hm' e' rejection' he' hrejection'
    rw [OrderedMap.lookup_set]
    split
    · rename_i hposition
      obtain rfl := hidentified m (by simp) m' hm' hposition
      obtain rfl := Except.error.inj (hm.symm.trans he')
      rw [Option.some.inj (hrejection.symm.trans hrejection')]
    · rename_i hposition
      rcases List.mem_append.mp hm' with hm' | hm'
      · exact hp.rejected m' hm' e' rejection' he' hrejection'
      · exact absurd (by rw [List.mem_singleton.mp hm']) hposition
  · intro position hposition
    have hne : m.1 ≠ position := fun heq => hok (hposition m (by simp) heq)
    rw [OrderedMap.lookup_set, if_neg hne]
    exact hp.unchanged position fun m' hm' => hposition m' (List.mem_append_left _ hm')

/-- The loop over a group always ends, member by member. -/
theorem prepareGroup_eq_ok (now : ℤ) (outcomes : ReplayOutcomes) {group : List Positioned}
    (hidentified : Identified group) :
    ∃ p, prepareGroup now outcomes group = .ok p ∧ PreparedGroup now outcomes group p := by
  induction group using List.reverseRecOn with
  | nil =>
    exact ⟨_, rfl, rfl, fun _ => rfl, by simp, by simp, by simp, by simp, fun _ _ => rfl⟩
  | append_singleton group m ih =>
    obtain ⟨p, hprepared, hp⟩ := ih fun m' hm' m'' hm'' =>
      hidentified m' (List.mem_append_left _ hm') m'' (List.mem_append_left _ hm'')
    have hstep : prepareGroup now outcomes (group ++ [m]) = prepareMember now p m := by
      rw [prepareGroup] at hprepared ⊢
      rw [List.foldlM_append, hprepared, ok_bind, List.foldlM_cons]
      cases prepareMember now p m <;> rfl
    rw [hstep, prepareMember]
    cases hm : memberDeadline m.2 now with
    | ok deadline => exact ⟨_, rfl, preparedGroup_ready hp hm⟩
    | error e =>
      obtain ⟨rejection, hrejection⟩ := memberDeadline_error hm
      simp only [hrejection]
      exact ⟨_, rfl, preparedGroup_failed hidentified hp hm hrejection⟩

/-! ## The loop after the answer -/

/-- The time check of a member. -/
abbrev checkAt (now : ℤ) (m : Positioned) : Except ProfileError Unit :=
  m.2.time.check m.2.metadata.created m.2.metadata.expires now

/-- What the loop over the ready members leaves at a second, for an outcome of the store. -/
structure SettledGroup (outcome : StoreOutcome) (now : ℤ) (outcomes : ReplayOutcomes)
    (ready : List Positioned) (outcomes' : ReplayOutcomes) : Prop where
  settled : ∀ m ∈ ready, ∀ u, checkAt now m = .ok u →
    OrderedMap.lookup outcomes' m.1 = some (replayOutcome outcome)
  rejected : ∀ m ∈ ready, ∀ e rejection, checkAt now m = .error e →
    e.rejection? = some rejection → OrderedMap.lookup outcomes' m.1 = some (.rejected rejection)
  unchanged : ∀ position, (∀ m ∈ ready, m.1 ≠ position) →
    OrderedMap.lookup outcomes' position = OrderedMap.lookup outcomes position

theorem settledGroup_set {outcome : StoreOutcome} {m : Positioned} {own : CandidateReplayOutcome}
    (hidentified : Identified (ready ++ [m])) (h : SettledGroup outcome now outcomes ready outcomes')
    (hok : ∀ u, checkAt now m = .ok u → own = replayOutcome outcome)
    (herror : ∀ e rejection, checkAt now m = .error e → e.rejection? = some rejection →
      own = .rejected rejection) :
    SettledGroup outcome now outcomes (ready ++ [m]) (OrderedMap.set outcomes' m.1 own) := by
  -- Whatever holds of the earlier members and of `m` holds of all, as a position is one candidate.
  have hlookup {m' : Positioned} {other : CandidateReplayOutcome} (hm' : m' ∈ ready ++ [m])
      (hown : m' = m → own = other) (hearlier : m' ∈ ready →
        OrderedMap.lookup outcomes' m'.1 = some other) :
      OrderedMap.lookup (OrderedMap.set outcomes' m.1 own) m'.1 = some other := by
    rw [OrderedMap.lookup_set]
    split
    · rename_i hposition
      rw [hown (hidentified m' hm' m (by simp) hposition.symm)]
    · rename_i hposition
      rcases List.mem_append.mp hm' with hm' | hm'
      · exact hearlier hm'
      · exact absurd (by rw [List.mem_singleton.mp hm']) hposition
  refine ⟨?_, ?_, ?_⟩
  · intro m' hm' u hu
    refine hlookup hm' ?_ fun hready => h.settled m' hready u hu
    rintro rfl
    exact hok u hu
  · intro m' hm' e rejection he hrejection
    refine hlookup hm' ?_ fun hready => h.rejected m' hready e rejection he hrejection
    rintro rfl
    exact herror e rejection he hrejection
  · intro position hposition
    rw [OrderedMap.lookup_set, if_neg (hposition m (by simp))]
    exact h.unchanged position fun m' hm' => hposition m' (List.mem_append_left _ hm')

/-- The loop over the ready members always ends, member by member. -/
theorem settleGroup_eq_ok (outcome : StoreOutcome) (now : ℤ) (outcomes : ReplayOutcomes)
    {ready : List Positioned} (hidentified : Identified ready) :
    ∃ outcomes', settleGroup outcome now outcomes ready = .ok outcomes' ∧
      SettledGroup outcome now outcomes ready outcomes' := by
  induction ready using List.reverseRecOn with
  | nil => exact ⟨outcomes, rfl, by simp, by simp, fun _ _ => rfl⟩
  | append_singleton ready m ih =>
    obtain ⟨outcomes', hsettled, h⟩ := ih fun m' hm' m'' hm'' =>
      hidentified m' (List.mem_append_left _ hm') m'' (List.mem_append_left _ hm'')
    have hstep : settleGroup outcome now outcomes (ready ++ [m]) =
        settleMember outcome now outcomes' m := by
      rw [settleGroup] at hsettled ⊢
      rw [List.foldlM_append, hsettled, ok_bind, List.foldlM_cons]
      cases settleMember outcome now outcomes' m <;> rfl
    rw [hstep, settleMember]
    cases hm : m.2.time.check m.2.metadata.created m.2.metadata.expires now with
    | ok u =>
      refine ⟨_, rfl, settledGroup_set hidentified h (fun _ _ => rfl) ?_⟩
      intro e rejection he
      exact absurd (hm.symm.trans he) (by simp)
    | error e =>
      obtain ⟨rejection, hrejection⟩ := check_error hm
      simp only [hrejection]
      refine ⟨_, rfl, settledGroup_set hidentified h ?_ ?_⟩
      · intro u hu
        exact absurd (hm.symm.trans hu) (by simp)
      · intro e' rejection' he' hrejection'
        obtain rfl := Except.error.inj (hm.symm.trans he')
        rw [Option.some.inj (hrejection.symm.trans hrejection')]

/-- A group that is rejected as a whole: whoever has an outcome keeps it. -/
theorem lookup_failGroup (rejection : ProfileRejection) (outcomes : ReplayOutcomes)
    (group : List Positioned) (position : ℕ) :
    OrderedMap.lookup (failGroup rejection outcomes group) position =
      (OrderedMap.lookup outcomes position).or
        (if group.any fun m => m.1 = position then some (.rejected rejection) else none) := by
  induction group generalizing outcomes with
  | nil => simp [failGroup]
  | cons m group ih =>
    rw [failGroup, List.foldl_cons, ← failGroup, ih, List.any_cons]
    split
    · rename_i hsome
      by_cases hm : m.1 = position
      · subst hm
        obtain ⟨own, hown⟩ := Option.isSome_iff_exists.mp hsome
        simp [hown]
      · rw [decide_eq_false hm, Bool.false_or]
    · rename_i hnone
      rw [OrderedMap.lookup_set]
      by_cases hm : m.1 = position
      · subst hm
        rw [Option.not_isSome_iff_eq_none] at hnone
        simp [hnone]
      · rw [decide_eq_false hm, Bool.false_or, if_neg hm]

/-! ## Rounds -/

/-- What is recorded of a round: the group, the time check before the dispatch, what the store was
asked, what `consume` of the controller returned, and the time check after that. -/
structure RoundRecord where
  identity : ReplayIdentity
  group : List Positioned
  sampled : Except ProfileError ℤ
  events : List Event
  result : Except ProfileError StoreOutcome
  resampled : Except ProfileError ℤ

section Rounds

variable {σ ω : Type} (A : Rounding) (store : ReplayStore σ ω) (config : EngineConfig) (i : ℕ)
  (call : Call)

/-- `consume` of the controller for a group, over its await if it has one. During the await, the
shared state may become any other. -/
inductive Consumes (loop : ReplayLoop) (group : List Positioned) :
    Except ProfileError ℤ → List Event → ReplayLoop → List Positioned →
      Except ProfileError StoreOutcome → Prop
  | atOnce {choice : ω} {sample retry : ClockSample} {s s' : Shared σ} {loop' : ReplayLoop}
      {ready : List Positioned} {result : Except ProfileError StoreOutcome} {events : List Event} :
      dispatchGroup A store config i call loop group choice sample retry s =
        ⟨s', .consumed call loop' group ready result, events⟩ →
      Consumes loop group (s.controller.currentTime A (some call.lease) sample).2 events loop' ready
        result
  | awaited {choice : ω} {sample retry sample' : ClockSample} {s s' s₁ s₂ : Shared σ}
      {loop' : ReplayLoop} {ready : List Positioned} {answer : StoreAnswer}
      {result : Except ProfileError StoreOutcome} {events : List Event} :
      dispatchGroup A store config i call loop group choice sample retry s =
        ⟨s', .consuming call loop' group ready answer, events⟩ →
      receiveAnswer A call loop' group ready answer sample' s₁ =
        ⟨s₂, .consumed call loop' group ready result, []⟩ →
      Consumes loop group (s.controller.currentTime A (some call.lease) sample).2 events loop' ready
        result

/-- A round of the loop that does not throw. -/
inductive Round (loop : ReplayLoop) (g : ReplayIdentity × List Positioned) :
    RoundRecord → ReplayOutcomes → Prop
  | settle {sampled : Except ProfileError ℤ} {events : List Event} {loop' loop'' : ReplayLoop}
      {ready : List Positioned} {result : Except ProfileError StoreOutcome} {sample : ClockSample}
      {s s' : Shared σ} :
      Consumes A store config i call loop g.2 sampled events loop' ready result →
      settleRound A config i call loop' g.2 ready result sample s = ⟨s', .replaying call loop'', []⟩ →
      Round loop g ⟨g.1, g.2, sampled, events, result,
        (s.controller.currentTime A (some call.lease) sample).2⟩ loop''.outcomes

/-- The rounds over some groups, one after the other. -/
inductive Rounds (evaluations : List CandidateEvaluation) :
    ReplayGroups → ReplayOutcomes → List RoundRecord → ReplayOutcomes → Prop
  | nil {outcomes : ReplayOutcomes} : Rounds evaluations [] outcomes [] outcomes
  | cons {g : ReplayIdentity × List Positioned} {groups : ReplayGroups}
      {outcomes outcomes₁ outcomes' : ReplayOutcomes} {record : RoundRecord}
      {records : List RoundRecord} :
      Round A store config i call ⟨evaluations, groups, outcomes⟩ g record outcomes₁ →
      Rounds evaluations groups outcomes₁ records outcomes' →
      Rounds evaluations (g :: groups) outcomes (record :: records) outcomes'

/-- `consumeCandidateGroups` returns the outcomes of some candidates. -/
def ConsumesCandidateGroups (members : List Positioned) (records : List RoundRecord)
    (outcomes : ReplayOutcomes) : Prop :=
  ∃ evaluations, Rounds A store config i call evaluations
    (groupCandidates config.scope [] [] members).1 (groupCandidates config.scope [] [] members).2
    records outcomes

variable {A store config i call} {loop loop' : ReplayLoop}

/-- The cases of a dispatch at a second: nobody is ready, or the store is asked. -/
inductive DispatchedAt (store : ReplayStore σ ω) (config : EngineConfig) (i : ℕ) (call : Call)
    (loop : ReplayLoop) (group : List Positioned) (now : ℤ) (p : Preparation) (t : Turn σ) : Prop
  | refused {e : ProfileError} : p.ready = [] →
      t.phase = .consumed call { loop with outcomes := p.outcomes } group [] (.error e) →
      t.events = [] → DispatchedAt store config i call loop group now p t
  | threw {input : ReplayConsumeInput} {result : Except ProfileError StoreOutcome} : p.ready ≠ [] →
      preparedInput config.scope now p = .ok input →
      t.phase = .consumed call { loop with outcomes := p.outcomes } group p.ready result →
      (∀ outcome, result = .ok outcome → outcome = .unavailable) →
      t.events = [.dispatched i call.lease input p.ready .threw] →
      DispatchedAt store config i call loop group now p t
  | asked {input : ReplayConsumeInput} {answer : StoreAnswer} : p.ready ≠ [] →
      preparedInput config.scope now p = .ok input →
      t.phase = .consuming call { loop with outcomes := p.outcomes } group p.ready answer →
      t.events = [.dispatched i call.lease input p.ready answer] →
      DispatchedAt store config i call loop group now p t

theorem preparedInput_error {p : Preparation} {e : ProfileError}
    (h : preparedInput scope now p = .error e) : p.ready = [] := by
  unfold preparedInput at h
  split at h
  · assumption
  · exact absurd h (by simp [pure, Except.pure])

theorem ready_ne_nil {p : Preparation} {input : ReplayConsumeInput}
    (h : preparedInput scope now p = .ok input) : p.ready ≠ [] := by
  intro hready
  simp [preparedInput, hready] at h

theorem askStore_dispatchedAt {p : Preparation} {input : ReplayConsumeInput} {choice : ω}
    {retry : ClockSample} {s : Shared σ} (hinput : preparedInput config.scope now p = .ok input) :
    DispatchedAt store config i call loop group now p
      (askStore A store i call { loop with outcomes := p.outcomes } group p.ready input choice retry
        s) := by
  unfold askStore
  simp only
  split
  · rename_i hthrew
    refine .threw (ready_ne_nil hinput) hinput rfl ?_ (by rw [hthrew])
    intro outcome houtcome
    obtain ⟨_, -, rfl⟩ := map_eq_ok.mp houtcome
    rfl
  · exact .asked (ready_ne_nil hinput) hinput rfl rfl

/-- What a dispatch does, when the time check before it succeeds. The guard after the preparation
passes again, as nothing has run in between. -/
theorem dispatchGroup_ok (store : ReplayStore σ ω) (config : EngineConfig) (i : ℕ) (choice : ω)
    {sample : ClockSample} (retry : ClockSample) {s : Shared σ} {p : Preparation}
    (hnow : (s.controller.currentTime A (some call.lease) sample).2 = .ok now)
    (hp : prepareGroup now loop.outcomes group = .ok p) :
    DispatchedAt store config i call loop group now p
      (dispatchGroup A store config i call loop group choice sample retry s) := by
  have hadmits : (s.controller.currentTime A (some call.lease) sample).1.admits
      (some call.lease) := by
    rw [(Controller.currentTime_sampled A s.controller _ sample).admits]
    exact (Controller.currentTime_ok hnow).1
  simp only [dispatchGroup, hnow, dispatchAt, hp]
  split
  · rename_i e he
    exact .refused (preparedInput_error he) rfl rfl
  · rename_i input hinput
    rw [if_pos (show (s.withController _).controller.admits _ from hadmits)]
    exact askStore_dispatchedAt hinput

/-- What a dispatch does, when the time check before it fails. -/
theorem dispatchGroup_error (store : ReplayStore σ ω) (config : EngineConfig) (i : ℕ)
    (loop : ReplayLoop) (group : List Positioned) (choice : ω) {sample : ClockSample}
    (retry : ClockSample) {s : Shared σ} {e : ProfileError}
    (he : (s.controller.currentTime A (some call.lease) sample).2 = .error e) :
    (dispatchGroup A store config i call loop group choice sample retry s).phase =
        .consumed call loop group [] (.error e) ∧
      (dispatchGroup A store config i call loop group choice sample retry s).events = [] := by
  simp only [dispatchGroup, he]
  exact ⟨rfl, rfl⟩

/-- How `consume` of the controller ends for a group. -/
inductive ConsumedGroup (config : EngineConfig) (i : ℕ) (call : Call) (loop : ReplayLoop)
    (group : List Positioned) : Except ProfileError ℤ → List Event → ReplayLoop →
      List Positioned → Except ProfileError StoreOutcome → Prop
  /-- No time is read. -/
  | unread {e : ProfileError} : ConsumedGroup config i call loop group (.error e) [] loop [] (.error e)
  /-- Nobody is ready. -/
  | refused {now : ℤ} {p : Preparation} {e : ProfileError} :
      prepareGroup now loop.outcomes group = .ok p → p.ready = [] →
      ConsumedGroup config i call loop group (.ok now) [] { loop with outcomes := p.outcomes } []
        (.error e)
  /-- The store is asked for the ready members. -/
  | asked {now : ℤ} {p : Preparation} {input : ReplayConsumeInput} {answer : StoreAnswer}
      {result : Except ProfileError StoreOutcome} :
      prepareGroup now loop.outcomes group = .ok p → p.ready ≠ [] →
      preparedInput config.scope now p = .ok input →
      (∀ outcome, result = .ok outcome → outcome = answer.storeOutcome) →
      ConsumedGroup config i call loop group (.ok now)
        [.dispatched i call.lease input p.ready answer] { loop with outcomes := p.outcomes } p.ready
        result

/-- `consume` of the controller, over its await. -/
theorem Consumes.consumedGroup {sampled : Except ProfileError ℤ} {events : List Event}
    {result : Except ProfileError StoreOutcome} (hidentified : Identified group)
    (h : Consumes A store config i call loop group sampled events loop' ready result) :
    ConsumedGroup config i call loop group sampled events loop' ready result := by
  cases h with
  | @atOnce choice sample retry s s' loop' ready result events hturn =>
    cases htime : (s.controller.currentTime A (some call.lease) sample).2 with
    | error e =>
      obtain ⟨hphase, hevents⟩ := dispatchGroup_error store config i loop group choice retry htime
      rw [hturn] at hphase hevents
      simp only [Phase.consumed.injEq, true_and] at hphase
      obtain ⟨rfl, rfl, rfl⟩ := hphase
      obtain rfl : events = [] := hevents
      exact .unread
    | ok now =>
      obtain ⟨p, hp, -⟩ := prepareGroup_eq_ok now loop.outcomes hidentified
      have hcases := dispatchGroup_ok store config i choice retry htime hp
      rw [hturn] at hcases
      cases hcases with
      | refused hready hphase hevents =>
        simp only [Phase.consumed.injEq, true_and] at hphase
        obtain ⟨rfl, rfl, rfl⟩ := hphase
        obtain rfl : events = [] := hevents
        exact .refused hp hready
      | threw hready hinput hphase hresult hevents =>
        simp only [Phase.consumed.injEq, true_and] at hphase
        obtain ⟨rfl, rfl, rfl⟩ := hphase
        obtain rfl : events = _ := hevents
        exact .asked hp hready hinput hresult
      | asked _ _ hphase _ => simp at hphase
  | @awaited choice sample retry sample' s s' s₁ s₂ loop' ready answer result events hturn hanswer =>
    cases htime : (s.controller.currentTime A (some call.lease) sample).2 with
    | error e =>
      have hphase := (dispatchGroup_error store config i loop group choice retry htime).1
      rw [hturn] at hphase
      simp at hphase
    | ok now =>
      obtain ⟨p, hp, -⟩ := prepareGroup_eq_ok now loop.outcomes hidentified
      have hcases := dispatchGroup_ok store config i choice retry htime hp
      rw [hturn] at hcases
      cases hcases with
      | refused _ hphase _ => simp at hphase
      | threw _ _ hphase _ _ => simp at hphase
      | asked hready hinput hphase hevents =>
        simp only [Phase.consuming.injEq, true_and] at hphase
        obtain ⟨rfl, rfl, rfl⟩ := hphase
        obtain rfl : events = _ := hevents
        refine .asked hp hready hinput fun outcome houtcome => ?_
        have hresult := congrArg Turn.phase hanswer
        simp only [receiveAnswer, Phase.consumed.injEq, true_and] at hresult
        rw [houtcome] at hresult
        obtain ⟨_, -, rfl⟩ := map_eq_ok.mp hresult
        rfl

/-- The store is asked in a round: for the members that are ready, with the latest of their
deadlines. -/
structure AskedOf (r : RoundRecord) (now : ℤ) (input : ReplayConsumeInput) : Prop where
  sampled : r.sampled = .ok now
  somebody : ∃ m ∈ r.group, isReady now m
  identity : input.identity = r.identity
  second : input.nowEpochSeconds = now
  retained : ∀ m ∈ r.group, ∀ deadline, memberDeadline m.2 now = .ok deadline →
    deadline ≤ input.retainUntilEpochSeconds
  attained : ∃ m ∈ r.group, memberDeadline m.2 now = .ok input.retainUntilEpochSeconds

/-- A member is accepted in a round: it is ready before the dispatch and in its window after the
answer, and the store has accepted. -/
structure AcceptedIn (r : RoundRecord) (m : Positioned) : Prop where
  ready : ∃ now, r.sampled = .ok now ∧ isReady now m
  result : r.result = .ok .accepted
  settled : ∃ later u, r.resampled = .ok later ∧ checkAt later m = .ok u

/-- What a round leaves its members. -/
structure RoundSettled (i : ℕ) (call : Call) (r : RoundRecord) (outcomes' : ReplayOutcomes) :
    Prop where
  complete : ∀ m ∈ r.group, (OrderedMap.lookup outcomes' m.1).isSome
  /-- The store is asked once, or nobody is ready. -/
  asked : (r.events = [] ∧ ∀ now, r.sampled = .ok now → ∀ m ∈ r.group, ¬ isReady now m) ∨
    ∃ now input answer, AskedOf r now input ∧
      r.events = [.dispatched i call.lease input (r.group.filter (isReady now)) answer] ∧
      ∀ outcome, r.result = .ok outcome → outcome = answer.storeOutcome
  accepted : ∀ m ∈ r.group, OrderedMap.lookup outcomes' m.1 = some .accepted → AcceptedIn r m
  /-- A member that fails before the dispatch has its own rejection. -/
  unready : ∀ now, r.sampled = .ok now → ∀ m ∈ r.group, ∀ e rejection,
    memberDeadline m.2 now = .error e → e.rejection? = some rejection →
      OrderedMap.lookup outcomes' m.1 = some (.rejected rejection)
  /-- A ready member that fails after the answer has its own rejection. -/
  expired : ∀ now later outcome, r.sampled = .ok now → r.resampled = .ok later →
    r.result = .ok outcome → ∀ m ∈ r.group, isReady now m → ∀ e rejection,
      checkAt later m = .error e → e.rejection? = some rejection →
        OrderedMap.lookup outcomes' m.1 = some (.rejected rejection)

/-- What a round does. -/
structure RoundOf (i : ℕ) (call : Call) (outcomes : ReplayOutcomes) (r : RoundRecord)
    (outcomes' : ReplayOutcomes) : Prop where
  unchanged : ∀ position, (∀ m ∈ r.group, m.1 ≠ position) →
    OrderedMap.lookup outcomes' position = OrderedMap.lookup outcomes position
  settled : RoundSettled i call r outcomes'

/-- How the rest of a round ends that does not throw: the group is rejected as a whole, or its ready
members are settled one by one. -/
theorem settleRound_replaying {result : Except ProfileError StoreOutcome} {sample : ClockSample}
    {s s' : Shared σ} (hidentified : Identified ready)
    (h : settleRound A config i call loop group ready result sample s = ⟨s', .replaying call loop', []⟩) :
    (∃ rejection, loop'.outcomes = failGroup rejection loop.outcomes group ∧
      ∀ outcome later, result = .ok outcome →
        (s.controller.currentTime A (some call.lease) sample).2 ≠ .ok later) ∨
    ∃ outcome later, result = .ok outcome ∧
      (s.controller.currentTime A (some call.lease) sample).2 = .ok later ∧
      SettledGroup outcome later loop.outcomes ready loop'.outcomes := by
  have hreject {e : ProfileError} {s : Shared σ}
      (h : rejectGroup config i call loop group e s = ⟨s', .replaying call loop', []⟩) :
      ∃ rejection, loop'.outcomes = failGroup rejection loop.outcomes group := by
    unfold rejectGroup at h
    split at h
    · rename_i rejection _
      simp only [Turn.mk.injEq, Phase.replaying.injEq, true_and, and_true] at h
      exact ⟨rejection, by rw [← h.2]⟩
    · have hphase := congrArg Turn.phase h
      unfold endCall at hphase
      simp at hphase
  unfold settleRound at h
  cases result with
  | error e =>
    obtain ⟨rejection, hrejection⟩ := hreject h
    exact .inl ⟨rejection, hrejection, by simp⟩
  | ok outcome =>
    simp only at h
    cases htime : (s.controller.currentTime A (some call.lease) sample).2 with
    | error e =>
      rw [htime, error_bind] at h
      obtain ⟨rejection, hrejection⟩ := hreject h
      exact .inl ⟨rejection, hrejection, by simp⟩
    | ok later =>
      obtain ⟨outcomes', hsettled, hgroup⟩ :=
        settleGroup_eq_ok outcome later loop.outcomes hidentified
      simp only [htime, ok_bind, hsettled, Turn.mk.injEq, Phase.replaying.injEq, true_and,
        and_true] at h
      refine .inr ⟨outcome, later, rfl, rfl, ?_⟩
      rw [← h.2]
      exact hgroup

/-- A group that is rejected as a whole: every member has an outcome, of which nothing is known that
was not before. -/
theorem failGroup_spec (rejection : ProfileRejection) (outcomes : ReplayOutcomes)
    (group : List Positioned) :
    (∀ m ∈ group, (OrderedMap.lookup (failGroup rejection outcomes group) m.1).isSome) ∧
      (∀ position, (∀ m ∈ group, m.1 ≠ position) →
        OrderedMap.lookup (failGroup rejection outcomes group) position =
          OrderedMap.lookup outcomes position) ∧
      (∀ position own, OrderedMap.lookup outcomes position = some own →
        OrderedMap.lookup (failGroup rejection outcomes group) position = some own) ∧
      ∀ position, OrderedMap.lookup (failGroup rejection outcomes group) position = some .accepted →
        OrderedMap.lookup outcomes position = some .accepted := by
  refine ⟨?_, ?_, ?_, fun position => failGroup_accepted⟩
  · intro m hm
    have hany : group.any (fun m' => m'.1 = m.1) := List.any_eq_true.mpr ⟨m, hm, by simp⟩
    rw [lookup_failGroup, if_pos hany]
    cases OrderedMap.lookup outcomes m.1 <;> rfl
  · intro position hposition
    have hany : ¬ group.any (fun m' => m'.1 = position) := by
      rw [List.any_eq_true]
      rintro ⟨m, hm, heq⟩
      exact hposition m hm (of_decide_eq_true heq)
    rw [lookup_failGroup, if_neg hany, Option.or_none]
  · intro position own hown
    rw [lookup_failGroup, hown, Option.some_or]

/-- The outcomes of the members that failed before the dispatch survive the rest of the round. -/
theorem SettledGroup.unready {p : Preparation} {outcome : StoreOutcome} {later : ℤ}
    (hidentified : Identified group) (hp : PreparedGroup now outcomes group p)
    (h : SettledGroup outcome later p.outcomes p.ready outcomes') {m : Positioned} (hm : m ∈ group)
    (hready : ¬ isReady now m) :
    OrderedMap.lookup outcomes' m.1 = OrderedMap.lookup p.outcomes m.1 := by
  refine h.unchanged m.1 fun m' hm' heq => ?_
  rw [hp.ready] at hm'
  obtain rfl := hidentified m' (List.mem_of_mem_filter hm') m hm heq
  exact hready (List.of_mem_filter hm')

/-- A member that is not ready has its own rejection before the dispatch. -/
theorem PreparedGroup.own {p : Preparation} (hp : PreparedGroup now outcomes group p)
    {m : Positioned} (hm : m ∈ group) (hready : ¬ isReady now m) :
    ∃ rejection, OrderedMap.lookup p.outcomes m.1 = some (.rejected rejection) := by
  cases hdeadline : memberDeadline m.2 now with
  | ok deadline => exact absurd (isReady_of_ok hdeadline) hready
  | error e =>
    obtain ⟨rejection, hrejection⟩ := memberDeadline_error hdeadline
    exact ⟨rejection, hp.rejected m hm e rejection hdeadline hrejection⟩

/-- Nobody is accepted before the dispatch. -/
theorem PreparedGroup.not_accepted {p : Preparation} (hidentified : Identified group)
    (hp : PreparedGroup now outcomes group p)
    (hfresh : ∀ m ∈ group, OrderedMap.lookup outcomes m.1 = none) {m : Positioned} (hm : m ∈ group) :
    OrderedMap.lookup p.outcomes m.1 ≠ some .accepted := by
  by_cases hready : isReady now m
  · have hunchanged := hp.unchanged m.1 fun m' hm' heq => by
      rwa [hidentified m' hm' m hm heq]
    rw [hunchanged, hfresh m hm]
    simp
  · obtain ⟨rejection, hrejection⟩ := hp.own hm hready
    rw [hrejection]
    simp

/-- A round in which no time is read before the dispatch. -/
theorem roundOf_unread {identity : ReplayIdentity} {e : ProfileError} {resampled : Except ProfileError ℤ}
    {rejection : ProfileRejection}
    (hfresh : ∀ m ∈ group, OrderedMap.lookup outcomes m.1 = none) :
    RoundOf i call outcomes ⟨identity, group, .error e, [], .error e, resampled⟩
      (failGroup rejection outcomes group) := by
  obtain ⟨hcomplete, hunchanged, -, haccepted⟩ :=
    failGroup_spec rejection outcomes group
  refine ⟨hunchanged, hcomplete, .inl ⟨rfl, by simp⟩, ?_, by simp, by simp⟩
  intro m hm hlookup
  exact absurd (haccepted m.1 hlookup) (by simp [hfresh m hm])

/-- A round in which nobody is ready. -/
theorem roundOf_refused {identity : ReplayIdentity} {e : ProfileError} {p : Preparation}
    {resampled : Except ProfileError ℤ} {rejection : ProfileRejection}
    (hidentified : Identified group) (hp : PreparedGroup now outcomes group p)
    (hready : p.ready = []) (hfresh : ∀ m ∈ group, OrderedMap.lookup outcomes m.1 = none) :
    RoundOf i call outcomes ⟨identity, group, .ok now, [], .error e, resampled⟩
      (failGroup rejection p.outcomes group) := by
  obtain ⟨hcomplete, hunchanged, hkeeps, haccepted⟩ :=
    failGroup_spec rejection p.outcomes group
  have hnobody : ∀ m ∈ group, ¬ isReady now m := by
    rw [hp.ready] at hready
    exact List.filter_eq_nil_iff.mp hready
  refine ⟨?_, hcomplete, .inl ⟨rfl, ?_⟩, ?_, ?_, by simp⟩
  · intro position hposition
    rw [hunchanged position hposition]
    exact hp.unchanged position fun m hm heq => absurd heq (hposition m hm)
  · intro now' hnow'
    obtain rfl := Except.ok.inj hnow'
    exact hnobody
  · intro m hm hlookup
    exact absurd (haccepted m.1 hlookup) (hp.not_accepted hidentified hfresh hm)
  · intro now' hnow' m hm e' rejection' he' hrejection'
    obtain rfl := Except.ok.inj hnow'
    exact hkeeps m.1 _ (hp.rejected m hm e' rejection' he' hrejection')

/-- What the store is asked for a prepared group. -/
theorem askedOf_preparedInput {identity : ReplayIdentity} {p : Preparation}
    {input : ReplayConsumeInput} (events : List Event) (result : Except ProfileError StoreOutcome)
    (resampled : Except ProfileError ℤ) (hp : PreparedGroup now outcomes group p)
    (hready : p.ready ≠ []) (hinput : preparedInput scope now p = .ok input)
    (hidentity : ∀ m ∈ group, replayIdentity scope m.2 = some identity) :
    AskedOf ⟨identity, group, .ok now, events, result, resampled⟩ now input := by
  have hmem {m : Positioned} (hm : m ∈ p.ready) : m ∈ group ∧ isReady now m := by
    rw [hp.ready] at hm
    exact ⟨List.mem_of_mem_filter hm, List.of_mem_filter hm⟩
  obtain ⟨hinputIdentity, hnow, hretain⟩ :=
    preparedInput_spec (fun m hm => hidentity m (hmem hm).1) hinput
  obtain ⟨m, hm, hdeadline⟩ := hp.attained hready
  refine ⟨rfl, ⟨m, hmem hm⟩, hinputIdentity, hnow, ?_, m, (hmem hm).1, ?_⟩
  · intro m' hm' deadline hdeadline'
    rw [hretain]
    refine hp.retained m' ?_ deadline hdeadline'
    rw [hp.ready]
    exact List.mem_filter.mpr ⟨hm', isReady_of_ok hdeadline'⟩
  · rwa [hretain]

/-- **What a round does**, whatever happens to the shared state during its await. -/
theorem round_spec {evaluations : List CandidateEvaluation} {g : ReplayIdentity × List Positioned}
    {r : RoundRecord} (hidentified : Identified g.2)
    (hidentity : ∀ m ∈ g.2, replayIdentity config.scope m.2 = some g.1)
    (hfresh : ∀ m ∈ g.2, OrderedMap.lookup outcomes m.1 = none)
    (h : Round A store config i call ⟨evaluations, groups, outcomes⟩ g r outcomes') :
    RoundOf i call outcomes r outcomes' ∧ r.identity = g.1 ∧ r.group = g.2 := by
  cases h with
  | @settle sampled events loop' loop'' ready result sample s s' hconsumes hsettle =>
  refine ⟨?_, rfl, rfl⟩
  cases hconsumes.consumedGroup hidentified with
  | unread =>
    rcases settleRound_replaying (by simp [Identified]) hsettle with ⟨rejection, heq, -⟩ | hsettled
    · rw [heq]
      exact roundOf_unread hfresh
    · obtain ⟨outcome, later, hresult, -⟩ := hsettled
      simp at hresult
  | @refused now p e hprepared hready =>
    obtain ⟨p', hprepared', hp⟩ := prepareGroup_eq_ok now outcomes hidentified
    obtain rfl : p' = p := Except.ok.inj (hprepared'.symm.trans hprepared)
    rcases settleRound_replaying (by simp [Identified]) hsettle with ⟨rejection, heq, -⟩ | hsettled
    · rw [heq]
      exact roundOf_refused hidentified hp hready hfresh
    · obtain ⟨outcome, later, hresult, -⟩ := hsettled
      simp at hresult
  | @asked now p input answer _ hprepared hready hinput hresult =>
    obtain ⟨p', hprepared', hp⟩ := prepareGroup_eq_ok now outcomes hidentified
    obtain rfl : p' = p := Except.ok.inj (hprepared'.symm.trans hprepared)
    have hasked := askedOf_preparedInput
      [.dispatched i call.lease input (g.2.filter (isReady now)) answer] result
      (s.controller.currentTime A (some call.lease) sample).2 hp hready hinput hidentity
    have hreadyIdentified : Identified p'.ready := by
      rw [hp.ready]
      exact hidentified.filter _
    have hmem {m : Positioned} (hm : m ∈ g.2) (hready : isReady now m) : m ∈ p'.ready := by
      rw [hp.ready]
      exact List.mem_filter.mpr ⟨hm, hready⟩
    rw [hp.ready]
    rcases settleRound_replaying hreadyIdentified hsettle with ⟨rejection, heq, hfailed⟩ | hsettled
    · rw [heq]
      obtain ⟨hcomplete, hunchanged, hkeeps, haccepted⟩ :=
        failGroup_spec rejection p'.outcomes g.2
      refine ⟨?_, hcomplete, .inr ⟨now, input, answer, hasked, rfl, hresult⟩, ?_, ?_, ?_⟩
      · intro position hposition
        rw [hunchanged position hposition]
        exact hp.unchanged position fun m hm heq => absurd heq (hposition m hm)
      · intro m hm hlookup
        exact absurd (haccepted m.1 hlookup) (hp.not_accepted hidentified hfresh hm)
      · intro now' hnow' m hm e rejection' he hrejection'
        obtain rfl := Except.ok.inj hnow'
        exact hkeeps m.1 _ (hp.rejected m hm e rejection' he hrejection')
      · intro now' later outcome _ hlater houtcome
        exact absurd hlater (hfailed outcome later houtcome)
    · obtain ⟨outcome, later, houtcome, hlater, hgroup⟩ := hsettled
      refine ⟨?_, ?_, .inr ⟨now, input, answer, hasked, rfl, hresult⟩, ?_, ?_, ?_⟩
      · intro position hposition
        have hready : ∀ m ∈ p'.ready, m.1 ≠ position := by
          intro m hm
          rw [hp.ready] at hm
          exact hposition m (List.mem_of_mem_filter hm)
        rw [hgroup.unchanged position hready]
        exact hp.unchanged position fun m hm heq => absurd heq (hposition m hm)
      · intro m hm
        by_cases hready : isReady now m
        · cases hcheck : checkAt later m with
          | ok u => rw [hgroup.settled m (hmem hm hready) u hcheck]; rfl
          | error e =>
            obtain ⟨rejection, hrejection⟩ := check_error hcheck
            rw [hgroup.rejected m (hmem hm hready) e rejection hcheck hrejection]
            rfl
        · obtain ⟨rejection, hrejection⟩ := hp.own hm hready
          rw [hgroup.unready hidentified hp hm hready, hrejection]
          rfl
      · intro m hm haccepted
        by_cases hready : isReady now m
        · cases hcheck : checkAt later m with
          | ok u =>
            rw [hgroup.settled m (hmem hm hready) u hcheck, Option.some.injEq] at haccepted
            obtain rfl := replayOutcome_eq_accepted haccepted
            exact ⟨⟨now, rfl, hready⟩, houtcome, later, u, hlater, hcheck⟩
          | error e =>
            obtain ⟨rejection, hrejection⟩ := check_error hcheck
            rw [hgroup.rejected m (hmem hm hready) e rejection hcheck hrejection] at haccepted
            simp at haccepted
        · rw [hgroup.unready hidentified hp hm hready] at haccepted
          exact absurd haccepted (hp.not_accepted hidentified hfresh hm)
      · intro now' hnow' m hm e rejection he hrejection
        obtain rfl := Except.ok.inj hnow'
        rw [hgroup.unready hidentified hp hm (not_isReady_of_error he)]
        exact hp.rejected m hm e rejection he hrejection
      · intro now' later' outcome' hnow' hlater' _ m hm hready e rejection he hrejection
        obtain rfl := Except.ok.inj hnow'
        obtain rfl := Except.ok.inj (hlater.symm.trans hlater')
        exact hgroup.rejected m (hmem hm hready) e rejection he hrejection

/-! ## All rounds -/

/-- What a round leaves its members only depends on their outcomes. -/
theorem RoundSettled.congr {r : RoundRecord} {outcomes₁ : ReplayOutcomes}
    (h : RoundSettled i call r outcomes₁)
    (hsame : ∀ m ∈ r.group, OrderedMap.lookup outcomes' m.1 = OrderedMap.lookup outcomes₁ m.1) :
    RoundSettled i call r outcomes' where
  complete m hm := by
    rw [hsame m hm]
    exact h.complete m hm
  asked := h.asked
  accepted m hm haccepted := h.accepted m hm (by rwa [← hsame m hm])
  unready now hnow m hm e rejection he hrejection := by
    rw [hsame m hm]
    exact h.unready now hnow m hm e rejection he hrejection
  expired now later outcome hnow hlater houtcome m hm hready e rejection he hrejection := by
    rw [hsame m hm]
    exact h.expired now later outcome hnow hlater houtcome m hm hready e rejection he hrejection

/-- Groups of different identities have no position in common. -/
theorem GroupsOf.position_ne (hidentified : Identified members)
    (hgroups : GroupsOf scope members groups) {g g' : ReplayIdentity × List Positioned}
    (hg : g ∈ groups) (hg' : g' ∈ groups) (hne : g.1 ≠ g'.1) {m m' : Positioned} (hm : m ∈ g.2)
    (hm' : m' ∈ g'.2) : m.1 ≠ m'.1 := by
  intro heq
  obtain ⟨hidentity, hmem⟩ := hgroups g hg m hm
  obtain ⟨hidentity', hmem'⟩ := hgroups g' hg' m' hm'
  obtain rfl := hidentified m hmem m' hmem' heq
  exact hne (Option.some.inj (hidentity.symm.trans hidentity'))

/-- **What the rounds do**: there is one for each group, a later round does not touch the outcomes of
an earlier one, and no round touches those of candidates that are in no group. -/
theorem rounds_spec {evaluations : List CandidateEvaluation} {records : List RoundRecord}
    (hidentified : Identified members) (hgroups : GroupsOf config.scope members groups)
    (hkeys : (groups.map (·.1)).Nodup)
    (hfresh : ∀ g ∈ groups, ∀ m ∈ g.2, OrderedMap.lookup outcomes m.1 = none)
    (h : Rounds A store config i call evaluations groups outcomes records outcomes') :
    (records.map fun r => (r.identity, r.group)) = groups ∧
      (∀ position, (∀ g ∈ groups, ∀ m ∈ g.2, m.1 ≠ position) →
        OrderedMap.lookup outcomes' position = OrderedMap.lookup outcomes position) ∧
      ∀ r ∈ records, RoundSettled i call r outcomes' := by
  induction h with
  | nil => exact ⟨rfl, fun _ _ => rfl, by simp⟩
  | @cons g groups outcomes outcomes₁ outcomes' record records hround _ ih =>
    rw [List.map_cons, List.nodup_cons] at hkeys
    obtain ⟨hg, hgroupsRest⟩ : (∀ m ∈ g.2, replayIdentity config.scope m.2 = some g.1 ∧
        m ∈ members) ∧ GroupsOf config.scope members groups := List.forall_mem_cons.mp hgroups
    obtain ⟨hfreshHead, hfreshRest⟩ := List.forall_mem_cons.mp hfresh
    have hidentifiedHead : Identified g.2 := fun m hm m' hm' =>
      hidentified m (hg m hm).2 m' (hg m' hm').2
    obtain ⟨⟨hunchanged, hsettled⟩, hidentity, hgroup⟩ :=
      round_spec hidentifiedHead (fun m hm => (hg m hm).1) hfreshHead hround
    -- The positions of this group are none of a later group.
    have hapart : ∀ g' ∈ groups, ∀ m' ∈ g'.2, ∀ m ∈ g.2, m.1 ≠ m'.1 := by
      intro g' hg' m' hm' m hm
      refine hgroups.position_ne hidentified List.mem_cons_self (List.mem_cons_of_mem _ hg') ?_ hm hm'
      intro heq
      exact hkeys.1 (heq ▸ List.mem_map_of_mem hg')
    rw [hgroup] at hunchanged
    have hfreshNext : ∀ g' ∈ groups, ∀ m' ∈ g'.2, OrderedMap.lookup outcomes₁ m'.1 = none := by
      intro g' hg' m' hm'
      rw [hunchanged m'.1 (hapart g' hg' m' hm')]
      exact hfreshRest g' hg' m' hm'
    obtain ⟨hrecords, hkept, hlater⟩ := ih hgroupsRest hkeys.2 hfreshNext
    refine ⟨?_, ?_, ?_⟩
    · rw [List.map_cons, hrecords, hidentity, hgroup]
    · intro position hposition
      obtain ⟨hhead, hrest⟩ := List.forall_mem_cons.mp hposition
      rw [hkept position hrest, hunchanged position hhead]
    · intro r hr
      rcases List.mem_cons.mp hr with rfl | hr
      · refine hsettled.congr fun m hm => hkept m.1 ?_
        intro g' hg' m' hm' heq
        rw [hgroup] at hm
        exact hapart g' hg' m' hm' m hm heq.symm
      · exact hlater r hr

/-- The groups and the first outcomes of some candidates. -/
theorem groupCandidates_grouped (scope : Text) (hidentified : Identified members) :
    ((groupCandidates scope [] [] members).1.map (·.1)).Nodup ∧
      (∀ g ∈ (groupCandidates scope [] [] members).1,
        g.2 = ofIdentity scope g.1 members ∧ g.2 ≠ []) ∧
      (∀ g ∈ (groupCandidates scope [] [] members).1, ∀ m ∈ g.2,
        OrderedMap.lookup (groupCandidates scope [] [] members).2 m.1 = none) := by
  have hgrouped : groupCandidates scope [] [] members = _ := rfl
  have hnodup := (groupCandidates_groups hgrouped List.nodup_nil).1
  have hgroup : ∀ g ∈ (groupCandidates scope [] [] members).1,
      g.2 = ofIdentity scope g.1 members ∧ g.2 ≠ [] := by
    intro g hg
    have hlookup := OrderedMap.lookup_of_mem hnodup hg
    rw [lookup_groupCandidates] at hlookup
    split at hlookup
    · simp at hlookup
    · rename_i hne
      rw [← Option.some.inj hlookup]
      exact ⟨rfl, hne⟩
  refine ⟨hnodup, hgroup, ?_⟩
  intro g hg m hm
  rw [(hgroup g hg).1] at hm
  have hm' := List.of_mem_filter hm
  rw [groupCandidates_outcomes hgrouped, if_neg]
  · rfl
  · rw [List.any_eq_true]
    rintro ⟨m', hmem', hm''⟩
    obtain ⟨hposition, hnone⟩ := of_decide_eq_true hm''
    obtain rfl := hidentified m' hmem' m (List.mem_of_mem_filter hm) hposition
    rw [hnone] at hm'
    simp at hm'

end Rounds

end AgentSig.Profiles
