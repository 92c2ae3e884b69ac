import AgentSig.Profiles.AgentHeader
import AgentSig.Profiles.ReplayStore

/-!
# Replay groups

The eligible candidates of a request are grouped by what replay protection identifies, and each
group is consumed once. The record of a group is retained until the latest deadline of its members
that are acceptable when the store is asked.

## Main definitions

* `EligibleCandidate`, `CandidateEvaluation`: the evaluation of a candidate
* `groupCandidates`: the groups of the eligible candidates
* `prepareGroup`, `preparedInput`: what the store is asked for a group
* `settleGroup`, `failGroup`: the outcomes of a group

## Main results

* `groupCandidates_spec`: the members of a group have its identity
* `prepareGroup_spec`: the members that are ready are acceptable, and end before the deadline
* `settleGroup_accepted`, `failGroup_accepted`: who gets the outcome `accepted`
-/

namespace AgentSig.Profiles

open Commons Core StructuredFields

/-- An eligible candidate. -/
structure EligibleCandidate where
  label : Text
  profile : WebBotAuthProfile
  coveredComponents : List CoveredComponent
  metadata : CandidateMetadata
  thumbprint : Text
  claimedAgent : Text
  time : TimePolicy

/-- `RejectedCandidate`. -/
structure RejectedCandidate where
  rejection : ProfileRejection
  label : Text
  profile : Option WebBotAuthProfile
  deriving DecidableEq, Repr

/-- `CandidateEvaluation`. -/
inductive CandidateEvaluation
  | rejected (result : RejectedCandidate)
  | eligible (candidate : EligibleCandidate)

/-- An eligible candidate and its position, which stands for the identity of the object. -/
abbrev Positioned := ℕ × EligibleCandidate

/-- `CandidateReplayOutcome`. -/
inductive CandidateReplayOutcome
  | accepted
  | optional
  | rejected (rejection : ProfileRejection)
  deriving DecidableEq, Repr

/-- The outcomes of the candidates so far, by position. -/
abbrev ReplayOutcomes := List (ℕ × CandidateReplayOutcome)

/-- The outcome of a candidate whose group had an outcome; `storeRejection` unless accepted. -/
def replayOutcome : StoreOutcome → CandidateReplayOutcome
  | .accepted => .accepted
  | .replayed => .rejected (.invalid .replayDetected)
  | .unavailable => .rejected (.unverified .replayStoreUnavailable)
  | .perKeyQuotaExceeded => .rejected (.unverified .perKeyQuotaExceeded)

/-- What replay protection identifies a candidate by, if it has a nonce. -/
def replayIdentity (scope : Text) (candidate : EligibleCandidate) : Option ReplayIdentity :=
  candidate.metadata.nonce.map fun nonce => (scope, candidate.thumbprint, nonce)

/-- The groups by identity, in the order of their first members. -/
abbrev ReplayGroups := List (ReplayIdentity × List Positioned)

/-- A candidate joins the group of its identity. -/
def joinGroup (groups : ReplayGroups) (identity : ReplayIdentity) (member : Positioned) :
    ReplayGroups :=
  OrderedMap.set groups identity ((OrderedMap.lookup groups identity).getD [] ++ [member])

/-- The loop of `consumeCandidateGroups` that groups the candidates. -/
def groupCandidates (scope : Text) : ReplayGroups → ReplayOutcomes → List Positioned →
    ReplayGroups × ReplayOutcomes
  | groups, outcomes, [] => (groups, outcomes)
  | groups, outcomes, member :: rest =>
    match replayIdentity scope member.2 with
    | none => groupCandidates scope groups (OrderedMap.set outcomes member.1 .optional) rest
    | some identity => groupCandidates scope (joinGroup groups identity member) outcomes rest

/-- The check and the deadline of a member at a second. -/
def memberDeadline (candidate : EligibleCandidate) (now : ℤ) : Except ProfileError ℤ := do
  candidate.time.check candidate.metadata.created candidate.metadata.expires now
  candidate.time.retainUntil candidate.metadata.created now

/-- The state of the loop that prepares a group. -/
structure Preparation where
  retainUntil : ℤ
  ready : List Positioned
  outcomes : ReplayOutcomes
  lastFailure : Option ProfileError

/-- One member in the loop that prepares a group. -/
def prepareMember (now : ℤ) (p : Preparation) (member : Positioned) :
    Except ProfileError Preparation :=
  match memberDeadline member.2 now with
  | .ok deadline =>
    return { p with retainUntil := max p.retainUntil deadline, ready := p.ready ++ [member] }
  | .error e =>
    match e.rejection? with
    | some rejection => return { p with
        outcomes := OrderedMap.set p.outcomes member.1 (.rejected rejection)
        lastFailure := some e }
    | none => throw e

/-- The loop that prepares a group. -/
def prepareGroup (now : ℤ) (outcomes : ReplayOutcomes) (group : List Positioned) :
    Except ProfileError Preparation :=
  group.foldlM (prepareMember now) ⟨0, [], outcomes, none⟩

/-- What the store is asked for a prepared group. -/
def preparedInput (scope : Text) (now : ℤ) (p : Preparation) : Except ProfileError ReplayConsumeInput :=
  match p.ready with
  | [] => throw (p.lastFailure.getD (.internal "Empty internal replay group"))
  | first :: _ => return {
      scope
      keyThumbprint := first.2.thumbprint
      nonce := first.2.metadata.nonce.getD []
      nowEpochSeconds := now
      retainUntilEpochSeconds := p.retainUntil }

/-- The outcome of one member after the store has answered. -/
def settleMember (outcome : StoreOutcome) (now : ℤ) (outcomes : ReplayOutcomes)
    (member : Positioned) : Except ProfileError ReplayOutcomes :=
  match member.2.time.check member.2.metadata.created member.2.metadata.expires now with
  | .ok _ => return OrderedMap.set outcomes member.1 (replayOutcome outcome)
  | .error e =>
    match e.rejection? with
    | some rejection => return OrderedMap.set outcomes member.1 (.rejected rejection)
    | none => throw e

/-- The outcomes of a group after the store has answered. -/
def settleGroup (outcome : StoreOutcome) (now : ℤ) (outcomes : ReplayOutcomes)
    (ready : List Positioned) : Except ProfileError ReplayOutcomes :=
  ready.foldlM (settleMember outcome now) outcomes

/-- The outcomes of a group that was rejected as a whole. -/
def failGroup (rejection : ProfileRejection) (outcomes : ReplayOutcomes) (group : List Positioned) :
    ReplayOutcomes :=
  group.foldl (fun outcomes member =>
    if (OrderedMap.lookup outcomes member.1).isSome then outcomes
    else OrderedMap.set outcomes member.1 (.rejected rejection)) outcomes

/-! ## Groups -/

variable {scope : Text} {groups groups' : ReplayGroups} {outcomes outcomes' : ReplayOutcomes}
  {members group ready : List Positioned} {now : ℤ} {position : ℕ}

/-- Every member of a group has its identity and is one of the candidates `members`. -/
def GroupsOf (scope : Text) (members : List Positioned) (groups : ReplayGroups) : Prop :=
  ∀ g ∈ groups, ∀ m ∈ g.2, replayIdentity scope m.2 = some g.1 ∧ m ∈ members

theorem groupsOf_joinGroup {identity : ReplayIdentity} {m : Positioned}
    (h : GroupsOf scope members groups) (hm : replayIdentity scope m.2 = some identity)
    (hmem : m ∈ members) : GroupsOf scope members (joinGroup groups identity m) := by
  intro g hg m' hm'
  rcases OrderedMap.mem_set hg with hg | rfl
  · exact h g hg m' hm'
  · rcases List.mem_append.mp hm' with hm' | hm'
    · cases hlookup : OrderedMap.lookup groups identity with
      | none => simp [hlookup] at hm'
      | some old =>
        rw [hlookup] at hm'
        exact h _ (OrderedMap.mem_of_lookup hlookup) m' hm'
    · obtain rfl := List.mem_singleton.mp hm'
      exact ⟨hm, hmem⟩

/-- The members of a group have its identity, and no candidate is accepted yet. -/
theorem groupCandidates_spec (hgroups : GroupsOf scope members groups)
    (hoptional : ∀ position, OrderedMap.lookup outcomes position ≠ some .accepted)
    {rest : List Positioned} (hrest : ∀ m ∈ rest, m ∈ members)
    (h : groupCandidates scope groups outcomes rest = (groups', outcomes')) :
    GroupsOf scope members groups' ∧
      ∀ position, OrderedMap.lookup outcomes' position ≠ some .accepted := by
  induction rest generalizing groups outcomes with
  | nil =>
    obtain ⟨rfl, rfl⟩ := Prod.mk.inj h
    exact ⟨hgroups, hoptional⟩
  | cons m rest ih =>
    obtain ⟨hm, hrest⟩ := List.forall_mem_cons.mp hrest
    unfold groupCandidates at h
    split at h
    · refine ih hgroups (fun position => ?_) hrest h
      rw [OrderedMap.lookup_set]
      split
      · simp
      · exact hoptional position
    · rename_i identity hidentity
      exact ih (groupsOf_joinGroup hgroups hidentity hm) hoptional hrest h

/-- The groups of some candidates have their members' identities, and nobody is accepted yet. -/
theorem groupCandidates_nil_spec (scope : Text) (members : List Positioned) :
    GroupsOf scope members (groupCandidates scope [] [] members).1 ∧
      ∀ position, OrderedMap.lookup (groupCandidates scope [] [] members).2 position ≠
        some .accepted := by
  refine groupCandidates_spec ?_ ?_ (fun m hm => hm) rfl
  · intro g hg
    simp at hg
  · intro position
    simp [OrderedMap.lookup]

/-! ## Preparation -/

/-- A member is acceptable at a second, and its window ends before the deadline. -/
def ReadyUntil (now deadline : ℤ) (candidate : EligibleCandidate) : Prop :=
  candidate.time.Accepts candidate.metadata.created candidate.metadata.expires now ∧
    ∃ own ≤ deadline, candidate.time.retainUntil candidate.metadata.created now = .ok own

theorem ReadyUntil.mono {deadline deadline' : ℤ} {candidate : EligibleCandidate}
    (h : ReadyUntil now deadline candidate) (hle : deadline ≤ deadline') :
    ReadyUntil now deadline' candidate := by
  obtain ⟨haccepts, own, hown, hretain⟩ := h
  exact ⟨haccepts, own, hown.trans hle, hretain⟩

theorem memberDeadline_eq_ok {candidate : EligibleCandidate} {deadline : ℤ}
    (h : memberDeadline candidate now = .ok deadline) : ReadyUntil now deadline candidate := by
  obtain ⟨_, hcheck, hdeadline⟩ := bind_eq_ok.mp h
  exact ⟨TimePolicy.check_eq_ok.mp hcheck, deadline, le_rfl, hdeadline⟩

/-- A prepared group: who is ready is acceptable until the deadline, and nobody is accepted. -/
structure Prepared (now : ℤ) (outcomes : ReplayOutcomes) (group : List Positioned)
    (p : Preparation) : Prop where
  ready : ∀ m ∈ p.ready, ReadyUntil now p.retainUntil m.2
  mem : ∀ m ∈ p.ready, m ∈ group
  outcomes : ∀ position, OrderedMap.lookup p.outcomes position = some .accepted →
    OrderedMap.lookup outcomes position = some .accepted

theorem prepareMember_spec {p p' : Preparation} {m : Positioned} (hm : m ∈ group)
    (hp : Prepared now outcomes group p) (h : prepareMember now p m = .ok p') :
    Prepared now outcomes group p' := by
  unfold prepareMember at h
  split at h
  · rename_i deadline hdeadline
    obtain rfl := pure_eq_ok.mp h
    refine ⟨fun m' hm' => ?_, fun m' hm' => ?_, hp.outcomes⟩
    · rcases List.mem_append.mp hm' with hm' | hm'
      · exact (hp.ready m' hm').mono (le_max_left _ _)
      · obtain rfl := List.mem_singleton.mp hm'
        exact (memberDeadline_eq_ok hdeadline).mono (le_max_right _ _)
    · rcases List.mem_append.mp hm' with hm' | hm'
      · exact hp.mem m' hm'
      · rwa [List.mem_singleton.mp hm']
  · split at h
    · obtain rfl := pure_eq_ok.mp h
      refine ⟨hp.ready, hp.mem, fun position haccepted => hp.outcomes position ?_⟩
      simp only [OrderedMap.lookup_set] at haccepted
      split at haccepted
      · simp at haccepted
      · exact haccepted
    · simp at h

/-- A group is prepared member by member. -/
theorem prepareGroup_spec {p : Preparation} (h : prepareGroup now outcomes group = .ok p) :
    Prepared now outcomes group p := by
  refine foldlM_invariant (Prepared now outcomes group) ⟨by simp, by simp, fun _ h => h⟩ ?_ h
  exact fun hm hp h => prepareMember_spec hm hp h

/-- The retention of a group is a safe integer, and after the second of the preparation if somebody is
ready. -/
theorem prepareGroup_retainUntil {p : Preparation} (h : prepareGroup now outcomes group = .ok p) :
    p.retainUntil ≤ maxSafeInteger ∧ (p.ready ≠ [] → now < p.retainUntil) := by
  have hinit : (0 : ℤ) ≤ maxSafeInteger ∧ (([] : List Positioned) ≠ [] → now < 0) :=
    ⟨by decide, by simp⟩
  refine foldlM_invariant (I := fun p : Preparation => p.retainUntil ≤ maxSafeInteger ∧
    (p.ready ≠ [] → now < p.retainUntil)) hinit ?_ h
  intro p m p' _ hp h
  unfold prepareMember at h
  split at h
  · rename_i deadline hdeadline
    obtain rfl := pure_eq_ok.mp h
    obtain ⟨_, -, hretain⟩ := bind_eq_ok.mp hdeadline
    obtain ⟨hlt, hle⟩ := TimePolicy.retainUntil_bounds hretain
    exact ⟨max_le hp.1 hle, fun _ => hlt.trans_le (le_max_right _ _)⟩
  · split at h
    · obtain rfl := pure_eq_ok.mp h
      exact hp
    · simp at h

/-- The store is asked for the identity of the group, at the second of the preparation. -/
theorem preparedInput_spec {p : Preparation} {input : ReplayConsumeInput} {identity : ReplayIdentity}
    (hidentity : ∀ m ∈ p.ready, replayIdentity scope m.2 = some identity)
    (h : preparedInput scope now p = .ok input) :
    input.identity = identity ∧ input.nowEpochSeconds = now ∧
      input.retainUntilEpochSeconds = p.retainUntil := by
  unfold preparedInput at h
  split at h
  · simp at h
  · rename_i first rest hready
    obtain rfl := pure_eq_ok.mp h
    have hfirst := hidentity first (by simp [hready])
    obtain ⟨nonce, hnonce, rfl⟩ := Option.map_eq_some_iff.mp hfirst
    exact ⟨by simp [ReplayConsumeInput.identity, hnonce], rfl, rfl⟩

/-! ## Outcomes -/

/-- Whoever is accepted was accepted before, or is of `ready` while the store accepted. -/
def AcceptedFrom (outcome : StoreOutcome) (outcomes : ReplayOutcomes) (ready : List Positioned)
    (outcomes' : ReplayOutcomes) : Prop :=
  ∀ position, OrderedMap.lookup outcomes' position = some .accepted →
    OrderedMap.lookup outcomes position = some .accepted ∨
      (outcome = .accepted ∧ ∃ m ∈ ready, m.1 = position)

theorem replayOutcome_eq_accepted {outcome : StoreOutcome}
    (h : replayOutcome outcome = .accepted) : outcome = .accepted := by
  cases outcome <;> simp_all [replayOutcome]

theorem settleMember_spec {outcome : StoreOutcome} {outcomes₀ : ReplayOutcomes} {m : Positioned}
    (hm : m ∈ ready) (hfrom : AcceptedFrom outcome outcomes₀ ready outcomes)
    (h : settleMember outcome now outcomes m = .ok outcomes') :
    AcceptedFrom outcome outcomes₀ ready outcomes' := by
  intro position haccepted
  unfold settleMember at h
  split at h
  · obtain rfl := pure_eq_ok.mp h
    rw [OrderedMap.lookup_set] at haccepted
    split at haccepted
    · rename_i hposition
      exact .inr ⟨replayOutcome_eq_accepted (Option.some.inj haccepted), m, hm, hposition⟩
    · exact hfrom position haccepted
  · split at h
    · obtain rfl := pure_eq_ok.mp h
      rw [OrderedMap.lookup_set] at haccepted
      split at haccepted
      · simp at haccepted
      · exact hfrom position haccepted
    · simp at h

/-- Only members that were ready become accepted, and only where the store accepted. -/
theorem settleGroup_accepted {outcome : StoreOutcome}
    (h : settleGroup outcome now outcomes ready = .ok outcomes') :
    AcceptedFrom outcome outcomes ready outcomes' := by
  refine foldlM_invariant (AcceptedFrom outcome outcomes ready) (fun _ h => .inl h) ?_ h
  exact fun hm hfrom h => settleMember_spec hm hfrom h

/-- No member of a rejected group becomes accepted. -/
theorem failGroup_accepted {rejection : ProfileRejection}
    (h : OrderedMap.lookup (failGroup rejection outcomes group) position = some .accepted) :
    OrderedMap.lookup outcomes position = some .accepted := by
  induction group generalizing outcomes with
  | nil => exact h
  | cons m group ih =>
    rw [failGroup, List.foldl_cons, ← failGroup] at h
    have h := ih h
    split at h
    · exact h
    · rw [OrderedMap.lookup_set] at h
      split at h
      · simp at h
      · exact h

end AgentSig.Profiles
