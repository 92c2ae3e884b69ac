import AgentSig.Profiles.ControllerRuns
import Mathlib.Data.List.Chain

/-!
# The history of a controller

Three paths change the health of a controller and emit an event, and they share one flag, so the events
alternate. A reset counts the leases that it invalidates when it closes the epoch; leases that finish while it
awaits its cleanup no longer matter.

## Main definitions

* `Counted`: the counter of the leases in flight is right
* `healthFlags`, `closings`, `isReset`: what the history says of health and of resets
* `HistoryOf`: what the history says of the state

## Main results

* `Counted.begin`, `Counted.finish`: operations keep the counter
* `Reports.append`, `Reports.report`, `Followed.append`, `Followed.ended`: what some more records say
-/

namespace AgentSig.Profiles

open Commons Core StructuredFields

/-! ## Leases in flight -/

namespace OperationEpochs

variable {e e' : OperationEpochs} {lease : LeaseId}

/-- The leases in flight are those of the active epoch that are not finished. -/
structure Counted (e : OperationEpochs) : Prop where
  active : ∀ epoch, e.activeEpoch = some epoch → e.inFlight = e.unfinished epoch
  closed : e.activeEpoch = none → e.inFlight = 0

theorem counted_create : Counted create := ⟨fun _ _ => rfl, fun _ => rfl⟩

theorem Counted.begin (h : Counted e) (hbegin : e.begin = .ok (lease, e')) : Counted e' := by
  have hinFlight : e'.inFlight = e.inFlight + 1 := by
    unfold OperationEpochs.begin at hbegin
    split at hbegin
    · simp at hbegin
    · split at hbegin
      · simp at hbegin
      · obtain ⟨-, rfl⟩ := Prod.mk.inj (pure_eq_ok.mp hbegin)
        rfl
  obtain ⟨epoch, hactive, -, hactive', -, hleases⟩ := begin_spec hbegin
  refine ⟨fun epoch' hepoch' => ?_, fun hnone => ?_⟩
  · obtain rfl := Option.some.inj (hactive'.symm.trans hepoch')
    rw [hinFlight, h.active epoch hactive, unfinished, unfinished, hleases, List.countP_append]
    simp
  · rw [hactive'] at hnone
    simp at hnone

theorem Counted.finish (h : Counted e) (lease : LeaseId) : Counted (e.finish lease) := by
  unfold OperationEpochs.finish
  split
  · exact h
  · rename_i owned howned
    obtain ⟨hlt, hget⟩ := List.getElem?_eq_some_iff.mp howned
    split
    · exact h
    · rename_i hunfinished
      refine ⟨fun epoch hepoch => ?_, fun hnone => ?_⟩
      · have hactive : e.activeEpoch = some epoch := hepoch
        have hcount := h.active epoch hactive
        have hset := List.countP_set (p := fun l : LeaseState => decide (l.epoch = epoch ∧ l.finished = false))
          (a := { owned with finished := true }) hlt
        dsimp only [unfinished] at hcount ⊢
        rw [hset, hget, hcount, hactive]
        by_cases hsame : owned.epoch = epoch
        · simp [hsame, hunfinished]
        · simp [hsame, Ne.symm hsame]
      · have hclosed : e.activeEpoch = none := hnone
        dsimp only
        rw [hclosed, if_neg (by simp)]
        exact h.closed hclosed

theorem counted_invalidate (e : OperationEpochs) : Counted e.invalidate.2 :=
  ⟨fun epoch h => by simp at h, fun _ => rfl⟩

/-- No lease is of an epoch that is opened. -/
theorem Counted.activateNext (h : Counted e) (hnext : e.activateNext = some e') : Counted e' := by
  obtain ⟨hclosed, hactive, -, hleases⟩ := activateNext_spec hnext
  have hinFlight : e'.inFlight = e.inFlight := by
    unfold OperationEpochs.activateNext at hnext
    split at hnext
    · simp at hnext
    · obtain rfl := Option.some.inj hnext
      rfl
  refine ⟨fun epoch hepoch => ?_, fun hnone => ?_⟩
  · obtain rfl := Option.some.inj (hactive.symm.trans hepoch)
    rw [hinFlight, h.closed hclosed, unfinished, hleases]
    refine (List.countP_eq_zero.mpr fun l hl => ?_).symm
    have hle := e.leases_le l hl
    simp only [decide_eq_true_eq, not_and]
    intro heq
    omega
  · rw [hactive] at hnone
    simp at hnone

end OperationEpochs

open OperationEpochs (Counted)

/-! ## Histories -/

/-- Whether a record is a change of health, and to which. -/
def ControllerRecord.flag? : ControllerRecord → Option Bool
  | .emitted _ (.clockHealth _ unhealthy) => some unhealthy.isNone
  | _ => none

/-- The changes of health. -/
def healthFlags (es : List ControllerRecord) : List Bool := es.filterMap ControllerRecord.flag?

/-- What a reset call records when it closes an epoch. -/
def ControllerRecord.closing? (call : ℕ) : ControllerRecord → Option ℕ
  | .closed call' _ unfinished => if call' = call then some unfinished else none
  | _ => none

/-- The unfinished leases of the epochs that a reset call has closed. -/
def closings (call : ℕ) (es : List ControllerRecord) : List ℕ := es.filterMap (·.closing? call)

/-- A record is the event of a reset call. -/
def isReset (call : ℕ) : ControllerRecord → Bool
  | .emitted (some call') (.reset _ _ _ _ _ _ _) => call' = call
  | _ => false

/-- The epochs that a record mentions. -/
def ControllerRecord.epochs : ControllerRecord → List ℕ
  | .begun _ epoch | .closed _ epoch _ => [epoch]
  | .called _ => []
  | .emitted _ (.clockHealth epoch _) => epoch.toList
  | .emitted _ (.reset _ oldEpoch newEpoch _ _ _ _) => oldEpoch :: newEpoch.toList

/-- The reset call that a record is of. -/
def ControllerRecord.call? : ControllerRecord → Option ℕ
  | .begun _ _ => none
  | .called call | .closed call _ _ => some call
  | .emitted call _ => call

/-- The event that a record is of. -/
def ControllerRecord.event? : ControllerRecord → Option SecurityContextEvent
  | .emitted _ event => some event
  | _ => none

variable {epoch : Option ℕ} {before after : Bool} {events : List SecurityContextEvent} {call : Option ℕ}
  {es fs : List ControllerRecord} {s t : ControllerSystem}

theorem HealthChanges.flags (h : HealthChanges epoch before after events) (call : Option ℕ) :
    healthFlags (events.map (.emitted call)) = if before = after then [] else [after] := by
  cases h with
  | same heq => rw [if_pos heq]; rfl
  | changed hne hafter => rw [if_neg hne, ← hafter]; rfl

theorem healthFlags_append (es fs : List ControllerRecord) :
    healthFlags (es ++ fs) = healthFlags es ++ healthFlags fs := List.filterMap_append

/-- The changes of health alternate, and the last one is the health of the clock. -/
structure Alternates (flags : List Bool) (healthy : Bool) : Prop where
  chain : (true :: flags).IsChain (· ≠ ·)
  last : (true :: flags).getLast? = some healthy

theorem Alternates.append {flags : List Bool} (h : Alternates flags before) (after : Bool) :
    Alternates (flags ++ if before = after then [] else [after]) after := by
  split
  · rename_i heq
    rw [List.append_nil]
    exact heq ▸ h
  · rename_i hne
    refine ⟨?_, ?_⟩
    · rw [← List.cons_append, List.isChain_append]
      refine ⟨h.chain, List.isChain_singleton after, fun x hx y hy => ?_⟩
      rw [h.last] at hx
      obtain rfl := Option.some.inj hx
      obtain rfl := Option.some.inj hy
      exact hne
    · rw [← List.cons_append, List.getLast?_concat]

/-- What a reset call has counted is what it has closed. -/
def CountOf (es : List ControllerRecord) (call invalidated : ℕ) : Prop :=
  (closings call es = [] ∧ invalidated = 0) ∨ closings call es = [invalidated]

/-- What the history says of a reset that is under way. -/
def PendingOf (es : List ControllerRecord) (c : Controller) (call : ℕ) : ResetPhase → Prop
  | .started _ oldEpoch => closings call es = [] ∧ oldEpoch ≤ c.epochs.lastEpoch
  | .clearing _ oldEpoch invalidated _ _ =>
    CountOf es call invalidated ∧ oldEpoch ≤ c.epochs.lastEpoch ∧ c.epochs.activeEpoch = none

/-- What the history says of the event of a reset call, after some records. -/
structure ReportOf (es pre : List ControllerRecord) (call : ℕ) (newEpoch : Option ℕ) (invalidated : ℕ)
    (outcome : ResetOutcome) : Prop where
  count : CountOf es call invalidated
  success : newEpoch.isSome ↔ outcome = .success
  /-- The new epoch is later than all that were mentioned before. -/
  later : ∀ epoch, newEpoch = some epoch → 1 < epoch ∧ ∀ r ∈ pre, ∀ e ∈ r.epochs,
    e < epoch ∨ r = .emitted (some call) (.clockHealth (some epoch) none)

/-- The event of a reset call, after the change of health that it emits. -/
def FollowedBy (call : ℕ) (epoch : Option ℕ) (unhealthy : Option HealthReason)
    (post : List ControllerRecord) : Prop :=
  ∃ reason oldEpoch newEpoch counts invalidated declaration outcome post',
    post = .emitted (some call) (.reset reason oldEpoch newEpoch counts invalidated declaration outcome) ::
      post' ∧
    (unhealthy = none → outcome = .success ∧ epoch = newEpoch) ∧
    (unhealthy ≠ none → outcome ≠ .success ∧ (outcome = .resetFailed → epoch = none))

/-- What the history says of the events of resets. -/
def Reports (es : List ControllerRecord) : Prop :=
  ∀ pre call reason oldEpoch newEpoch counts invalidated declaration outcome post,
    es = pre ++ .emitted (some call) (.reset reason oldEpoch newEpoch counts invalidated declaration
      outcome) :: post → ReportOf es pre call newEpoch invalidated outcome

/-- What the history says of the changes of health that resets emit. -/
def Followed (es : List ControllerRecord) : Prop :=
  ∀ pre call epoch unhealthy post,
    es = pre ++ .emitted (some call) (.clockHealth epoch unhealthy) :: post →
    FollowedBy call epoch unhealthy post

/-- What the history says of the state. -/
structure HistoryOf (es : List ControllerRecord) (s : ControllerSystem) : Prop where
  idle : Controller.Idle s.controller
  counted : Counted s.controller.epochs
  health : Alternates (healthFlags es) s.controller.healthy
  emitted : s.controller.emitted = es.filterMap ControllerRecord.event?
  busy : s.controller.busy = s.reset.isSome
  numbered : ∀ r ∈ es, ∀ call, r.call? = some call → call < s.calls
  known : ∀ r ∈ es, ∀ epoch ∈ r.epochs, epoch ≤ s.controller.epochs.lastEpoch
  first : 1 ≤ s.controller.epochs.lastEpoch
  called : ∀ call, .called call ∈ es ↔ call < s.calls
  reported : ∀ call, es.countP (isReset call) =
    if call < s.calls ∧ s.reset.map (·.1) ≠ some call then 1 else 0
  pending : ∀ call phase, s.reset = some (call, phase) → call < s.calls ∧
    PendingOf es s.controller call phase
  reports : Reports es
  followed : Followed es

/-! ## Records of one step -/

/-- Records that are no event of a reset. -/
def Quiet (fs : List ControllerRecord) : Prop := ∀ r ∈ fs, ∀ call, isReset call r = false

theorem HealthChanges.quiet (h : HealthChanges epoch before after events) (call : Option ℕ) :
    Quiet (events.map (.emitted call)) := by
  cases h with
  | same => simp [Quiet]
  | changed =>
    intro r hr call'
    obtain rfl := List.mem_singleton.mp hr
    cases call <;> rfl

theorem Quiet.countP (h : Quiet fs) (call : ℕ) : fs.countP (isReset call) = 0 :=
  List.countP_eq_zero.mpr fun r hr => by simp [h r hr call]

theorem Quiet.append (h : Quiet es) (h' : Quiet fs) : Quiet (es ++ fs) :=
  fun r hr => (List.mem_append.mp hr).elim (h r) (h' r)

/-- Every event of a reset call is an event of an earlier call, or the last record. -/
theorem Quiet.of_eq_append {call : ℕ} {pre post : List ControllerRecord} {reason : ResetReason} {oldEpoch : ℕ}
    {newEpoch : Option ℕ} {counts : MemoryCleanupReport} {invalidated : ℕ}
    {declaration : Option RetentionClock} {outcome : ResetOutcome} (h : Quiet fs) :
    fs ≠ pre ++ .emitted (some call) (.reset reason oldEpoch newEpoch counts invalidated declaration
      outcome) :: post := by
  rintro rfl
  have hfalse := h _ (List.mem_append_right _ List.mem_cons_self) call
  simp [isReset] at hfalse

/-- The closings of a call that has no record. -/
theorem closings_eq_nil {call : ℕ} (h : ∀ r ∈ fs, r.call? ≠ some call) : closings call fs = [] := by
  unfold closings
  refine List.filterMap_eq_nil_iff.mpr fun r hr => ?_
  cases r with
  | closed call' epoch unfinished =>
    have hne : call' ≠ call := fun heq => h _ hr (by rw [heq]; rfl)
    simp [ControllerRecord.closing?, hne]
  | begun => rfl
  | called => rfl
  | emitted => rfl

theorem closings_append (call : ℕ) (es fs : List ControllerRecord) :
    closings call (es ++ fs) = closings call es ++ closings call fs := List.filterMap_append

theorem CountOf.append {call invalidated : ℕ} (h : CountOf es call invalidated)
    (hfs : closings call fs = []) : CountOf (es ++ fs) call invalidated := by
  unfold CountOf
  rwa [closings_append, hfs, List.append_nil]

theorem Reports.append (h : Reports es) (hquiet : Quiet fs)
    (hclosings : ∀ call, 0 < es.countP (isReset call) → closings call fs = []) : Reports (es ++ fs) := by
  intro pre call reason oldEpoch newEpoch counts invalidated declaration outcome post heq
  rcases append_eq_append_cons heq with ⟨mid, rfl, rfl⟩ | ⟨pre', rfl, hfs⟩
  · obtain ⟨hcount, hsuccess, hlater⟩ := h pre call reason oldEpoch newEpoch counts invalidated declaration
      outcome mid rfl
    refine ⟨hcount.append (hclosings call ?_), hsuccess, hlater⟩
    refine List.countP_pos_iff.mpr ⟨_, List.mem_append_right _ List.mem_cons_self, ?_⟩
    simp [isReset]
  · exact absurd hfs hquiet.of_eq_append

/-- An event of a reset call is added. -/
theorem Reports.report (h : Reports es) {call : ℕ} {reason : ResetReason} {oldEpoch : ℕ}
    {newEpoch : Option ℕ} {counts : MemoryCleanupReport} {invalidated : ℕ}
    {declaration : Option RetentionClock} {outcome : ResetOutcome}
    (hreport : ReportOf es es call newEpoch invalidated outcome) :
    Reports (es ++ [.emitted (some call)
      (.reset reason oldEpoch newEpoch counts invalidated declaration outcome)]) := by
  intro pre call' reason' oldEpoch' newEpoch' counts' invalidated' declaration' outcome' post heq
  rcases append_singleton_eq_append_cons heq with ⟨post', rfl, rfl⟩ | ⟨rfl, hsame, -⟩
  · obtain ⟨hcount, hsuccess, hlater⟩ := h pre call' reason' oldEpoch' newEpoch' counts' invalidated'
      declaration' outcome' post' rfl
    exact ⟨hcount.append rfl, hsuccess, hlater⟩
  · simp only [ControllerRecord.emitted.injEq, Option.some.injEq, SecurityContextEvent.reset.injEq] at hsame
    obtain ⟨rfl, rfl, rfl, rfl, rfl, rfl, rfl, rfl⟩ := hsame
    exact ⟨hreport.count.append rfl, hreport.success, hreport.later⟩

theorem Followed.append (h : Followed es)
    (hfs : ∀ call epoch unhealthy, .emitted (some call) (.clockHealth epoch unhealthy) ∉ fs) :
    Followed (es ++ fs) := by
  intro pre call epoch unhealthy post heq
  rcases append_eq_append_cons heq with ⟨mid, rfl, rfl⟩ | ⟨pre', rfl, rfl⟩
  · obtain ⟨reason, oldEpoch, newEpoch, counts, invalidated, declaration, outcome, post', rfl, hrest⟩ :=
      h pre call epoch unhealthy mid rfl
    exact ⟨reason, oldEpoch, newEpoch, counts, invalidated, declaration, outcome, post' ++ fs, rfl, hrest⟩
  · exact absurd (List.mem_append_right _ List.mem_cons_self) (hfs call epoch unhealthy)

/-- The end of a reset adds a change of health and an event that follows it. -/
theorem Followed.ended (h : Followed es) (hhealth : HealthChanges epoch before after events) {call : ℕ}
    {reason : ResetReason} {oldEpoch : ℕ} {newEpoch : Option ℕ} {counts : MemoryCleanupReport}
    {invalidated : ℕ} {declaration : Option RetentionClock} {outcome : ResetOutcome}
    (hhealthy : after = true → outcome = .success ∧ epoch = newEpoch)
    (hunhealthy : after = false → outcome ≠ .success ∧ (outcome = .resetFailed → epoch = none)) :
    Followed (es ++ (events.map (.emitted (some call)) ++ [.emitted (some call)
      (.reset reason oldEpoch newEpoch counts invalidated declaration outcome)])) := by
  cases hhealth with
  | same =>
    refine h.append fun call' epoch' unhealthy' hmem => ?_
    simp at hmem
  | @changed unhealthy hne hafter =>
    intro pre call' epoch' unhealthy' post heq
    rcases append_eq_append_cons heq with ⟨mid, rfl, rfl⟩ | ⟨pre', rfl, hfs⟩
    · obtain ⟨reason, oldEpoch, newEpoch, counts, invalidated, declaration, outcome, post', rfl, hrest⟩ :=
        h pre call' epoch' unhealthy' mid rfl
      exact ⟨reason, oldEpoch, newEpoch, counts, invalidated, declaration, outcome, _, rfl, hrest⟩
    · have hpre : pre' = [] := by
        cases pre' with
        | nil => rfl
        | cons r pre' =>
          have htail := (List.cons.inj hfs).2
          cases pre' with
          | nil => simp at htail
          | cons r' pre' => simp at htail
      subst hpre
      obtain ⟨hsame, hpost⟩ := List.cons.inj hfs
      simp only [ControllerRecord.emitted.injEq, Option.some.injEq,
        SecurityContextEvent.clockHealth.injEq] at hsame
      obtain ⟨rfl, rfl, rfl⟩ := hsame
      refine ⟨reason, oldEpoch, newEpoch, counts, invalidated, declaration, outcome, [], hpost.symm,
        fun hnone => hhealthy ?_, fun hsome => hunhealthy ?_⟩
      · rw [← hafter, hnone]
        rfl
      · rw [← hafter]
        cases unhealthy with
        | none => exact absurd rfl hsome
        | some reason => rfl

end AgentSig.Profiles
