import AgentSig.Profiles.ControllerHistory

/-!
# The events of the controller

Every step of a controller keeps what its history says of its state. The leases that a reset invalidates are
those that the history records as begun in the epoch, and that are not finished when the reset closes it.

## Main definitions

* `Ended`, `EndsAt`: the end of a reset call
* `LeasesOf`: the leases of a state are those that the history records

## Main results

* `HistoryOf.step`: every step keeps what the history says
* `controller_events_truthful`: **the events of every run**
-/

namespace AgentSig.Profiles

open Commons Core StructuredFields
open OperationEpochs (Counted)

variable {epoch : Option ℕ} {before after : Bool} {events : List SecurityContextEvent} {call : Option ℕ}
  {es fs : List ControllerRecord} {s t : ControllerSystem}

/-! ## Steps -/

open Controller (After Idle noCounts)
open ControllerSystem (Ends StepCase)

theorem EpochChanges.spec {e e' : OperationEpochs} {begun : List ControllerRecord}
    (h : EpochChanges e e' begun) :
    e'.activeEpoch = e.activeEpoch ∧ e'.lastEpoch = e.lastEpoch ∧ (Counted e → Counted e') ∧
      ∀ r ∈ begun, ∃ lease epoch, r = .begun lease epoch ∧ e'.activeEpoch = some epoch := by
  cases h with
  | same => exact ⟨rfl, rfl, id, by simp⟩
  | @begin lease epoch e' hbegin hactive =>
    have hcontinues := OperationEpochs.begin_continues hbegin
    refine ⟨hcontinues.activeEpoch, hcontinues.lastEpoch, fun hcounted => hcounted.begin hbegin, ?_⟩
    intro r hr
    exact ⟨lease, epoch, List.mem_singleton.mp hr, hactive⟩
  | @finish lease =>
    exact ⟨OperationEpochs.finish_activeEpoch, OperationEpochs.finish_lastEpoch,
      fun hcounted => hcounted.finish lease, by simp⟩

/-- A change of health is an event of its epoch. -/
theorem HealthChanges.mem (h : HealthChanges epoch before after events) {event : SecurityContextEvent}
    (hevent : event ∈ events) : ∃ unhealthy, event = .clockHealth epoch unhealthy := by
  cases h with
  | same => simp at hevent
  | @changed unhealthy => exact ⟨unhealthy, List.mem_singleton.mp hevent⟩

theorem events_of_emitted (call : Option ℕ) (events : List SecurityContextEvent) :
    (events.map (.emitted call)).filterMap ControllerRecord.event? = events := by
  induction events with
  | nil => rfl
  | cons event events ih =>
    rw [List.map_cons, List.filterMap_cons]
    simp [ControllerRecord.event?, ih]

theorem PendingOf.append {c c' : Controller} {call : ℕ} {phase : ResetPhase}
    (h : PendingOf es c call phase) (hfs : closings call fs = [])
    (hlast : c'.epochs.lastEpoch = c.epochs.lastEpoch)
    (hactive : c'.epochs.activeEpoch = c.epochs.activeEpoch) : PendingOf (es ++ fs) c' call phase := by
  cases phase with
  | started reason oldEpoch =>
    obtain ⟨hclosings, hle⟩ := h
    exact ⟨by rw [closings_append, hclosings, hfs, List.append_nil], hlast ▸ hle⟩
  | clearing reason oldEpoch invalidated replacement cleanup =>
    obtain ⟨hcount, hle, hclosed⟩ := h
    exact ⟨hcount.append hfs, hlast ▸ hle, hactive.trans hclosed⟩

/-- The history after a step of an operation. -/
theorem HistoryOf.operation (h : HistoryOf es s) {c' : Controller} {epochs : OperationEpochs} {healthy : Bool}
    {begun : List ControllerRecord}
    (hhealth : HealthChanges s.controller.epochs.activeEpoch s.controller.healthy healthy events)
    (hepochs : EpochChanges s.controller.epochs epochs begun)
    (hafter : After s.controller epochs healthy s.controller.busy events c') :
    HistoryOf (es ++ (events.map (.emitted none) ++ begun)) { s with controller := c' } := by
  obtain ⟨hactive, hlast, hcounted, hbegun⟩ := hepochs.spec
  have hcalls : ∀ r ∈ events.map (.emitted none) ++ begun, r.call? = none := by
    intro r hr
    rcases List.mem_append.mp hr with hr | hr
    · obtain ⟨event, -, rfl⟩ := List.mem_map.mp hr
      rfl
    · obtain ⟨lease, epoch, rfl, -⟩ := hbegun r hr
      rfl
  have hnone (call : ℕ) : closings call (events.map (.emitted none) ++ begun) = [] :=
    closings_eq_nil fun r hr => by simp [hcalls r hr]
  have hquiet : Quiet (events.map (.emitted none) ++ begun) := by
    refine (hhealth.quiet none).append fun r hr call => ?_
    obtain ⟨lease, epoch, rfl, -⟩ := hbegun r hr
    rfl
  have hflags : healthFlags begun = [] := by
    refine List.filterMap_eq_nil_iff.mpr fun r hr => ?_
    obtain ⟨lease, epoch, rfl, -⟩ := hbegun r hr
    rfl
  have hevents : begun.filterMap ControllerRecord.event? = [] := by
    refine List.filterMap_eq_nil_iff.mpr fun r hr => ?_
    obtain ⟨lease, epoch, rfl, -⟩ := hbegun r hr
    rfl
  refine {
    idle := hafter.idle
    counted := ?_
    health := ?_
    emitted := ?_
    busy := hafter.busy.trans h.busy
    numbered := ?_
    known := ?_
    first := ?_
    called := ?_
    reported := ?_
    pending := ?_
    reports := h.reports.append hquiet fun call _ => hnone call
    followed := h.followed.append ?_ }
  · rw [hafter.epochs]
    exact hcounted h.counted
  · rw [healthFlags_append, healthFlags_append, hhealth.flags, hflags, List.append_nil, hafter.healthy]
    exact h.health.append healthy
  · rw [hafter.emitted, List.filterMap_append, List.filterMap_append, events_of_emitted, hevents,
      List.append_nil, h.emitted]
  · intro r hr call hcall
    rcases List.mem_append.mp hr with hr | hr
    · exact h.numbered r hr call hcall
    · rw [hcalls r hr] at hcall
      simp at hcall
  · intro r hr e he
    rw [hafter.epochs, hlast]
    rcases List.mem_append.mp hr with hr | hr
    · exact h.known r hr e he
    · rcases List.mem_append.mp hr with hr | hr
      · obtain ⟨event, hevent, rfl⟩ := List.mem_map.mp hr
        obtain ⟨unhealthy, rfl⟩ := hhealth.mem hevent
        exact (s.controller.epochs.active_eq e (by simpa [ControllerRecord.epochs] using he)).le
      · obtain ⟨lease, epoch, rfl, hepoch⟩ := hbegun r hr
        obtain rfl := List.mem_singleton.mp he
        exact (s.controller.epochs.active_eq e (hactive ▸ hepoch)).le
  · rw [hafter.epochs, hlast]
    exact h.first
  · intro call
    rw [List.mem_append, h.called call, or_iff_left]
    intro hmem
    have hcall := hcalls _ hmem
    simp [ControllerRecord.call?] at hcall
  · intro call
    rw [List.countP_append, hquiet.countP, Nat.add_zero]
    exact h.reported call
  · intro call phase hreset
    obtain ⟨hlt, hpending⟩ := h.pending call phase hreset
    exact ⟨hlt, hpending.append (hnone call) (hafter.epochs ▸ hlast) (hafter.epochs ▸ hactive)⟩
  · intro call epoch unhealthy hmem
    have hcall := hcalls _ hmem
    simp [ControllerRecord.call?] at hcall

/-- A call without a record is no earlier one. -/
theorem HistoryOf.new_call (h : HistoryOf es s) : ∀ r ∈ es, r.call? ≠ some s.calls := by
  intro r hr hcall
  exact absurd (h.numbered r hr s.calls hcall) (lt_irrefl _)

/-- The history after a reset call that is refused. -/
theorem HistoryOf.refused (h : HistoryOf es s) {c' : Controller} {reason : ResetReason}
    {declaration : Option RetentionClock} {code : ResetOutcome} (hcode : code ≠ .success)
    (hafter : After s.controller s.controller.epochs s.controller.healthy s.controller.busy
      [.reset reason s.controller.epochs.lastEpoch none noCounts 0 declaration code] c') :
    HistoryOf (es ++ [.called s.calls, .emitted (some s.calls)
        (.reset reason s.controller.epochs.lastEpoch none noCounts 0 declaration code)])
      ⟨c', s.calls + 1, s.reset⟩ := by
  have hclosings (call : ℕ) : closings call [.called s.calls, .emitted (some s.calls)
      (.reset reason s.controller.epochs.lastEpoch none noCounts 0 declaration code)] = [] := rfl
  have hpendingNe : s.reset.map (·.1) ≠ some s.calls := by
    intro heq
    obtain ⟨⟨call, phase⟩, hreset, rfl⟩ := Option.map_eq_some_iff.mp heq
    exact absurd (h.pending _ phase hreset).1 (lt_irrefl _)
  refine {
    idle := hafter.idle
    counted := by rw [hafter.epochs]; exact h.counted
    health := ?_
    emitted := ?_
    busy := hafter.busy.trans h.busy
    numbered := ?_
    known := ?_
    first := by rw [hafter.epochs]; exact h.first
    called := ?_
    reported := ?_
    pending := ?_
    reports := ?_
    followed := h.followed.append ?_ }
  · rw [healthFlags_append, hafter.healthy]
    exact (List.append_nil _).symm ▸ h.health
  · rw [hafter.emitted, List.filterMap_append, h.emitted]
    rfl
  · intro r hr call hcall
    rcases List.mem_append.mp hr with hr | hr
    · exact (h.numbered r hr call hcall).trans (Nat.lt_succ_self _)
    · rcases List.mem_pair.mp hr with rfl | rfl <;>
      · obtain rfl := Option.some.inj hcall
        exact Nat.lt_succ_self _
  · intro r hr e he
    rw [hafter.epochs]
    rcases List.mem_append.mp hr with hr | hr
    · exact h.known r hr e he
    · rcases List.mem_pair.mp hr with rfl | rfl
      · simp [ControllerRecord.epochs] at he
      · obtain rfl : e = s.controller.epochs.lastEpoch := by simpa [ControllerRecord.epochs] using he
        exact le_rfl
  · intro call
    rw [List.mem_append, h.called call]
    simp only [List.mem_cons, List.not_mem_nil, or_false, reduceCtorEq, ControllerRecord.called.injEq]
    omega
  · intro call
    have hnew : List.countP (isReset call) [.called s.calls, .emitted (some s.calls)
        (.reset reason s.controller.epochs.lastEpoch none noCounts 0 declaration code)] =
        if s.calls = call then 1 else 0 := by
      simp [List.countP_cons, isReset]
    rw [List.countP_append, h.reported, hnew]
    by_cases heq : s.calls = call
    · subst heq
      simp [hpendingNe]
    · rw [if_neg heq, Nat.add_zero]
      refine if_congr (and_congr_left fun _ => ?_) rfl rfl
      dsimp only
      omega
  · intro call phase hreset
    obtain ⟨hlt, hpending⟩ := h.pending call phase hreset
    exact ⟨hlt.trans (Nat.lt_succ_self _), hpending.append rfl (by rw [hafter.epochs]) (by rw [hafter.epochs])⟩
  · have hcalled : Reports (es ++ [.called s.calls]) := by
      refine h.reports.append ?_ fun _ _ => rfl
      intro r hr call
      obtain rfl := List.mem_singleton.mp hr
      rfl
    rw [show es ++ [.called s.calls, .emitted (some s.calls)
        (.reset reason s.controller.epochs.lastEpoch none noCounts 0 declaration code)] =
      (es ++ [.called s.calls]) ++ [.emitted (some s.calls)
        (.reset reason s.controller.epochs.lastEpoch none noCounts 0 declaration code)] by simp]
    refine hcalled.report ⟨.inl ⟨?_, rfl⟩, by simp [hcode], by simp⟩
    rw [closings_append, closings_eq_nil h.new_call]
    rfl
  · intro call epoch unhealthy hmem
    simp at hmem

/-- The history after a reset call that starts. -/
theorem HistoryOf.accepted (h : HistoryOf es s) {c' : Controller} {reason : ResetReason}
    (hbusy : s.controller.busy = false)
    (hafter : After s.controller s.controller.epochs s.controller.healthy true [] c') :
    HistoryOf (es ++ [.called s.calls])
      ⟨c', s.calls + 1, some (s.calls, .started reason s.controller.epochs.lastEpoch)⟩ := by
  have hnone : s.reset = none := by
    have hreset := h.busy.symm.trans hbusy
    simpa using hreset
  have hquiet : Quiet [.called s.calls] := by
    intro r hr call
    obtain rfl := List.mem_singleton.mp hr
    rfl
  refine {
    idle := hafter.idle
    counted := by rw [hafter.epochs]; exact h.counted
    health := ?_
    emitted := ?_
    busy := hafter.busy
    numbered := ?_
    known := ?_
    first := by rw [hafter.epochs]; exact h.first
    called := ?_
    reported := ?_
    pending := ?_
    reports := h.reports.append hquiet fun _ _ => rfl
    followed := h.followed.append ?_ }
  · rw [healthFlags_append, hafter.healthy]
    exact (List.append_nil _).symm ▸ h.health
  · rw [hafter.emitted, List.filterMap_append, h.emitted]
    rfl
  · intro r hr call hcall
    rcases List.mem_append.mp hr with hr | hr
    · exact (h.numbered r hr call hcall).trans (Nat.lt_succ_self _)
    · obtain rfl := List.mem_singleton.mp hr
      obtain rfl := Option.some.inj hcall
      exact Nat.lt_succ_self _
  · intro r hr e he
    rw [hafter.epochs]
    rcases List.mem_append.mp hr with hr | hr
    · exact h.known r hr e he
    · obtain rfl := List.mem_singleton.mp hr
      simp [ControllerRecord.epochs] at he
  · intro call
    rw [List.mem_append, h.called call]
    simp only [List.mem_singleton, ControllerRecord.called.injEq]
    omega
  · intro call
    rw [List.countP_append, hquiet.countP, Nat.add_zero, h.reported, hnone]
    simp only [Option.map_none, Option.map_some, ne_eq, reduceCtorEq, not_false_eq_true, and_true,
      Option.some.injEq]
    refine if_congr ?_ rfl rfl
    omega
  · intro call phase hreset
    obtain ⟨rfl, rfl⟩ := Prod.mk.inj (Option.some.inj hreset)
    refine ⟨Nat.lt_succ_self _, ?_, by rw [hafter.epochs]⟩
    rw [closings_append, closings_eq_nil h.new_call]
    rfl
  · intro call epoch unhealthy hmem
    simp at hmem

/-- Records of epochs that a reset call has closed. -/
def Closes (s : ControllerSystem) (call : ℕ) (closed : List ControllerRecord) : Prop :=
  ∀ r ∈ closed, ∃ epoch unfinished, r = .closed call epoch unfinished ∧
    epoch ≤ s.controller.epochs.lastEpoch

theorem closes_closedRecords (s : ControllerSystem) (call : ℕ) : Closes s call (s.closedRecords call) := by
  intro r hr
  obtain ⟨epoch, hepoch, rfl⟩ := List.mem_map.mp hr
  exact ⟨epoch, _, rfl, (s.controller.epochs.active_eq epoch (by simpa using hepoch)).le⟩

theorem countOf_closedRecords {call : ℕ} (hcounted : Counted s.controller.epochs)
    (hclosings : closings call es = []) :
    CountOf (es ++ s.closedRecords call) call s.controller.epochs.inFlight := by
  unfold CountOf ControllerSystem.closedRecords
  rw [closings_append, hclosings, List.nil_append]
  cases hactive : s.controller.epochs.activeEpoch with
  | none => exact .inl ⟨rfl, hcounted.closed hactive⟩
  | some epoch =>
    right
    rw [hcounted.active epoch hactive]
    simp [closings, ControllerRecord.closing?]

namespace Closes

variable {call : ℕ} {closed : List ControllerRecord} (h : Closes s call closed)
include h

theorem quiet : Quiet closed := by
  intro r hr call'
  obtain ⟨epoch, unfinished, rfl, -⟩ := h r hr
  rfl

theorem flags : healthFlags closed = [] := by
  refine List.filterMap_eq_nil_iff.mpr fun r hr => ?_
  obtain ⟨epoch, unfinished, rfl, -⟩ := h r hr
  rfl

theorem noEvents : closed.filterMap ControllerRecord.event? = [] := by
  refine List.filterMap_eq_nil_iff.mpr fun r hr => ?_
  obtain ⟨epoch, unfinished, rfl, -⟩ := h r hr
  rfl

theorem call_eq {r : ControllerRecord} (hr : r ∈ closed) : r.call? = some call := by
  obtain ⟨epoch, unfinished, rfl, -⟩ := h r hr
  rfl

theorem closings {call' : ℕ} (hne : call ≠ call') : closings call' closed = [] := by
  refine closings_eq_nil fun r hr heq => hne ?_
  rw [h.call_eq hr] at heq
  exact Option.some.inj heq

theorem known {r : ControllerRecord} (hr : r ∈ closed) : ∀ e ∈ r.epochs, e ≤ s.controller.epochs.lastEpoch := by
  obtain ⟨epoch, unfinished, rfl, hle⟩ := h r hr
  intro e he
  obtain rfl := List.mem_singleton.mp he
  exact hle

theorem not_called (call' : ℕ) : .called call' ∉ closed := by
  intro hmem
  obtain ⟨epoch, unfinished, heq, -⟩ := h _ hmem
  simp at heq

theorem not_emitted (call' : Option ℕ) (event : SecurityContextEvent) : .emitted call' event ∉ closed := by
  intro hmem
  obtain ⟨epoch, unfinished, heq, -⟩ := h _ hmem
  simp at heq

end Closes

/-- A reset that is under way has not reported. -/
theorem HistoryOf.pending_ne (h : HistoryOf es s) {call : ℕ} {phase : ResetPhase}
    (hreset : s.reset = some (call, phase)) {call' : ℕ} (hreported : 0 < es.countP (isReset call')) :
    call ≠ call' := by
  rintro rfl
  rw [h.reported, if_neg (by simp [hreset])] at hreported
  exact absurd hreported (lt_irrefl 0)

/-- The closings of a reset are its own. -/
theorem HistoryOf.reports_closed (h : HistoryOf es s) {call : ℕ} {phase : ResetPhase}
    (hreset : s.reset = some (call, phase)) {closed : List ControllerRecord} (hclosed : Closes s call closed) :
    Reports (es ++ closed) :=
  h.reports.append hclosed.quiet fun _ hreported => hclosed.closings (h.pending_ne hreset hreported)

/-- The history after a reset has closed the epoch, while it awaits its cleanup. -/
theorem HistoryOf.clearing (h : HistoryOf es s) {c' : Controller} {call oldEpoch : ℕ} {reason : ResetReason}
    {replacement : ClockTracker} {cleanup : Cleanup} (hreset : s.reset = some (call, .started reason oldEpoch))
    (hafter : After s.controller s.controller.epochs.invalidate.2 s.controller.healthy s.controller.busy
      [] c') :
    HistoryOf (es ++ s.closedRecords call) ⟨c', s.calls, some (call, .clearing reason oldEpoch
      s.controller.epochs.inFlight replacement cleanup)⟩ := by
  have hclosed := closes_closedRecords s call
  obtain ⟨hlt, hclosings, hold⟩ := h.pending call _ hreset
  refine {
    idle := hafter.idle
    counted := by rw [hafter.epochs]; exact OperationEpochs.counted_invalidate _
    health := ?_
    emitted := ?_
    busy := by rw [hafter.busy, h.busy, hreset]; rfl
    numbered := ?_
    known := ?_
    first := by rw [hafter.epochs]; exact h.first
    called := ?_
    reported := ?_
    pending := ?_
    reports := h.reports_closed hreset hclosed
    followed := h.followed.append fun call epoch unhealthy => hclosed.not_emitted _ _ }
  · rw [healthFlags_append, hclosed.flags, List.append_nil, hafter.healthy]
    exact h.health
  · rw [hafter.emitted, List.filterMap_append, hclosed.noEvents, h.emitted]
  · intro r hr call' hcall
    rcases List.mem_append.mp hr with hr | hr
    · exact h.numbered r hr call' hcall
    · rw [hclosed.call_eq hr] at hcall
      exact Option.some.inj hcall ▸ hlt
  · intro r hr e he
    rw [hafter.epochs]
    rcases List.mem_append.mp hr with hr | hr
    · exact h.known r hr e he
    · exact hclosed.known hr e he
  · intro call'
    rw [List.mem_append, or_iff_left (hclosed.not_called call')]
    exact h.called call'
  · intro call'
    rw [List.countP_append, hclosed.quiet.countP, Nat.add_zero, h.reported, hreset]
    rfl
  · intro call' phase hphase
    obtain ⟨rfl, rfl⟩ := Prod.mk.inj (Option.some.inj hphase)
    refine ⟨hlt, countOf_closedRecords h.counted hclosings, ?_, ?_⟩
    · rw [hafter.epochs]
      exact hold
    · rw [hafter.epochs]
      rfl

/-- How a reset call ends: with a change of health, its own event, and the epochs after it. -/
structure Ended (es : List ControllerRecord) (s : ControllerSystem) (call : ℕ)
    (closed : List ControllerRecord) (epoch : Option ℕ) (healthy : Bool) (events : List SecurityContextEvent)
    (oldEpoch : ℕ) (newEpoch : Option ℕ) (invalidated : ℕ) (outcome : ResetOutcome)
    (epochs : OperationEpochs) : Prop where
  pending : ∃ phase, s.reset = some (call, phase)
  closes : Closes s call closed
  count : CountOf (es ++ closed) call invalidated
  health : HealthChanges epoch s.controller.healthy healthy events
  counted : Counted epochs
  last_le : s.controller.epochs.lastEpoch ≤ epochs.lastEpoch
  epoch_le : ∀ e ∈ epoch, e ≤ epochs.lastEpoch
  old_le : oldEpoch ≤ s.controller.epochs.lastEpoch
  new_eq : (newEpoch = none ∧ outcome ≠ .success) ∨
    (newEpoch = some (s.controller.epochs.lastEpoch + 1) ∧ outcome = .success ∧ healthy = true ∧
      epochs.lastEpoch = s.controller.epochs.lastEpoch + 1)
  success : healthy = true → outcome = .success ∧ epoch = newEpoch
  failure : healthy = false → outcome ≠ .success ∧ (outcome = .resetFailed → epoch = none)

/-- The history after the end of a reset call. -/
theorem HistoryOf.ended (h : HistoryOf es s) {c' : Controller} {call : ℕ} {closed : List ControllerRecord}
    {healthy : Bool} {reason : ResetReason} {oldEpoch : ℕ} {newEpoch : Option ℕ}
    {counts : MemoryCleanupReport} {invalidated : ℕ} {declaration : Option RetentionClock}
    {outcome : ResetOutcome} {epochs : OperationEpochs}
    (hended : Ended es s call closed epoch healthy events oldEpoch newEpoch invalidated outcome epochs)
    (hafter : After s.controller epochs healthy false
      (events ++ [.reset reason oldEpoch newEpoch counts invalidated declaration outcome]) c') :
    HistoryOf (es ++ (closed ++ (events.map (.emitted (some call)) ++ [.emitted (some call)
      (.reset reason oldEpoch newEpoch counts invalidated declaration outcome)])))
      ⟨c', s.calls, none⟩ := by
  obtain ⟨phase, hreset⟩ := hended.pending
  have hclosed := hended.closes
  have hlt := (h.pending call phase hreset).1
  have hquiet : Quiet (closed ++ events.map (.emitted (some call))) :=
    hclosed.quiet.append (hended.health.quiet _)
  have hclosings (call' : ℕ) : closings call' (events.map (.emitted (some call))) = [] := by
    refine List.filterMap_eq_nil_iff.mpr fun r hr => ?_
    obtain ⟨event, -, rfl⟩ := List.mem_map.mp hr
    rfl
  have hmem {r : ControllerRecord} (hr : r ∈ closed ++ (events.map (.emitted (some call)) ++
      [.emitted (some call) (.reset reason oldEpoch newEpoch counts invalidated declaration outcome)])) :
      r.call? = some call := by
    rcases List.mem_append.mp hr with hr | hr
    · exact hclosed.call_eq hr
    · rcases List.mem_append.mp hr with hr | hr
      · obtain ⟨event, -, rfl⟩ := List.mem_map.mp hr
        rfl
      · obtain rfl := List.mem_singleton.mp hr
        rfl
  refine {
    idle := hafter.idle
    counted := by rw [hafter.epochs]; exact hended.counted
    health := ?_
    emitted := ?_
    busy := hafter.busy
    numbered := ?_
    known := ?_
    first := by rw [hafter.epochs]; exact h.first.trans hended.last_le
    called := ?_
    reported := ?_
    pending := fun call' phase' hphase => absurd hphase (by simp)
    reports := ?_
    followed := ?_ }
  · rw [healthFlags_append, healthFlags_append, healthFlags_append, hclosed.flags, hended.health.flags,
      hafter.healthy, List.nil_append]
    exact (List.append_nil _).symm ▸ h.health.append healthy
  · rw [hafter.emitted, List.filterMap_append, List.filterMap_append, List.filterMap_append, hclosed.noEvents,
      events_of_emitted, h.emitted]
    rfl
  · intro r hr call' hcall
    rcases List.mem_append.mp hr with hr | hr
    · exact h.numbered r hr call' hcall
    · rw [hmem hr] at hcall
      exact Option.some.inj hcall ▸ hlt
  · intro r hr e he
    rw [hafter.epochs]
    rcases List.mem_append.mp hr with hr | hr
    · exact (h.known r hr e he).trans hended.last_le
    · rcases List.mem_append.mp hr with hr | hr
      · exact (hclosed.known hr e he).trans hended.last_le
      · rcases List.mem_append.mp hr with hr | hr
        · obtain ⟨event, hevent, rfl⟩ := List.mem_map.mp hr
          obtain ⟨unhealthy, rfl⟩ := hended.health.mem hevent
          exact hended.epoch_le e (by simpa [ControllerRecord.epochs] using he)
        · obtain rfl := List.mem_singleton.mp hr
          rcases List.mem_cons.mp he with rfl | he
          · exact hended.old_le.trans hended.last_le
          · rcases hended.new_eq with ⟨hnone, -⟩ | ⟨hsome, -, -, hlast⟩
            · rw [hnone] at he
              simp at he
            · rw [hsome] at he
              obtain rfl : e = s.controller.epochs.lastEpoch + 1 := by simpa using he
              exact hlast.ge
  · intro call'
    rw [List.mem_append, or_iff_left]
    · exact h.called call'
    · intro hcalled
      rcases List.mem_append.mp hcalled with hcalled | hcalled
      · exact hclosed.not_called call' hcalled
      · simp at hcalled
  · intro call'
    have hnew : List.countP (isReset call') [.emitted (some call)
        (.reset reason oldEpoch newEpoch counts invalidated declaration outcome)] =
        if call = call' then 1 else 0 := by
      simp [List.countP_cons, isReset]
    rw [← List.append_assoc closed, List.countP_append, List.countP_append, hquiet.countP, hnew, h.reported,
      hreset]
    by_cases heq : call = call'
    · subst heq
      simp [hlt]
    · simp [heq]
  · have hbefore : Reports (es ++ (closed ++ events.map (.emitted (some call)))) := by
      refine h.reports.append hquiet fun call' hreported => ?_
      rw [closings_append, hclosed.closings (h.pending_ne hreset hreported), hclosings]
      rfl
    rw [← List.append_assoc closed, ← List.append_assoc es]
    refine hbefore.report ⟨?_, ?_, fun m hm => ⟨?_, fun r hr e he => ?_⟩⟩
    · rw [← List.append_assoc]
      exact hended.count.append (hclosings call)
    · rcases hended.new_eq with ⟨hnone, houtcome⟩ | ⟨hsome, houtcome, -, -⟩
      · simp [hnone, houtcome]
      · simp [hsome, houtcome]
    · rcases hended.new_eq with ⟨hnone, -⟩ | ⟨hsome, -, -, -⟩
      · rw [hnone] at hm
        simp at hm
      · rw [hsome] at hm
        obtain rfl := Option.some.inj hm
        exact Nat.lt_succ_of_le h.first
    · rcases hended.new_eq with ⟨hnone, -⟩ | ⟨hsome, -, hhealthy, -⟩
      · rw [hnone] at hm
        simp at hm
      · rw [hsome] at hm
        obtain rfl := Option.some.inj hm
        rcases List.mem_append.mp hr with hr | hr
        · exact .inl (Nat.lt_succ_of_le (h.known r hr e he))
        · rcases List.mem_append.mp hr with hr | hr
          · exact .inl (Nat.lt_succ_of_le (hclosed.known hr e he))
          · -- The only event of the new epoch is the change of health before this one.
            right
            have hepoch := (hended.success hhealthy).2
            rw [hsome] at hepoch
            have hhealth := hended.health
            rw [hepoch, hhealthy] at hhealth
            cases hhealth with
            | same => simp at hr
            | @changed unhealthy hne hnone =>
              obtain rfl := List.mem_singleton.mp hr
              rw [Option.isNone_iff_eq_none.mp hnone]
  · rw [← List.append_assoc es]
    refine Followed.ended ?_ hended.health hended.success hended.failure
    exact h.followed.append fun call epoch unhealthy => hclosed.not_emitted _ _

/-- The old epoch of a reset is no later than the last one. -/
theorem HistoryOf.old_le (h : HistoryOf es s) {call oldEpoch invalidated : ℕ} {reason : ResetReason}
    {closed : List ControllerRecord} {epochs : OperationEpochs}
    (hends : Ends s call reason oldEpoch closed invalidated epochs) :
    oldEpoch ≤ s.controller.epochs.lastEpoch := by
  cases hends with
  | atOnce hreset => exact (h.pending call _ hreset).2.2
  | cleaned hreset => exact (h.pending call _ hreset).2.2.1

/-- Where a reset ends, its epoch is closed and its leases are counted. -/
structure EndsAt (es : List ControllerRecord) (s : ControllerSystem) (call : ℕ)
    (closed : List ControllerRecord) (invalidated : ℕ) (epochs : OperationEpochs) : Prop where
  pending : ∃ phase, s.reset = some (call, phase)
  closes : Closes s call closed
  count : CountOf (es ++ closed) call invalidated
  counted : Counted epochs
  inFlight : epochs.inFlight = 0
  lastEpoch : epochs.lastEpoch = s.controller.epochs.lastEpoch

theorem HistoryOf.endsAt (h : HistoryOf es s) {call oldEpoch invalidated : ℕ} {reason : ResetReason}
    {closed : List ControllerRecord} {epochs : OperationEpochs}
    (hends : Ends s call reason oldEpoch closed invalidated epochs) :
    EndsAt es s call closed invalidated epochs := by
  cases hends with
  | atOnce hreset =>
    obtain ⟨-, hclosings, -⟩ := h.pending call _ hreset
    exact ⟨⟨_, hreset⟩, closes_closedRecords s call, countOf_closedRecords h.counted hclosings,
      OperationEpochs.counted_invalidate _, rfl, rfl⟩
  | cleaned hreset =>
    obtain ⟨-, hcount, -, hclosed⟩ := h.pending call _ hreset
    exact ⟨⟨_, hreset⟩, by simp [Closes], by rwa [List.append_nil], h.counted, h.counted.closed hclosed, rfl⟩

/-- **Every step keeps what the history says.** -/
theorem HistoryOf.step (h : HistoryOf es s) (hstep : StepCase s t fs) : HistoryOf (es ++ fs) t := by
  cases hstep with
  | operation hhealth hepochs hafter => exact h.operation hhealth hepochs hafter
  | refused hcode hafter => exact h.refused hcode hafter
  | accepted hbusy hafter => exact h.accepted hbusy hafter
  | abandoned hreset hhealth hafter =>
    obtain ⟨-, hclosings, hold⟩ := h.pending _ _ hreset
    rw [← List.nil_append (List.map _ _ ++ _)]
    refine h.ended ⟨⟨_, hreset⟩, by simp [Closes], ?_, hhealth, h.counted, le_rfl, ?_, hold, .inl ⟨rfl, by simp⟩,
      by simp, by simp⟩ hafter
    · exact .inl ⟨by rw [List.append_nil, hclosings], rfl⟩
    · intro e he
      exact (s.controller.epochs.active_eq e he).le
  | clearing hreset hafter => exact h.clearing hreset hafter
  | failed hends hhealth hafter =>
    obtain ⟨hpending, hcloses, hcount, -, hinFlight, hlast⟩ := h.endsAt hends
    refine h.ended ⟨hpending, hcloses, ?_, hhealth, OperationEpochs.counted_invalidate _, hlast.ge, by simp,
      h.old_le hends, .inl ⟨rfl, by simp⟩, by simp, by simp⟩ hafter
    rw [hinFlight, Nat.add_zero]
    exact hcount
  | succeeded hends hactivate hhealth hafter =>
    obtain ⟨hpending, hcloses, hcount, hcounted, hinFlight, hlast⟩ := h.endsAt hends
    obtain ⟨-, hactive, hlast', -⟩ := OperationEpochs.activateNext_spec hactivate
    rw [hlast] at hactive hlast'
    refine h.ended ⟨hpending, hcloses, hcount, hhealth, hcounted.activateNext hactivate, ?_, ?_, h.old_le hends,
      .inr ⟨hactive, rfl, rfl, hlast'⟩, by simp, by simp⟩ hafter
    · rw [hlast']
      exact Nat.le_succ _
    · intro e he
      rw [hactive] at he
      rw [hlast']
      exact (Option.mem_some.mp he).ge

/-! ## Runs -/

variable {A : Rounding} {declaration : Option RetentionClock} {hasPort : Bool} {policy : ClockPolicy}
  {first : ClockSample}

/-- The history of a new controller is empty. -/
theorem historyOf_init {c : Controller} (h : createSecurityContextController policy first = .ok c) :
    HistoryOf [] (ControllerSystem.init c) := by
  simp only [createSecurityContextController, bind_eq_ok, pure_eq_ok] at h
  obtain ⟨tracker, -, rfl⟩ := h
  exact {
    idle := ⟨rfl, rfl⟩
    counted := OperationEpochs.counted_create
    health := ⟨List.isChain_singleton true, rfl⟩
    emitted := rfl
    busy := rfl
    numbered := by simp
    known := by simp
    first := le_rfl
    called := by simp [ControllerSystem.init]
    reported := by simp [ControllerSystem.init]
    pending := by simp [ControllerSystem.init]
    reports := by intro pre; simp
    followed := by intro pre; simp }

/-- What the history of a run says of its state. -/
theorem historyOf_run (h : ControllerSystem.ControllerRun A declaration hasPort policy first es s) :
    HistoryOf es s := by
  refine h.invariant ?_ ?_
  · rintro s ⟨c, hc, rfl⟩
    exact historyOf_init hc
  · rintro es fs s t - hhistory ⟨action, haction⟩
    exact hhistory.step (ControllerSystem.stepCase_of_step hhistory.idle haction)

/-! ## Records and states -/

/-- What a reset records of the epoch that it closes. -/
theorem closed_of_closedRecords {call call' epoch unfinished : ℕ} {before after : List ControllerRecord}
    (hfs : ∀ epoch unfinished, .closed call' epoch unfinished ∉ fs)
    (heq : s.closedRecords call ++ fs = before ++ .closed call' epoch unfinished :: after) :
    before = [] ∧ s.controller.epochs.activeEpoch = some epoch ∧
      unfinished = s.controller.epochs.unfinished epoch := by
  have habsurd {pre : List ControllerRecord} (h : fs = pre ++ .closed call' epoch unfinished :: after) :
      False := hfs epoch unfinished (h ▸ List.mem_append_right _ List.mem_cons_self)
  unfold ControllerSystem.closedRecords at heq
  cases hactive : s.controller.epochs.activeEpoch with
  | none =>
    rw [hactive] at heq
    exact absurd heq habsurd
  | some active =>
    rw [hactive] at heq
    cases before with
    | nil =>
      obtain ⟨hclosed, -⟩ := List.cons.inj heq
      obtain ⟨-, rfl, rfl⟩ := ControllerRecord.closed.inj hclosed
      exact ⟨rfl, rfl, rfl⟩
    | cons r before =>
      obtain ⟨-, hrest⟩ := List.cons.inj heq
      exact absurd hrest habsurd

/-- The records of events close no epoch. -/
theorem closed_notMem_events {call : Option ℕ} {call' : ℕ} {event : SecurityContextEvent} (epoch unfinished : ℕ) :
    ControllerRecord.closed call' epoch unfinished ∉
      events.map (ControllerRecord.emitted call) ++ [ControllerRecord.emitted call event] := by
  simp

/-- An epoch is closed by a step from a state where it is active. -/
theorem closed_of_stepCase {call epoch unfinished : ℕ} {before after : List ControllerRecord}
    (hstep : StepCase s t fs) (heq : fs = before ++ .closed call epoch unfinished :: after) :
    before = [] ∧ s.controller.epochs.activeEpoch = some epoch ∧
      unfinished = s.controller.epochs.unfinished epoch ∧ t.controller.epochs.activeEpoch ≠ some epoch := by
  have hmem : .closed call epoch unfinished ∈ fs := heq ▸ List.mem_append_right _ List.mem_cons_self
  cases hstep with
  | operation hhealth hepochs hafter =>
    rcases List.mem_append.mp hmem with hmem | hmem
    · simp at hmem
    · obtain ⟨lease, epoch', heq, -⟩ := hepochs.spec.2.2.2 _ hmem
      simp at heq
  | refused => simp at hmem
  | accepted => simp at hmem
  | abandoned => simp at hmem
  | clearing hreset hafter =>
    rw [← List.append_nil (s.closedRecords _)] at heq
    obtain ⟨hbefore, hactive, hunfinished⟩ := closed_of_closedRecords (by simp) heq
    refine ⟨hbefore, hactive, hunfinished, ?_⟩
    rw [hafter.epochs]
    simp
  | failed hends hhealth hafter =>
    cases hends with
    | atOnce =>
      obtain ⟨hbefore, hactive, hunfinished⟩ := closed_of_closedRecords closed_notMem_events heq
      refine ⟨hbefore, hactive, hunfinished, ?_⟩
      rw [hafter.epochs]
      simp
    | cleaned => simp at hmem
  | succeeded hends hactivate hhealth hafter =>
    cases hends with
    | atOnce =>
      obtain ⟨hbefore, hactive, hunfinished⟩ := closed_of_closedRecords closed_notMem_events heq
      refine ⟨hbefore, hactive, hunfinished, ?_⟩
      rw [hafter.epochs, (OperationEpochs.activateNext_spec hactivate).2.1,
        s.controller.epochs.active_eq epoch hactive, OperationEpochs.invalidate_lastEpoch]
      simp
    | cleaned => simp at hmem

/-- A change of health that an operation emits is of the epoch that is active. -/
theorem clockHealth_of_stepCase {before after : List ControllerRecord} {unhealthy : Option HealthReason}
    (hstep : StepCase s t fs) (heq : fs = before ++ .emitted none (.clockHealth epoch unhealthy) :: after) :
    before = [] ∧ epoch = s.controller.epochs.activeEpoch := by
  have hmem : .emitted none (.clockHealth epoch unhealthy) ∈ fs :=
    heq ▸ List.mem_append_right _ List.mem_cons_self
  cases hstep with
  | operation hhealth hepochs hafter =>
    have hbegun := hepochs.spec.2.2.2
    have habsurd {pre : List ControllerRecord} : _ ≠ pre ++ .emitted none (.clockHealth epoch unhealthy) :: after :=
      fun heq => by
        obtain ⟨lease, epoch', hbegun, -⟩ := hbegun _ (heq ▸ List.mem_append_right _ List.mem_cons_self)
        simp at hbegun
    cases hhealth with
    | same => exact absurd heq habsurd
    | changed =>
      cases before with
      | nil =>
        obtain ⟨hevent, -⟩ := List.cons.inj heq
        simp only [ControllerRecord.emitted.injEq, SecurityContextEvent.clockHealth.injEq] at hevent
        exact ⟨rfl, hevent.2.1.symm⟩
      | cons r before => exact absurd (List.cons.inj heq).2 habsurd
  | refused => simp at hmem
  | accepted => simp at hmem
  | abandoned => simp at hmem
  | clearing hreset =>
    obtain ⟨epoch', unfinished, heq, -⟩ := closes_closedRecords s _ _ hmem
    simp at heq
  | failed hends =>
    cases hends with
    | atOnce => simp [ControllerSystem.closedRecords] at hmem
    | cleaned => simp at hmem
  | succeeded hends =>
    cases hends with
    | atOnce => simp [ControllerSystem.closedRecords] at hmem
    | cleaned => simp at hmem

/-- The leases of a state with their epochs are those that the history records. -/
def LeasesOf (es : List ControllerRecord) (s : ControllerSystem) : Prop :=
  ∀ (lease : LeaseId) (epoch : ℕ), .begun lease epoch ∈ es ↔
    ∃ finished, s.controller.epochs.leases[lease]? = some ⟨epoch, finished⟩

theorem LeasesOf.append (h : LeasesOf es s) (hfs : ∀ lease epoch, .begun lease epoch ∉ fs)
    (hleases : t.controller.epochs.leases = s.controller.epochs.leases) : LeasesOf (es ++ fs) t := by
  intro lease epoch
  rw [List.mem_append, or_iff_left (hfs lease epoch), hleases]
  exact h lease epoch

/-- An operation records the lease that it begins, and no lease gets another epoch. -/
theorem LeasesOf.operation (h : LeasesOf es s) {epochs : OperationEpochs} {begun : List ControllerRecord}
    (hepochs : EpochChanges s.controller.epochs epochs begun) (ht : t.controller.epochs = epochs)
    (hfs : ∀ lease epoch, .begun lease epoch ∉ fs) : LeasesOf (es ++ (fs ++ begun)) t := by
  cases hepochs with
  | same => exact h.append (by simpa using hfs) (by rw [ht])
  | @begin lease epoch e' hbegin hactive =>
    obtain ⟨epoch', -, hlease, hactive', -, hleases⟩ := OperationEpochs.begin_spec hbegin
    obtain rfl := Option.some.inj (hactive.symm.trans hactive')
    intro lease' epoch'
    rw [ht, hleases]
    simp only [List.mem_append, hfs, false_or, List.mem_singleton, ControllerRecord.begun.injEq]
    rw [h lease' epoch', hlease]
    rcases lt_trichotomy lease' s.controller.epochs.leases.length with hlt | heq | hgt
    · rw [List.getElem?_append_left hlt]
      simp [hlt.ne]
    · subst heq
      simp [eq_comm]
    · have hnone : s.controller.epochs.leases[lease']? = none := List.getElem?_eq_none hgt.le
      rw [List.getElem?_append_right hgt.le, hnone, List.getElem?_eq_none (Nat.sub_pos_of_lt hgt)]
      simp [hgt.ne']
  | @finish lease =>
    intro lease' epoch'
    rw [List.append_nil, List.mem_append, or_iff_left (hfs lease' epoch'), h lease' epoch', ht]
    unfold OperationEpochs.finish
    split
    · rfl
    · rename_i owned howned
      obtain ⟨hlt, hget⟩ := List.getElem?_eq_some_iff.mp howned
      split
      · rfl
      · dsimp only
        by_cases heq : lease = lease'
        · subst heq
          rw [List.getElem?_set_self hlt, howned]
          obtain ⟨ownedEpoch, finished⟩ := owned
          simp
        · rw [List.getElem?_set_ne heq]

/-- Every step keeps what the history says of the leases. -/
theorem LeasesOf.step (h : LeasesOf es s) (hstep : StepCase s t fs) : LeasesOf (es ++ fs) t := by
  have hclosed (call : ℕ) (lease : LeaseId) (epoch : ℕ) : .begun lease epoch ∉ s.closedRecords call := by
    simp [ControllerSystem.closedRecords]
  cases hstep with
  | operation hhealth hepochs hafter => exact h.operation hepochs hafter.epochs (by simp)
  | refused hcode hafter => exact h.append (by simp) (by rw [hafter.epochs])
  | accepted hbusy hafter => exact h.append (by simp) (by rw [hafter.epochs])
  | abandoned hreset hhealth hafter => exact h.append (by simp) (by rw [hafter.epochs])
  | clearing hreset hafter => exact h.append (hclosed _) (by rw [hafter.epochs]; rfl)
  | failed hends hhealth hafter =>
    cases hends with
    | atOnce => exact h.append (by simp [hclosed]) (by rw [hafter.epochs]; rfl)
    | cleaned => exact h.append (by simp) (by rw [hafter.epochs]; rfl)
  | succeeded hends hactivate hhealth hafter =>
    obtain ⟨-, -, -, hleases⟩ := OperationEpochs.activateNext_spec hactivate
    cases hends with
    | atOnce => exact h.append (by simp [hclosed]) (by rw [hafter.epochs, hleases]; rfl)
    | cleaned => exact h.append (by simp) (by rw [hafter.epochs, hleases])

/-- What the history of a run says of its leases. -/
theorem leasesOf_run (h : ControllerSystem.ControllerRun A declaration hasPort policy first es s) :
    LeasesOf es s := by
  refine h.invariant ?_ ?_
  · rintro s ⟨c, hc, rfl⟩
    simp only [createSecurityContextController, bind_eq_ok, pure_eq_ok] at hc
    obtain ⟨tracker, -, rfl⟩ := hc
    simp [LeasesOf, ControllerSystem.init, OperationEpochs.create]
  · rintro es fs s t hrun hleases ⟨action, haction⟩
    exact hleases.step (ControllerSystem.stepCase_of_step (historyOf_run hrun).idle haction)

/-! ## The events of every run -/

open ControllerSystem (ControllerRun)

/-- **The events of every run.** The changes of health alternate and start with an unhealthy one. A change
that a reset emits is followed by the event of the reset: it is healthy with the new epoch, or unhealthy,
without an epoch where the reset has failed. The event of a reset counts the leases of the epoch that its call
has closed, as they were when it was closed, and it has a new epoch, later than all before, exactly where the
reset succeeds. Every reset call has one event, from its end on. -/
theorem controller_events_truthful (A : Rounding) (declaration : Option RetentionClock) (hasPort : Bool)
    (policy : ClockPolicy) (first : ClockSample) (es : List ControllerRecord) (s : ControllerSystem)
    (h : ControllerRun A declaration hasPort policy first es s) :
    s.controller.emitted = es.filterMap ControllerRecord.event? ∧
    (true :: healthFlags es).IsChain (· ≠ ·) ∧
    (∀ pre call epoch unhealthy post, es = pre ++ .emitted call (.clockHealth epoch unhealthy) :: post →
      match call with
      | some call => FollowedBy call epoch unhealthy post
      | none => ∃ t, ControllerRun A declaration hasPort policy first pre t ∧
          epoch = t.controller.epochs.activeEpoch) ∧
    (∀ pre call reason oldEpoch newEpoch counts invalidated declaration outcome post,
      es = pre ++ .emitted (some call) (.reset reason oldEpoch newEpoch counts invalidated declaration
        outcome) :: post → ReportOf es pre call newEpoch invalidated outcome) ∧
    (∀ pre call epoch unfinished post, es = pre ++ .closed call epoch unfinished :: post →
      ∃ t action u fs, ControllerRun A declaration hasPort policy first pre t ∧
        t.step A declaration hasPort action = some (u, fs) ∧ fs <+: .closed call epoch unfinished :: post ∧
        t.controller.epochs.activeEpoch = some epoch ∧ u.controller.epochs.activeEpoch ≠ some epoch ∧
        unfinished = t.controller.epochs.unfinished epoch) ∧
    (∀ lease epoch, .begun lease epoch ∈ es ↔
      ∃ finished, s.controller.epochs.leases[lease]? = some ⟨epoch, finished⟩) ∧
    ∀ call, es.countP (isReset call) =
      if .called call ∈ es ∧ s.reset.map (·.1) ≠ some call then 1 else 0 := by
  have hhistory := historyOf_run h
  refine ⟨hhistory.emitted, hhistory.health.chain, ?_, hhistory.reports, ?_, leasesOf_run h, ?_⟩
  · intro pre call epoch unhealthy post heq
    cases call with
    | some call => exact hhistory.followed pre call epoch unhealthy post heq
    | none =>
      obtain ⟨pre', before, after, post', t, u, rfl, -, hrun, ⟨action, haction⟩, -⟩ := h.exists_step_at heq
      obtain ⟨rfl, hepoch⟩ := clockHealth_of_stepCase
        (ControllerSystem.stepCase_of_step (historyOf_run hrun).idle haction) rfl
      rw [List.append_nil]
      exact ⟨t, hrun, hepoch⟩
  · intro pre call epoch unfinished post heq
    obtain ⟨pre', before, after, post', t, u, rfl, rfl, hrun, ⟨action, haction⟩, -⟩ := h.exists_step_at heq
    obtain ⟨rfl, hactive, hunfinished, hclosed⟩ := closed_of_stepCase
      (ControllerSystem.stepCase_of_step (historyOf_run hrun).idle haction) rfl
    rw [List.append_nil]
    exact ⟨t, action, u, _, hrun, haction, ⟨post', rfl⟩, hactive, hclosed, hunfinished⟩
  · intro call
    rw [hhistory.reported call]
    exact if_congr (and_congr_left fun _ => (hhistory.called call).symm) rfl rfl

/-- A lease is begun, the clock fails, a reset closes its epoch and opens the next one, and another fails. -/
def exampleResets : List ControllerAction :=
  [.begin ⟨some 10000, some 10000⟩, .now 0 ⟨none, none⟩,
    .startReset .health, .startReset .operator,
    .prepareReset .invalid ⟨some 11000, some 11000⟩ ⟨some 11000, some 11000⟩,
    .startReset .operator, .prepareReset .invalid ⟨some 12000, some 12000⟩ ⟨none, some 12000⟩]

/-- The run of `exampleResets`. -/
def exampleResetsRun : Option (ControllerSystem × List ControllerRecord) := do
  let controller ← (createSecurityContextController ⟨5, by decide⟩ ⟨some 10000, some 10000⟩).toOption
  runAll (ControllerSystem.step .exact (some .independent) false) exampleResets (.init controller) []

/-- What the observer sees of them. -/
def exampleResetsEvents : List SecurityContextEvent :=
  [.clockHealth (some 1) (some (.clock .invalidSample)),
    .reset .operator 1 none ⟨some 0, some 0⟩ 0 (some .independent) .resetInProgress,
    .clockHealth (some 2) none,
    .reset .health 1 (some 2) ⟨some 0, some 0⟩ 1 (some .independent) .success,
    .clockHealth none (some .resetFailed),
    .reset .operator 2 none ⟨some 0, some 0⟩ 0 (some .independent) .resetFailed]

theorem controller_events_truthful_exampleResets :
    ∃ (es : List ControllerRecord) (s : ControllerSystem), s.controller.emitted = exampleResetsEvents ∧
      s.controller.emitted = es.filterMap ControllerRecord.event? ∧
      (true :: healthFlags es).IsChain (· ≠ ·) := by
  have hemitted : (exampleResetsRun.any fun r => r.1.controller.emitted = exampleResetsEvents) = true := by
    decide +kernel
  obtain ⟨⟨s, es⟩, hsome, hevents⟩ := (Option.any_eq_true _ _).mp hemitted
  simp only [exampleResetsRun, Option.bind_eq_bind, Option.bind_eq_some_iff] at hsome
  obtain ⟨controller, hcontroller, hactions⟩ := hsome
  have hcreated : createSecurityContextController ⟨5, by decide⟩ ⟨some 10000, some 10000⟩ =
      .ok controller := by
    cases h : createSecurityContextController ⟨5, by decide⟩ ⟨some 10000, some 10000⟩ with
    | ok created =>
      rw [h] at hcontroller
      exact congrArg Except.ok (Option.some.inj hcontroller)
    | error => simp [h, Except.toOption] at hcontroller
  have hrun : ControllerRun .exact (some .independent) false ⟨5, by decide⟩ ⟨some 10000, some 10000⟩ es s :=
    (Run.init ⟨controller, hcreated, rfl⟩).runAll hactions
  obtain ⟨hemits, hchain, -⟩ := controller_events_truthful .exact (some .independent) false ⟨5, by decide⟩
    ⟨some 10000, some 10000⟩ es s hrun
  exact ⟨es, s, by simpa using hevents, hemits, hchain⟩

end AgentSig.Profiles
