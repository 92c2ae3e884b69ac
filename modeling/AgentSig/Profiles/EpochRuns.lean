import AgentSig.Profiles.ControllerHistory

/-!
# Runs of operation epochs

Callers of an instance begin operations, check their leases and finish them, in any order and more than
once, while a reset closes the epoch and opens the next. The history of a run tells which leases were
begun, in which epoch, and which were finished; the counter and the checks agree with it.

## Main definitions

* `Handle`: what a caller passes as a lease
* `EpochAction`, `EpochEvent`, `OperationEpochs.step`: the system
* `activeOf`, `openedOf`, `begunOf`, `outstanding`: what a history says

## Main results

* `tableOf_step`: what one step adds to the history is what it changes in the table of leases
* `operationEpochs_history`: the counter, the epochs and the checks, in every run
-/

namespace AgentSig.Profiles

open Commons Core StructuredFields

/-- What a caller passes as a lease: the handle that `begin` returned, by its number, or anything else,
such as a handle of another instance. -/
inductive Handle
  | own (lease : LeaseId)
  | foreign (value : ℕ)
  deriving DecidableEq, Repr

/-- A call. -/
inductive EpochAction
  | begin
  | assertCurrent (handle : Handle)
  | finish (handle : Handle)
  | invalidate
  | activateNext
  deriving DecidableEq, Repr

/-- A call that was made, with what it returned. -/
inductive EpochEvent
  | begun (lease : LeaseId) (epoch : ℕ)
  | beginRefused
  | asserted (handle : Handle) (current : Bool)
  | finished (handle : Handle)
  | invalidated (operations : ℕ)
  | activated (epoch : ℕ)
  | activationRefused
  deriving DecidableEq, Repr

namespace OperationEpochs

variable (e : OperationEpochs)

/-- `assertCurrent`, of any value. -/
def assertHandle : Handle → Except ProfileError Unit
  | .own lease => e.assertCurrent lease
  | .foreign _ => throw clockUnavailable

/-- `finish`, of any value. -/
def finishHandle : Handle → OperationEpochs
  | .own lease => e.finish lease
  | .foreign _ => e

/-- A caller can have the handle: it was returned. -/
def Issued : Handle → Prop
  | .own lease => lease < e.leases.length
  | .foreign _ => True

instance : DecidablePred e.Issued
  | .own lease => inferInstanceAs (Decidable (lease < e.leases.length))
  | .foreign _ => inferInstanceAs (Decidable True)

/-- One call. -/
def step : EpochAction → Option (OperationEpochs × List EpochEvent)
  | .begin =>
    match e.begin, e.activeEpoch with
    | .ok (lease, e'), some epoch => some (e', [.begun lease epoch])
    | _, _ => some (e, [.beginRefused])
  | .assertCurrent handle =>
    if e.Issued handle then some (e, [.asserted handle (e.assertHandle handle).isOk]) else none
  | .finish handle => if e.Issued handle then some (e.finishHandle handle, [.finished handle]) else none
  | .invalidate => some (e.invalidate.2, [.invalidated e.invalidate.1])
  | .activateNext =>
    match e.activateNext with
    | some e' => some (e', [.activated e'.lastEpoch])
    | none => some (e, [.activationRefused])

end OperationEpochs

/-- The runs of an instance. -/
abbrev EpochRun (es : List EpochEvent) (e : OperationEpochs) : Prop :=
  Run (· = OperationEpochs.create) (fun e events e' => ∃ action, e.step action = some (e', events)) es e

/-! ## What a history says -/

/-- The active epoch after an event. -/
def activeAfter (active : Option ℕ) : EpochEvent → Option ℕ
  | .invalidated _ => none
  | .activated epoch => some epoch
  | _ => active

/-- The active epoch. -/
def activeOf (es : List EpochEvent) : Option ℕ := es.foldl activeAfter (some 1)

/-- The epochs that were opened, the first one included. -/
def openedOf (es : List EpochEvent) : List ℕ :=
  1 :: es.filterMap fun
    | .activated epoch => some epoch
    | _ => none

/-- The leases that were begun, with their epochs. -/
def begunOf (es : List EpochEvent) : List (LeaseId × ℕ) :=
  es.filterMap fun
    | .begun lease epoch => some (lease, epoch)
    | _ => none

/-- The leases that were begun in an epoch and not finished. -/
def outstanding (es : List EpochEvent) (epoch : ℕ) : List (LeaseId × ℕ) :=
  (begunOf es).filter fun l => l.2 = epoch ∧ .finished (.own l.1) ∉ es

theorem begunOf_append (es fs : List EpochEvent) : begunOf (es ++ fs) = begunOf es ++ begunOf fs :=
  List.filterMap_append ..

theorem mem_begunOf {es : List EpochEvent} {lease : LeaseId} {epoch : ℕ} :
    (lease, epoch) ∈ begunOf es ↔ .begun lease epoch ∈ es := by
  simp only [begunOf, List.mem_filterMap]
  constructor
  · rintro ⟨event, hmem, h⟩
    cases event with
    | begun lease' epoch' =>
      obtain ⟨rfl, rfl⟩ := Prod.mk.inj (Option.some.inj h)
      exact hmem
    | _ => cases h
  · intro h
    exact ⟨_, h, rfl⟩

/-- The history tells the active epoch, the last one, and what the table of leases holds. -/
structure TableOf (es : List EpochEvent) (e : OperationEpochs) : Prop where
  active : e.activeEpoch = activeOf es
  increasing : (openedOf es).Pairwise (· < ·)
  last : ∀ epoch ∈ openedOf es, epoch ≤ e.lastEpoch
  begun : begunOf es = e.leases.zipIdx.map fun l => (l.2, l.1.epoch)
  issued : ∀ lease, .finished (.own lease) ∈ es → lease < e.leases.length
  finished : ∀ lease l, e.leases[lease]? = some l → (l.finished = true ↔ .finished (.own lease) ∈ es)

open OperationEpochs

theorem tableOf_create : TableOf [] create where
  active := rfl
  increasing := List.pairwise_singleton _ _
  last := by simp [openedOf, create]
  begun := rfl
  issued := by simp
  finished := by simp [create]

/-- A call that leaves the instance and its history as they are. -/
theorem TableOf.same {es fs : List EpochEvent} {e : OperationEpochs} (h : TableOf es e)
    (hactive : activeOf (es ++ fs) = activeOf es) (hopened : openedOf (es ++ fs) = openedOf es)
    (hbegun : begunOf fs = []) (hfinished : ∀ lease, .finished (.own lease) ∉ fs) : TableOf (es ++ fs) e where
  active := h.active.trans hactive.symm
  increasing := hopened ▸ h.increasing
  last := hopened ▸ h.last
  begun := by rw [begunOf_append, hbegun, List.append_nil, h.begun]
  issued := fun lease hmem => h.issued lease ((List.mem_append.mp hmem).resolve_right (hfinished lease))
  finished := by
    intro lease l hl
    rw [h.finished lease l hl, List.mem_append]
    simp [hfinished lease]

theorem activeOf_append (es : List EpochEvent) (event : EpochEvent) :
    activeOf (es ++ [event]) = activeAfter (activeOf es) event := List.foldl_concat ..

theorem TableOf.begin {es : List EpochEvent} {e e' : OperationEpochs} {lease : LeaseId} {epoch : ℕ}
    (h : TableOf es e) (hbegin : e.begin = .ok (lease, e')) (hactive : e.activeEpoch = some epoch) :
    TableOf (es ++ [.begun lease epoch]) e' := by
  obtain ⟨epoch', hepoch, rfl, hactive', hlast, hleases⟩ := begin_spec hbegin
  obtain rfl := Option.some.inj (hactive.symm.trans hepoch)
  have hopened : openedOf (es ++ [.begun e.leases.length epoch]) = openedOf es := by
    simp [openedOf]
  refine ⟨?_, hopened ▸ h.increasing, ?_, ?_, ?_, ?_⟩
  · rw [activeOf_append, hactive', ← hactive, h.active]
    rfl
  · rw [hopened, hlast]
    exact h.last
  · rw [begunOf_append, h.begun, hleases, List.zipIdx_append, List.map_append]
    simp [begunOf]
  · intro lease hmem
    have hlt := h.issued lease (by simpa using hmem)
    rw [hleases, List.length_append, List.length_singleton]
    exact Nat.lt_succ_of_lt hlt
  · intro (lease : ℕ) l hl
    rw [hleases] at hl
    by_cases hlt : lease < e.leases.length
    · rw [List.getElem?_append_left hlt] at hl
      rw [h.finished lease l hl]
      simp
    · obtain ⟨hbound, -⟩ := List.getElem?_eq_some_iff.mp hl
      rw [List.length_append, List.length_singleton] at hbound
      obtain rfl : lease = e.leases.length := by omega
      obtain rfl : l = ⟨epoch, false⟩ := by simpa using hl.symm
      have hnew : .finished (.own e.leases.length) ∉ es := fun hmem => hlt (h.issued _ hmem)
      simp [hnew]

/-- Finishing marks the lease, once or again. -/
theorem finish_leases (e : OperationEpochs) (lease : LeaseId) :
    (e.finish lease).leases = e.leases.modify lease fun l => { l with finished := true } := by
  unfold OperationEpochs.finish
  apply List.ext_getElem?
  intro i
  rw [List.getElem?_modify]
  split
  · rename_i hnone
    by_cases hi : lease = i
    · simp [← hi, hnone]
    · simp [hi]
  · rename_i owned howned
    split
    · rename_i hfinished
      have hsame : { owned with finished := true } = owned := by
        rw [← hfinished]
      by_cases hi : lease = i
      · rw [← hi, howned]
        simp [hsame]
      · simp [hi]
    · by_cases hi : lease = i
      · dsimp only
        rw [← hi, howned]
        simp [(List.getElem?_eq_some_iff.mp howned).1]
      · simp [hi]

theorem TableOf.finish {es : List EpochEvent} {e : OperationEpochs} {lease : LeaseId} (h : TableOf es e)
    (hissued : lease < e.leases.length) :
    TableOf (es ++ [.finished (.own lease)]) (e.finish lease) := by
  have hopened : openedOf (es ++ [.finished (.own lease)]) = openedOf es := by
    simp [openedOf]
  refine ⟨?_, hopened ▸ h.increasing, ?_, ?_, ?_, ?_⟩
  · rw [activeOf_append, finish_activeEpoch, h.active]
    rfl
  · rw [hopened, finish_lastEpoch]
    exact h.last
  · rw [begunOf_append, h.begun, finish_leases]
    apply List.ext_getElem?
    intro i
    simp only [begunOf, List.filterMap_cons, List.filterMap_nil, List.append_nil, List.getElem?_map,
      List.getElem?_zipIdx, List.getElem?_modify]
    cases e.leases[i]? with
    | none => rfl
    | some l =>
      by_cases hi : lease = i
      · simp [hi]
      · simp [hi]
  · intro lease' hmem
    rw [finish_leases, List.length_modify]
    rcases List.mem_append.mp hmem with hmem | hmem
    · exact h.issued lease' hmem
    · obtain rfl : lease' = lease := by simpa using hmem
      exact hissued
  · intro lease' l hl
    rw [finish_leases, List.getElem?_modify] at hl
    obtain ⟨l', hl', rfl⟩ := Option.map_eq_some_iff.mp hl
    by_cases hi : lease = lease'
    · simp [hi]
    · simp [hi, h.finished lease' l' hl', Ne.symm hi]

theorem tableOf_invalidate {es : List EpochEvent} {e : OperationEpochs} (h : TableOf es e) :
    TableOf (es ++ [.invalidated e.invalidate.1]) e.invalidate.2 where
  active := by rw [activeOf_append]; rfl
  increasing := by simpa [openedOf] using h.increasing
  last := by simpa [openedOf] using h.last
  begun := by
    rw [begunOf_append]
    exact (List.append_nil _).trans h.begun
  issued := fun lease hmem => h.issued lease (by simpa using hmem)
  finished := fun lease l hl => (h.finished lease l hl).trans (by simp)

theorem TableOf.activateNext {es : List EpochEvent} {e e' : OperationEpochs} (h : TableOf es e)
    (hnext : e.activateNext = some e') : TableOf (es ++ [.activated e'.lastEpoch]) e' := by
  obtain ⟨-, hactive, hlast, hleases⟩ := activateNext_spec hnext
  have hopened : openedOf (es ++ [.activated e'.lastEpoch]) = openedOf es ++ [e.lastEpoch + 1] := by
    simp [openedOf, hlast]
  refine ⟨?_, ?_, ?_, ?_, ?_, ?_⟩
  · rw [activeOf_append, hactive, hlast]
    rfl
  · rw [hopened, List.pairwise_append]
    refine ⟨h.increasing, List.pairwise_singleton _ _, fun epoch hmem next hnew => ?_⟩
    have hle := h.last epoch hmem
    rw [List.mem_singleton.mp hnew]
    omega
  · intro epoch hmem
    rw [hopened, List.mem_append, List.mem_singleton] at hmem
    rcases hmem with hmem | rfl
    · have hle := h.last epoch hmem
      omega
    · omega
  · rw [begunOf_append, hleases]
    exact (List.append_nil _).trans h.begun
  · simpa [hleases] using h.issued
  · simpa [hleases] using h.finished

/-! ## Runs -/

/-- The numbers stay exact, and the counter is right. -/
structure Sound (e : OperationEpochs) : Prop where
  counted : e.Counted
  inFlight_le : e.inFlight ≤ maxSafeInteger
  lastEpoch_le : e.lastEpoch ≤ maxSafeInteger

theorem finish_inFlight_le (e : OperationEpochs) (lease : LeaseId) :
    (e.finish lease).inFlight ≤ e.inFlight := by
  unfold OperationEpochs.finish
  split
  · exact Nat.le_refl _
  · split
    · exact Nat.le_refl _
    · dsimp only
      split
      · exact Nat.sub_le ..
      · exact Nat.le_refl _

theorem begin_inFlight_le {e e' : OperationEpochs} {lease : LeaseId} (h : e.begin = .ok (lease, e')) :
    e'.inFlight ≤ maxSafeInteger := by
  unfold OperationEpochs.begin at h
  split at h
  · simp at h
  · split at h
    · simp at h
    · rename_i hlt
      obtain ⟨-, rfl⟩ := Prod.mk.inj (pure_eq_ok.mp h)
      dsimp only
      omega

theorem Sound.activateNext {e e' : OperationEpochs} (h : Sound e) (hnext : e.activateNext = some e') :
    Sound e' := by
  have hcounted := h.counted.activateNext hnext
  unfold OperationEpochs.activateNext at hnext
  split at hnext
  · simp at hnext
  · rename_i hopen
    obtain rfl := Option.some.inj hnext
    simp only [not_or, not_le] at hopen
    exact ⟨hcounted, h.inFlight_le, hopen.2⟩

/-- One call keeps what the history says, and the counter. -/
theorem tableOf_step {es fs : List EpochEvent} {e e' : OperationEpochs} {action : EpochAction}
    (h : TableOf es e ∧ Sound e) (hstep : e.step action = some (e', fs)) :
    TableOf (es ++ fs) e' ∧ Sound e' := by
  obtain ⟨htable, hsound⟩ := h
  have hsame {event : EpochEvent} (hactive : ∀ active, activeAfter active event = active)
      (hopened : openedOf [event] = [1]) (hbegun : begunOf [event] = [])
      (hfinished : ∀ lease, .finished (.own lease) ∉ [event]) :
      TableOf (es ++ [event]) e ∧ Sound e := by
    refine ⟨htable.same ?_ ?_ hbegun hfinished, hsound⟩
    · rw [activeOf_append, hactive]
    · simp only [openedOf, List.cons.injEq, true_and] at hopened
      rw [openedOf, openedOf, List.filterMap_append, hopened, List.append_nil]
  unfold OperationEpochs.step at hstep
  cases action with
  | begin =>
    dsimp only at hstep
    split at hstep
    · rename_i lease e'' epoch hbegin hactive
      obtain ⟨rfl, rfl⟩ := Prod.mk.inj (Option.some.inj hstep)
      obtain ⟨-, -, -, -, hlast, -⟩ := begin_spec hbegin
      exact ⟨htable.begin hbegin hactive, hsound.counted.begin hbegin, begin_inFlight_le hbegin,
        hlast ▸ hsound.lastEpoch_le⟩
    · obtain ⟨rfl, rfl⟩ := Prod.mk.inj (Option.some.inj hstep)
      exact hsame (fun _ => rfl) rfl rfl (by simp)
  | assertCurrent handle =>
    obtain ⟨-, hstep⟩ := Option.ite_none_right_eq_some.mp hstep
    obtain ⟨rfl, rfl⟩ := Prod.mk.inj (Option.some.inj hstep)
    exact hsame (fun _ => rfl) rfl rfl (by simp)
  | finish handle =>
    obtain ⟨hissued, hstep⟩ := Option.ite_none_right_eq_some.mp hstep
    obtain ⟨rfl, rfl⟩ := Prod.mk.inj (Option.some.inj hstep)
    cases handle with
    | own lease =>
      exact ⟨htable.finish hissued, hsound.counted.finish lease,
        (finish_inFlight_le e lease).trans hsound.inFlight_le,
        (finish_lastEpoch (e := e)).symm ▸ hsound.lastEpoch_le⟩
    | foreign value => exact hsame (fun _ => rfl) rfl rfl (by simp)
  | invalidate =>
    obtain ⟨rfl, rfl⟩ := Prod.mk.inj (Option.some.inj hstep)
    exact ⟨tableOf_invalidate htable, counted_invalidate e, Nat.zero_le _, hsound.lastEpoch_le⟩
  | activateNext =>
    dsimp only at hstep
    split at hstep
    · rename_i e'' hnext
      obtain ⟨rfl, rfl⟩ := Prod.mk.inj (Option.some.inj hstep)
      exact ⟨htable.activateNext hnext, hsound.activateNext hnext⟩
    · obtain ⟨rfl, rfl⟩ := Prod.mk.inj (Option.some.inj hstep)
      exact hsame (fun _ => rfl) rfl rfl (by simp)

theorem tableOf_run {es : List EpochEvent} {e : OperationEpochs} (h : EpochRun es e) :
    TableOf es e ∧ Sound e := by
  refine Run.invariant (I := fun es e => TableOf es e ∧ Sound e) h ?_ ?_
  · rintro _ rfl
    exact ⟨tableOf_create, OperationEpochs.counted_create, by decide, by decide⟩
  · rintro es fs e e' - h ⟨action, hstep⟩
    exact tableOf_step h hstep

/-! ## What the history says of the instance -/

section History

variable {es : List EpochEvent} {e : OperationEpochs} (h : TableOf es e)

include h

theorem nodup_begunOf : ((begunOf es).map (·.1)).Nodup := by
  rw [h.begun, List.map_map, show ((·.1) ∘ fun l : LeaseState × ℕ => (l.2, l.1.epoch)) = Prod.snd from rfl,
    List.zipIdx_map_snd]
  exact List.nodup_range'

/-- A lease was begun if the table has it. -/
theorem mem_begunOf_iff {lease : LeaseId} {epoch : ℕ} : .begun lease epoch ∈ es ↔
    ∃ l, e.leases[lease]? = some l ∧ l.epoch = epoch := by
  rw [← mem_begunOf, h.begun, List.mem_map]
  constructor
  · rintro ⟨⟨l, i⟩, hmem, heq⟩
    obtain ⟨rfl, rfl⟩ := Prod.mk.inj heq
    exact ⟨l, List.mem_zipIdx_iff_getElem?.mp hmem, rfl⟩
  · rintro ⟨l, hl, rfl⟩
    exact ⟨(l, lease), List.mem_zipIdx_iff_getElem?.mpr hl, rfl⟩

theorem length_outstanding (epoch : ℕ) : (outstanding es epoch).length = e.unfinished epoch := by
  rw [outstanding, ← List.countP_eq_length_filter, h.begun, List.countP_map, unfinished]
  conv_rhs => rw [← List.zipIdx_map_fst 0 e.leases, List.countP_map]
  refine List.countP_congr fun l hl => ?_
  have hfinished := h.finished l.2 l.1 (List.mem_zipIdx_iff_getElem?.mp hl)
  simp [← hfinished]

theorem assertHandle_iff (handle : Handle) : e.assertHandle handle = .ok () ↔
    ∃ lease epoch, handle = .own lease ∧ .begun lease epoch ∈ es ∧ .finished (.own lease) ∉ es ∧
      activeOf es = some epoch := by
  cases handle with
  | foreign value => simp [OperationEpochs.assertHandle]
  | own lease =>
    rw [OperationEpochs.assertHandle, assertCurrent, require_eq_ok, isCurrent_iff, h.active]
    constructor
    · rintro ⟨epoch, hactive, hl⟩
      have hfinished := h.finished lease _ hl
      exact ⟨lease, epoch, rfl, (mem_begunOf_iff h).mpr ⟨_, hl, rfl⟩, by simpa using hfinished, hactive⟩
    · rintro ⟨_, epoch, heq, hbegun, hunfinished, hactive⟩
      obtain rfl := Handle.own.inj heq
      obtain ⟨⟨epoch', finished⟩, hl, rfl⟩ := (mem_begunOf_iff h).mp hbegun
      have hfinished := h.finished lease _ hl
      obtain rfl : finished = false := by simpa [hunfinished] using hfinished
      exact ⟨epoch', hactive, hl⟩

/-- A lease that was finished is not finished again. -/
theorem finishHandle_of_finished {handle : Handle} (hmem : .finished handle ∈ es) :
    e.finishHandle handle = e := by
  cases handle with
  | foreign value => rfl
  | own lease =>
    have hlt := h.issued lease hmem
    have hl : e.leases[lease]? = some (e.leases[lease]) := List.getElem?_eq_getElem hlt
    have hfinished := (h.finished lease _ hl).mpr hmem
    change e.finish lease = e
    unfold OperationEpochs.finish
    split
    · rfl
    · rename_i owned howned
      obtain rfl := Option.some.inj (hl.symm.trans howned)
      rw [if_pos hfinished]

/-- Finishing a lease of an epoch that is not active does not change the counter. -/
theorem finish_inFlight_of_closed {lease : LeaseId} {epoch : ℕ} (hbegun : .begun lease epoch ∈ es)
    (hclosed : activeOf es ≠ some epoch) : (e.finish lease).inFlight = e.inFlight := by
  obtain ⟨l, hl, rfl⟩ := (mem_begunOf_iff h).mp hbegun
  rw [← h.active] at hclosed
  unfold OperationEpochs.finish
  split
  · rfl
  · rename_i owned howned
    obtain rfl := Option.some.inj (hl.symm.trans howned)
    split
    · rfl
    · rfl

end History

/-- **Operation epochs.** In every run, the counter is the number of leases that were begun in the
active epoch and not finished, zero if none is active; the epochs that were opened have increasing
numbers; the check passes exactly for an unfinished lease of the active epoch that this instance issued;
and finishing a lease again, or after its epoch was closed, does not change the counter. -/
theorem operationEpochs_history {es : List EpochEvent} {e : OperationEpochs} (h : EpochRun es e) :
    (((begunOf es).map (·.1)).Nodup ∧
      e.inFlight = match activeOf es with
        | none => 0
        | some epoch => (outstanding es epoch).length) ∧
    ((openedOf es).Pairwise (· < ·) ∧ e.activeEpoch = activeOf es ∧
      ∀ e', e.activateNext = some e' → ∀ epoch ∈ openedOf es, epoch < e'.lastEpoch) ∧
    (∀ handle, e.assertHandle handle = .ok () ↔
      ∃ lease epoch, handle = .own lease ∧ .begun lease epoch ∈ es ∧ .finished (.own lease) ∉ es ∧
        activeOf es = some epoch) ∧
    (∀ handle, .finished handle ∈ es → e.finishHandle handle = e) ∧
    (∀ handle, e.Issued handle → (e.finishHandle handle).finishHandle handle = e.finishHandle handle) ∧
    ∀ lease epoch, .begun lease epoch ∈ es → activeOf es ≠ some epoch →
      (e.finishHandle (.own lease)).inFlight = e.inFlight := by
  obtain ⟨htable, hsound⟩ := tableOf_run h
  refine ⟨⟨nodup_begunOf htable, ?_⟩, ⟨htable.increasing, htable.active, ?_⟩, assertHandle_iff htable,
    fun handle hmem => finishHandle_of_finished htable hmem, ?_, ?_⟩
  · rw [← htable.active]
    cases hactive : e.activeEpoch with
    | none => exact hsound.counted.closed hactive
    | some epoch =>
      exact (hsound.counted.active epoch hactive).trans (length_outstanding htable epoch).symm
  · intro e' hnext epoch hmem
    obtain ⟨-, -, hlast, -⟩ := activateNext_spec hnext
    have hle := htable.last epoch hmem
    omega
  · intro handle hissued
    have hstep : e.step (.finish handle) = some (e.finishHandle handle, [.finished handle]) := if_pos hissued
    obtain ⟨htable', -⟩ := tableOf_step ⟨htable, hsound⟩ hstep
    exact finishHandle_of_finished htable' (by simp)
  · intro lease epoch hbegun hclosed
    exact finish_inFlight_of_closed htable hbegun hclosed

/-- Two operations, a reset, and an operation after it. -/
def exampleEpochActions : List EpochAction :=
  [.begin, .begin, .finish (.own 0), .invalidate, .begin, .activateNext, .begin, .finish (.own 1),
    .finish (.own 1), .finish (.foreign 7)]

theorem operationEpochs_history_exampleEpochActions : ∃ es e, EpochRun es e ∧ e.inFlight = 1 ∧
    e.assertHandle (.own 2) = .ok () ∧ e.assertHandle (.own 1) ≠ .ok () := by
  obtain ⟨e, es, hrun, hes⟩ : ∃ e es, runAll OperationEpochs.step exampleEpochActions
      OperationEpochs.create [] = some (e, es) ∧ es = [.begun 0 1, .begun 1 1, .finished (.own 0),
        .invalidated 1, .beginRefused, .activated 2, .begun 2 2, .finished (.own 1), .finished (.own 1),
        .finished (.foreign 7)] := ⟨_, _, rfl, rfl⟩
  have hinit : EpochRun [] OperationEpochs.create := .init rfl
  have h : EpochRun es e := hinit.runAll hrun
  obtain ⟨⟨-, hcount⟩, -, hassert, -⟩ := operationEpochs_history h
  refine ⟨es, e, h, ?_, (hassert _).mpr ⟨2, 2, rfl, ?_, ?_, ?_⟩, fun hok => ?_⟩
  · rw [hcount, hes]
    rfl
  · simp [hes]
  · simp [hes]
  · rw [hes]
    rfl
  · obtain ⟨lease, _, heq, -, hunfinished, -⟩ := (hassert _).mp hok
    obtain rfl := Handle.own.inj heq
    exact hunfinished (by simp [hes])

end AgentSig.Profiles
