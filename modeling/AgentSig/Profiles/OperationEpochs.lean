import AgentSig.Profiles.TimePolicy

/-!
# Operation epochs

An operation holds a lease of the epoch in which it began. An epoch is closed by invalidation
and never opened again: the next one has a new number, so a lease that is current was current
ever since it was issued.

## Main definitions

* `OperationEpochs`: the epoch counter and the leases issued
* `begin`, `isCurrent`, `finish`, `invalidate`, `activateNext`: its operations

## Main results

* `isCurrent_iff`: a current lease was issued in the active epoch
* `isCurrent_begin`: a new lease is current
* `begin_continues`, `finish_continues`: operations leave the epoch of every lease as it is
-/

namespace AgentSig.Profiles

open Commons Core StructuredFields

/-- An `OperationLease`: the handle that `begin` issued, by its number. -/
abbrev LeaseId := ℕ

/-- What the map of leases holds for a handle. -/
structure LeaseState where
  epoch : ℕ
  finished : Bool
  deriving DecidableEq, Repr

/-- The state of `createOperationEpochs`. -/
structure OperationEpochs where
  lastEpoch : ℕ
  activeEpoch : Option ℕ
  inFlight : ℕ
  leases : List LeaseState
  /-- The active epoch is the last one. -/
  active_eq : ∀ e ∈ activeEpoch, e = lastEpoch
  /-- No lease is of a later epoch. -/
  leases_le : ∀ l ∈ leases, l.epoch ≤ lastEpoch

/-- The rejection of a closed context. -/
abbrev clockUnavailable : ProfileError := unverified .clockUnavailable

namespace OperationEpochs

/-- `createOperationEpochs`. -/
def create : OperationEpochs := ⟨1, some 1, 0, [], by simp, by simp⟩

variable (e : OperationEpochs) (lease : LeaseId)

/-- `begin`. -/
def begin : Except ProfileError (LeaseId × OperationEpochs) :=
  match h : e.activeEpoch with
  | none => throw clockUnavailable
  | some epoch =>
    if e.inFlight ≥ maxSafeInteger then throw clockUnavailable
    else return (e.leases.length, { e with
      inFlight := e.inFlight + 1
      leases := e.leases ++ [⟨epoch, false⟩]
      leases_le := by
        intro l hl
        rcases List.mem_append.mp hl with hl | hl
        · exact e.leases_le l hl
        · rw [List.mem_singleton.mp hl]
          exact (e.active_eq epoch h).le })

/-- The condition of `assertCurrent`. -/
def isCurrent : Bool :=
  match e.leases[lease]?, e.activeEpoch with
  | some owned, some epoch => !owned.finished && owned.epoch == epoch
  | _, _ => false

/-- `assertCurrent`. -/
def assertCurrent : Except ProfileError Unit := require (e.isCurrent lease) clockUnavailable

/-- `finish`. -/
def finish : OperationEpochs :=
  match h : e.leases[lease]? with
  | none => e
  | some owned =>
    if owned.finished then e
    else { e with
      inFlight := if e.activeEpoch = some owned.epoch then e.inFlight - 1 else e.inFlight
      leases := e.leases.set lease { owned with finished := true }
      leases_le := by
        intro l hl
        rcases List.mem_or_eq_of_mem_set hl with hl | rfl
        · exact e.leases_le l hl
        · exact e.leases_le owned (List.mem_of_getElem? h) }

/-- `invalidate`, with the number of operations it invalidates. -/
def invalidate : ℕ × OperationEpochs :=
  (e.inFlight, { e with activeEpoch := none, inFlight := 0, active_eq := by simp })

/-- `canActivateNext`. -/
def canActivateNext : Bool := e.lastEpoch < maxSafeInteger

/-- `activateNext`, or none if it throws. -/
def activateNext : Option OperationEpochs :=
  if e.activeEpoch ≠ none ∨ maxSafeInteger ≤ e.lastEpoch then none
  else some { e with
    lastEpoch := e.lastEpoch + 1
    activeEpoch := some (e.lastEpoch + 1)
    active_eq := by simp
    leases_le := fun l hl => (e.leases_le l hl).trans (Nat.le_succ _) }

variable {e lease} {e' : OperationEpochs}

/-- What `begin` does. -/
theorem begin_spec (h : e.begin = .ok (lease, e')) :
    ∃ epoch, e.activeEpoch = some epoch ∧ lease = e.leases.length ∧
      e'.activeEpoch = some epoch ∧ e'.lastEpoch = e.lastEpoch ∧
      e'.leases = e.leases ++ [⟨epoch, false⟩] := by
  unfold begin at h
  split at h
  · simp at h
  · rename_i epoch hactive
    split at h
    · simp at h
    · obtain ⟨rfl, rfl⟩ := Prod.mk.inj (pure_eq_ok.mp h)
      exact ⟨epoch, hactive, rfl, hactive, rfl, rfl⟩

/-- A lease is current while its epoch is active and it is not finished. -/
theorem isCurrent_iff : e.isCurrent lease ↔
    ∃ epoch, e.activeEpoch = some epoch ∧ e.leases[lease]? = some ⟨epoch, false⟩ := by
  unfold isCurrent
  cases hl : e.leases[lease]? with
  | none => simp
  | some owned =>
    cases ha : e.activeEpoch with
    | none => simp
    | some epoch =>
      obtain ⟨epoch', finished⟩ := owned
      simp [and_comm]

/-- A new lease is current. -/
theorem isCurrent_begin (h : e.begin = .ok (lease, e')) : e'.isCurrent lease := by
  obtain ⟨epoch, -, rfl, hactive, -, hleases⟩ := begin_spec h
  exact isCurrent_iff.mpr ⟨epoch, hactive, by simp [hleases]⟩

@[simp] theorem finish_activeEpoch : (e.finish lease).activeEpoch = e.activeEpoch := by
  unfold finish
  split
  · rfl
  · split <;> rfl

@[simp] theorem finish_lastEpoch : (e.finish lease).lastEpoch = e.lastEpoch := by
  unfold finish
  split
  · rfl
  · split <;> rfl

@[simp] theorem invalidate_activeEpoch : e.invalidate.2.activeEpoch = none := rfl

@[simp] theorem invalidate_lastEpoch : e.invalidate.2.lastEpoch = e.lastEpoch := rfl

/-- The epochs are as they were, and so is the epoch of every lease that was issued. -/
structure Continues (e e' : OperationEpochs) : Prop where
  activeEpoch : e'.activeEpoch = e.activeEpoch
  lastEpoch : e'.lastEpoch = e.lastEpoch
  leases : ∀ (lease : LeaseId) (l : LeaseState), e.leases[lease]? = some l →
    ∃ l', e'.leases[lease]? = some l' ∧ l'.epoch = l.epoch

theorem Continues.refl (e : OperationEpochs) : Continues e e := ⟨rfl, rfl, fun _ l h => ⟨l, h, rfl⟩⟩

theorem Continues.trans {e'' : OperationEpochs} (h : Continues e e') (h' : Continues e' e'') :
    Continues e e'' := by
  refine ⟨h'.activeEpoch.trans h.activeEpoch, h'.lastEpoch.trans h.lastEpoch, fun lease l hl => ?_⟩
  obtain ⟨l', hl', hepoch⟩ := h.leases lease l hl
  obtain ⟨l'', hl'', hepoch'⟩ := h'.leases lease l' hl'
  exact ⟨l'', hl'', hepoch'.trans hepoch⟩

/-- A current lease stays current until its operation is finished. -/
theorem Continues.isCurrent_or (h : Continues e e') (hcurrent : e.isCurrent lease) :
    e'.isCurrent lease ∨ ∃ l, e'.leases[lease]? = some l ∧ l.finished := by
  obtain ⟨epoch, hactive, hlease⟩ := isCurrent_iff.mp hcurrent
  obtain ⟨⟨epoch', finished⟩, hl, rfl⟩ := h.leases lease _ hlease
  cases finished with
  | true => exact .inr ⟨_, hl, rfl⟩
  | false => exact .inl (isCurrent_iff.mpr ⟨epoch', h.activeEpoch.trans hactive, hl⟩)

theorem begin_continues (h : e.begin = .ok (lease, e')) : Continues e e' := by
  obtain ⟨epoch, hactive, -, hactive', hlast, hleases⟩ := begin_spec h
  refine ⟨hactive'.trans hactive.symm, hlast, fun lease l hl => ⟨l, ?_, rfl⟩⟩
  rw [hleases, List.getElem?_append_left (List.getElem?_eq_some_iff.mp hl).1, hl]

theorem finish_continues (e : OperationEpochs) (lease : LeaseId) : Continues e (e.finish lease) := by
  refine ⟨finish_activeEpoch, finish_lastEpoch, fun lease' l hl => ?_⟩
  unfold finish
  split
  · exact ⟨l, hl, rfl⟩
  · rename_i owned howned
    split
    · exact ⟨l, hl, rfl⟩
    · rw [List.getElem?_set]
      split
      · rename_i heq
        subst heq
        obtain rfl := Option.some.inj (howned.symm.trans hl)
        exact ⟨_, if_pos (List.getElem?_eq_some_iff.mp hl).1, rfl⟩
      · exact ⟨l, hl, rfl⟩

/-- What `activateNext` does. -/
theorem activateNext_spec (h : e.activateNext = some e') :
    e.activeEpoch = none ∧ e'.activeEpoch = some (e.lastEpoch + 1) ∧
      e'.lastEpoch = e.lastEpoch + 1 ∧ e'.leases = e.leases := by
  unfold activateNext at h
  split at h
  · simp at h
  · rename_i hclosed
    obtain rfl := Option.some.inj h
    exact ⟨by_contra fun ha => hclosed (.inl ha), rfl, rfl, rfl⟩

end OperationEpochs

end AgentSig.Profiles
