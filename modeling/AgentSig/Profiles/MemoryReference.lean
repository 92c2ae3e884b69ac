import AgentSig.Profiles.ReplayStore
import Mathlib.Data.List.Nodup

/-!
# The owned store and a plain list of records

The owned store skips the scan for expired records while its watermark says that there is none, and
counts the records of each key as it goes. A reference that keeps a plain list of tuples, and counts
it whenever it has to, answers every sequence of calls alike.

## Main definitions

* `ReferenceStore`: the list of tuples, with its `consume` and `clear`
* `Counts`: counters that agree with the records
* `Consistent`: the invariant of the owned store
* `Represents`: the owned store holds the tuples of the reference

## Main results

* `consume_represents`: one call is answered alike, and keeps the invariant
* `memory_refines_reference`: **every sequence of calls is answered alike**
-/

namespace AgentSig.Profiles

open Commons Core StructuredFields

/-! ## The reference -/

/-- A tuple of the reference. -/
structure ReferenceRecord where
  scope : Text
  keyThumbprint : Text
  nonce : Text
  retainUntil : ℤ
  deriving DecidableEq, Repr

/-- The tuples, and the second of the last input that was not refused as invalid. -/
structure ReferenceStore where
  records : List ReferenceRecord
  lastNow : ℤ
  deriving DecidableEq, Repr

namespace ReferenceStore

/-- No tuples. -/
def empty : ReferenceStore := ⟨[], 0⟩

/-- The tuple of an input. -/
def recordOf (input : ReplayConsumeInput) : ReferenceRecord :=
  ⟨input.scope, input.keyThumbprint, input.nonce, input.retainUntilEpochSeconds⟩

/-- The identity of a tuple. -/
def identityOf (r : ReferenceRecord) : ReplayIdentity := (r.scope, r.keyThumbprint, r.nonce)

/-- The decision on an input, over the tuples that are live at its second. -/
def decide (policy : ReplayPolicy) (live : List ReferenceRecord) (input : ReplayConsumeInput) :
    List ReferenceRecord × StoreOutcome :=
  if live.any (identityOf · = input.identity) then (live, .replayed)
  else if policy.maxPerKey ≤ live.countP (·.keyThumbprint = input.keyThumbprint) then
    (live, .perKeyQuotaExceeded)
  else if policy.capacity ≤ live.length then (live, .unavailable)
  else (live ++ [recordOf input], .accepted)

/-- A call with an input. -/
def consume (policy : ReplayPolicy) (limits : ReplayLimits) (r : ReferenceStore)
    (input : UntrustedInput) : ReferenceStore × StoreOutcome :=
  match input.read with
  | none => (r, .unavailable)
  | some input =>
    if !MemoryReplayStore.validInput limits input || input.nowEpochSeconds < r.lastNow then
      (r, .unavailable)
    else
      let live := r.records.filter fun record => !(record.retainUntil ≤ input.nowEpochSeconds)
      let decision := decide policy live input
      (⟨decision.1, input.nowEpochSeconds⟩, decision.2)

end ReferenceStore

/-! ## Sequences of calls -/

/-- A call of the owned store, or of its reset port. -/
inductive MemoryCall
  | consume (input : UntrustedInput)
  | clear

/-- The outcome of a call; a clearance has none. -/
abbrev CallOutcome := Option StoreOutcome

section Calls

variable (policy : ReplayPolicy) (limits : ReplayLimits)

/-- A call of the owned store. -/
def MemoryReplayStore.call (s : MemoryReplayStore) : MemoryCall → MemoryReplayStore × CallOutcome
  | .consume input =>
    ((s.consumeUntrusted policy limits input).1, some (s.consumeUntrusted policy limits input).2)
  | .clear => (s.clear.1, none)

/-- A call of the reference. -/
def ReferenceStore.call (r : ReferenceStore) : MemoryCall → ReferenceStore × CallOutcome
  | .consume input => ((r.consume policy limits input).1, some (r.consume policy limits input).2)
  | .clear => (.empty, none)

/-- The state and the outcomes of the owned store after some calls. -/
def MemoryReplayStore.calls (s : MemoryReplayStore) :
    List MemoryCall → MemoryReplayStore × List CallOutcome
  | [] => (s, [])
  | call :: rest =>
    let answer := s.call policy limits call
    let answers := answer.1.calls rest
    (answers.1, answer.2 :: answers.2)

/-- The state and the outcomes of the reference after some calls. -/
def ReferenceStore.calls (r : ReferenceStore) : List MemoryCall → ReferenceStore × List CallOutcome
  | [] => (r, [])
  | call :: rest =>
    let answer := r.call policy limits call
    let answers := answer.1.calls rest
    (answers.1, answer.2 :: answers.2)

end Calls

/-! ## Watermarks and counters -/

namespace MemoryReplayStore

variable {policy : ReplayPolicy} {limits : ReplayLimits} {s : MemoryReplayStore}
  {entries : List (Text × ReplayEntry)} {perKey : List (Text × ℕ)} {nextExpiry : Option ℤ}
  {now deadline : ℤ} {key key' : Text}

/-- The watermark is not after a deadline. -/
def NotAfter (nextExpiry : Option ℤ) (deadline : ℤ) : Prop := ∃ x, nextExpiry = some x ∧ x ≤ deadline

theorem notAfter_earlier (nextExpiry : Option ℤ) (deadline : ℤ) :
    NotAfter (earlier nextExpiry deadline) deadline := by
  cases nextExpiry with
  | none => exact ⟨deadline, rfl, le_rfl⟩
  | some x => exact ⟨_, rfl, min_le_right _ _⟩

theorem NotAfter.earlier (h : NotAfter nextExpiry deadline) (other : ℤ) :
    NotAfter (MemoryReplayStore.earlier nextExpiry other) deadline := by
  obtain ⟨x, rfl, hx⟩ := h
  exact ⟨_, rfl, (min_le_left _ _).trans hx⟩

/-- The number of records of a key. -/
def recordsOf (entries : List (Text × ReplayEntry)) (key : Text) : ℕ :=
  entries.countP (·.2.keyThumbprint = key)

theorem recordsOf_cons (e : Text × ReplayEntry) (entries : List (Text × ReplayEntry)) (key : Text) :
    recordsOf (e :: entries) key =
      recordsOf entries key + if e.2.keyThumbprint = key then 1 else 0 := by
  simp [recordsOf, List.countP_cons]

/-- The counter of a key. -/
def counter (perKey : List (Text × ℕ)) (key : Text) : ℕ := (OrderedMap.lookup perKey key).getD 0

/-- Counters of different keys, none of them zero. -/
structure Counters (perKey : List (Text × ℕ)) : Prop where
  nodup : (perKey.map (·.1)).Nodup
  positive : ∀ p ∈ perKey, p.2 ≠ 0

theorem counter_set (n : ℕ) :
    counter (OrderedMap.set perKey key n) key' = if key = key' then n else counter perKey key' := by
  rw [counter, OrderedMap.lookup_set]
  split <;> rfl

theorem Counters.set (h : Counters perKey) {n : ℕ} (hn : n ≠ 0) :
    Counters (OrderedMap.set perKey key n) := by
  refine ⟨OrderedMap.nodup_keys_set h.nodup key n, fun p hp => ?_⟩
  rcases OrderedMap.mem_set hp with hp | rfl
  · exact h.positive p hp
  · exact hn

theorem counter_release : counter (release perKey key) key' =
    if key = key' then counter perKey key - 1 else counter perKey key' := by
  unfold release
  simp only
  split
  · rename_i hzero
    rw [counter, OrderedMap.lookup_filter_ne]
    split
    · exact hzero.symm
    · rfl
  · exact counter_set _

theorem Counters.release (h : Counters perKey) : Counters (release perKey key) := by
  unfold MemoryReplayStore.release
  simp only
  split
  · exact ⟨h.nodup.sublist (List.filter_sublist.map _), fun p hp =>
      h.positive p (List.mem_of_mem_filter hp)⟩
  · rename_i hpositive
    exact h.set hpositive

/-! ## Expiry -/

/-- A record is live at a second. -/
def isLive (now : ℤ) (e : Text × ReplayEntry) : Bool := !(e.2.retainUntil ≤ now)

/-- The loop keeps the live records. -/
theorem expireLoop_entries :
    (expireLoop now entries perKey nextExpiry).1 = entries.filter (isLive now) := by
  induction entries generalizing perKey nextExpiry with
  | nil => rfl
  | cons e entries ih =>
    obtain ⟨identity, entry⟩ := e
    rw [expireLoop]
    split
    · rename_i hexpired
      rw [ih, List.filter_cons_of_neg (by simpa [isLive] using hexpired)]
    · rename_i hlive
      rw [List.filter_cons_of_pos (by simpa [isLive] using hlive), ← ih]

/-- The loop's watermark is not after the watermark it starts with, and no deadline it keeps. -/
theorem expireLoop_notAfter :
    (∀ d, NotAfter nextExpiry d → NotAfter (expireLoop now entries perKey nextExpiry).2.2 d) ∧
      ∀ e ∈ (expireLoop now entries perKey nextExpiry).1,
        NotAfter (expireLoop now entries perKey nextExpiry).2.2 e.2.retainUntil := by
  induction entries generalizing perKey nextExpiry with
  | nil => exact ⟨fun _ h => h, by simp [expireLoop]⟩
  | cons e entries ih =>
    obtain ⟨identity, entry⟩ := e
    rw [expireLoop]
    split
    · exact ih
    · obtain ⟨hkept, hnew⟩ := @ih perKey (earlier nextExpiry entry.retainUntil)
      refine ⟨fun d hd => hkept d (hd.earlier _), fun e he => ?_⟩
      rcases List.mem_cons.mp he with rfl | he
      · exact hkept _ (notAfter_earlier _ _)
      · exact hnew e he

/-- The loop's counters count the records it keeps, on top of those counted before. -/
theorem expireLoop_counters {before : Text → ℕ} (hcounters : Counters perKey)
    (h : ∀ key, counter perKey key = before key + recordsOf entries key) :
    Counters (expireLoop now entries perKey nextExpiry).2.1 ∧
      ∀ key, counter (expireLoop now entries perKey nextExpiry).2.1 key =
        before key + recordsOf (expireLoop now entries perKey nextExpiry).1 key := by
  induction entries generalizing perKey nextExpiry before with
  | nil => exact ⟨hcounters, h⟩
  | cons e entries ih =>
    obtain ⟨identity, entry⟩ := e
    rw [expireLoop]
    split
    · refine ih hcounters.release fun key => ?_
      have hkey := h key
      have hentry := h entry.keyThumbprint
      rw [recordsOf_cons] at hkey hentry
      rw [counter_release]
      simp only [if_true] at hentry
      split
      · rename_i heq
        subst heq
        omega
      · rename_i hne
        simp only [if_neg hne] at hkey
        omega
    · obtain ⟨hcounters', hcount⟩ := @ih perKey (earlier nextExpiry entry.retainUntil)
        (fun key => before key + if entry.keyThumbprint = key then 1 else 0) hcounters fun key => by
          rw [h, recordsOf_cons, Nat.add_assoc, Nat.add_comm (recordsOf entries key)]
      refine ⟨hcounters', fun key => ?_⟩
      simp only [hcount key, recordsOf_cons]
      omega

/-! ## The invariant -/

/-- The invariant of the owned store. -/
structure Consistent (policy : ReplayPolicy) (s : MemoryReplayStore) : Prop where
  identities : (s.entries.map (·.1)).Nodup
  /-- The watermark is a lower bound of the deadlines. -/
  watermark : ∀ e ∈ s.entries, NotAfter s.nextExpiry e.2.retainUntil
  /-- There is one counter for each key that has records, and none is zero. -/
  counters : Counters s.perKey
  /-- The counters count the records. -/
  counts : ∀ key, counter s.perKey key = recordsOf s.entries key
  capacity : s.entries.length ≤ policy.capacity

theorem consistent_empty (policy : ReplayPolicy) : Consistent policy empty :=
  ⟨List.nodup_nil, by simp [empty], ⟨List.nodup_nil, by simp [empty]⟩, fun _ => rfl, Nat.zero_le _⟩

/-- The second of the last input does not matter for the invariant. -/
theorem Consistent.withLastNow (h : Consistent policy s) (lastNow : ℤ) :
    Consistent policy { s with lastNow } :=
  ⟨h.identities, h.watermark, h.counters, h.counts, h.capacity⟩

/-- Expiry keeps the live records, whether it scans or not. -/
theorem expire_entries (h : Consistent policy s) :
    (s.expire now).entries = s.entries.filter (isLive now) := by
  unfold expire
  split
  · rename_i hskip
    refine (List.filter_eq_self.mpr fun e he => ?_).symm
    obtain ⟨x, hx, hle⟩ := h.watermark e he
    have hlt := hskip x hx
    simp only [isLive, Bool.not_eq_true', decide_eq_false_iff_not, not_le]
    omega
  · exact expireLoop_entries

/-- Expiry keeps the invariant. -/
theorem Consistent.expire (h : Consistent policy s) : Consistent policy (s.expire now) := by
  have hentries : (s.expire now).entries = s.entries.filter (isLive now) := expire_entries h
  have hsub : (s.expire now).entries.Sublist s.entries := hentries ▸ List.filter_sublist
  have hcapacity := hsub.length_le.trans h.capacity
  have hnodup := h.identities.sublist (hsub.map _)
  unfold MemoryReplayStore.expire at hcapacity hnodup ⊢
  split
  · exact h
  · rename_i hscan
    rw [if_neg hscan] at hcapacity hnodup
    obtain ⟨hcounters, hcounts⟩ := @expireLoop_counters s.entries s.perKey none now (fun _ => 0)
      h.counters fun key => by rw [h.counts, Nat.zero_add]
    exact ⟨hnodup, expireLoop_notAfter.2, hcounters,
      fun key => (hcounts key).trans (Nat.zero_add _), hcapacity⟩

/-- The decision of `consume` keeps the invariant, and no decision but an acceptance changes a record. -/
theorem insert_consistent (h : Consistent policy s) (input : ReplayConsumeInput) :
    Consistent policy (s.insert policy input).1 ∧
      ((s.insert policy input).2 ≠ .accepted → (s.insert policy input).1 = s) := by
  unfold insert
  simp only
  split
  · exact ⟨h, fun _ => rfl⟩
  · rename_i hnone
    split
    · exact ⟨h, fun _ => rfl⟩
    · split
      · exact ⟨h, fun _ => rfl⟩
      · rename_i hroom
        have hnew : identityText input.identity ∉ s.entries.map (·.1) := fun hmem =>
          hnone (OrderedMap.lookup_isSome.mpr hmem)
        refine ⟨⟨OrderedMap.nodup_keys_set h.identities _ _, fun e he => ?_, ?_, fun key => ?_, ?_⟩,
          fun hrefused => absurd rfl hrefused⟩
        · rcases OrderedMap.mem_set he with he | rfl
          · exact (h.watermark e he).earlier _
          · exact notAfter_earlier _ _
        · exact h.counters.set (Nat.succ_ne_zero _)
        · rw [counter_set, OrderedMap.set_of_notMem hnew, recordsOf, List.countP_append,
            List.countP_singleton, ← recordsOf]
          have hcounts := h.counts
          unfold counter at hcounts
          split
          · rename_i heq
            simp [heq, hcounts]
          · rename_i hne
            simp [hne, counter, hcounts]
        · rw [OrderedMap.set_of_notMem hnew, List.length_append, List.length_singleton]
          omega

/-- One call keeps the invariant. -/
theorem Consistent.call (h : Consistent policy s) (call : MemoryCall) :
    Consistent policy (s.call policy limits call).1 := by
  cases call with
  | clear => exact consistent_empty policy
  | consume input =>
    simp only [MemoryReplayStore.call, consumeUntrusted]
    split
    · unfold MemoryReplayStore.consume
      split
      · exact (insert_consistent (h.withLastNow _).expire _).1
      · exact h
    · exact h

/-- A replay keeps every record that is live, and leaves it as it is. -/
theorem record_of_replayed (h : Consistent policy s) {input : UntrustedInput}
    (hreplayed : (s.consumeUntrusted policy limits input).2 = .replayed) :
    ∃ i, input.read = some i ∧ ∀ identity entry,
      (s.consumeUntrusted policy limits input).1.record identity = some entry ↔
        s.record identity = some entry ∧ i.nowEpochSeconds < entry.retainUntil := by
  unfold consumeUntrusted at hreplayed ⊢
  split at hreplayed
  · rename_i i hread
    refine ⟨i, hread, fun identity entry => ?_⟩
    unfold MemoryReplayStore.consume at hreplayed ⊢
    split at hreplayed
    · rename_i hvalid
      have hconsistent : Consistent policy
          ({ s with lastNow := i.nowEpochSeconds }.expire i.nowEpochSeconds) :=
        (h.withLastNow _).expire
      have hsame := (insert_consistent hconsistent i).2 (by rw [hreplayed]; simp)
      simp only [if_pos hvalid, hsame]
      constructor
      · intro hrecord
        have hmem := OrderedMap.mem_of_lookup hrecord
        rw [expire_entries (h.withLastNow _)] at hmem
        obtain ⟨hmem, hlive⟩ := List.mem_filter.mp hmem
        exact ⟨OrderedMap.lookup_of_mem h.identities hmem, by simpa [isLive] using hlive⟩
      · rintro ⟨hrecord, hlive⟩
        exact record_expire (s := { s with lastNow := i.nowEpochSeconds }) hrecord hlive
    · simp at hreplayed
  · simp at hreplayed

end MemoryReplayStore

/-! ## The refinement -/

section Refinement

variable {policy : ReplayPolicy} {limits : ReplayLimits} {s : MemoryReplayStore} {r : ReferenceStore}

/-- The entry of a tuple. -/
def ReferenceRecord.entry (x : ReferenceRecord) : Text × ReplayEntry :=
  (identityText (ReferenceStore.identityOf x), ⟨x.keyThumbprint, x.retainUntil⟩)

/-- The owned store holds the tuples of the reference. -/
structure Represents (s : MemoryReplayStore) (r : ReferenceStore) : Prop where
  lastNow : s.lastNow = r.lastNow
  entries : s.entries = r.records.map ReferenceRecord.entry

/-- An identity is held exactly when its tuple is. -/
theorem lookup_entries (records : List ReferenceRecord) (identity : ReplayIdentity) :
    (OrderedMap.lookup (records.map ReferenceRecord.entry) (identityText identity)).isSome =
      records.any (ReferenceStore.identityOf · = identity) := by
  rw [Bool.eq_iff_iff, OrderedMap.lookup_isSome]
  simp [ReferenceRecord.entry, identityText_injective.eq_iff]

theorem recordsOf_entries (records : List ReferenceRecord) (key : Text) :
    MemoryReplayStore.recordsOf (records.map ReferenceRecord.entry) key =
      records.countP (·.keyThumbprint = key) := by
  rw [MemoryReplayStore.recordsOf, List.countP_map]
  rfl

/-- The decisions on one input agree. -/
theorem insert_represents (hconsistent : s.Consistent policy) (h : Represents s r)
    (input : ReplayConsumeInput) :
    (s.insert policy input).2 = (ReferenceStore.decide policy r.records input).2 ∧
      Represents (s.insert policy input).1
        ⟨(ReferenceStore.decide policy r.records input).1, r.lastNow⟩ := by
  have hheld := lookup_entries r.records input.identity
  have hcount : (OrderedMap.lookup s.perKey input.keyThumbprint).getD 0 =
      r.records.countP (·.keyThumbprint = input.keyThumbprint) := by
    rw [← recordsOf_entries, ← h.entries]
    exact hconsistent.counts _
  have hlength : s.entries.length = r.records.length := by rw [h.entries, List.length_map]
  rw [← h.entries] at hheld
  unfold MemoryReplayStore.insert ReferenceStore.decide
  simp only [hheld, hcount, hlength]
  split
  · exact ⟨rfl, h⟩
  · rename_i hnone
    split
    · exact ⟨rfl, h⟩
    · split
      · exact ⟨rfl, h⟩
      · refine ⟨rfl, h.lastNow, ?_⟩
        have hnew : identityText input.identity ∉ s.entries.map (·.1) := fun hmem =>
          hnone (hheld ▸ OrderedMap.lookup_isSome.mpr hmem)
        refine (OrderedMap.set_of_notMem hnew _).trans ?_
        rw [h.entries, List.map_append]
        rfl

/-- One call is answered alike. -/
theorem call_represents (hconsistent : s.Consistent policy) (h : Represents s r) (call : MemoryCall) :
    (s.call policy limits call).2 = (r.call policy limits call).2 ∧
      Represents (s.call policy limits call).1 (r.call policy limits call).1 := by
  cases call with
  | clear => exact ⟨rfl, rfl, rfl⟩
  | consume input =>
    simp only [MemoryReplayStore.call, ReferenceStore.call, MemoryReplayStore.consumeUntrusted,
      ReferenceStore.consume, Option.some.injEq]
    cases input.read with
    | none => exact ⟨rfl, h⟩
    | some input =>
      have hvalid : (s.valid limits input = true) ↔
          ¬ (!MemoryReplayStore.validInput limits input || input.nowEpochSeconds < r.lastNow) = true := by
        simp [MemoryReplayStore.valid, h.lastNow]
      simp only [MemoryReplayStore.consume]
      by_cases hv : s.valid limits input = true
      · rw [if_pos hv, if_neg (hvalid.mp hv)]
        have hconsistent' := hconsistent.withLastNow input.nowEpochSeconds
        have hlive : Represents
            ({ s with lastNow := input.nowEpochSeconds }.expire input.nowEpochSeconds)
            ⟨r.records.filter fun x => !(x.retainUntil ≤ input.nowEpochSeconds),
              input.nowEpochSeconds⟩ := by
          refine ⟨MemoryReplayStore.expire_lastNow, ?_⟩
          rw [MemoryReplayStore.expire_entries hconsistent', h.entries, List.filter_map]
          rfl
        exact insert_represents hconsistent'.expire hlive input
      · rw [if_neg hv, if_pos (by_contra fun hneg => hv (hvalid.mpr hneg))]
        exact ⟨rfl, h⟩

/-- Every sequence of calls of the owned store, and of its reset port, is answered as the reference
answers it. In every state that is reached, the watermark is a lower bound of the retained deadlines,
the counters count the records of their keys and none is zero, the records are within the capacity, and
a replay leaves every live record as it is. -/
theorem memory_refines_reference (policy : ReplayPolicy) (limits : ReplayLimits)
    (calls : List MemoryCall) :
    (MemoryReplayStore.empty.calls policy limits calls).2 =
        (ReferenceStore.empty.calls policy limits calls).2 ∧
      (MemoryReplayStore.empty.calls policy limits calls).1.Consistent policy ∧
      ∀ input, ((MemoryReplayStore.empty.calls policy limits calls).1.consumeUntrusted policy limits
          input).2 = .replayed → ∃ i, input.read = some i ∧ ∀ identity entry,
        ((MemoryReplayStore.empty.calls policy limits calls).1.consumeUntrusted policy limits
          input).1.record identity = some entry ↔
        (MemoryReplayStore.empty.calls policy limits calls).1.record identity = some entry ∧
          i.nowEpochSeconds < entry.retainUntil := by
  have hcalls : ∀ s r, s.Consistent policy → Represents s r →
      (s.calls policy limits calls).2 = (r.calls policy limits calls).2 ∧
        (s.calls policy limits calls).1.Consistent policy := by
    induction calls with
    | nil => exact fun s r hconsistent _ => ⟨rfl, hconsistent⟩
    | cons call rest ih =>
      intro s r hconsistent h
      obtain ⟨houtcome, hrepresents⟩ : (s.call policy limits call).2 = (r.call policy limits call).2 ∧
          Represents (s.call policy limits call).1 (r.call policy limits call).1 :=
        call_represents hconsistent h call
      obtain ⟨houtcomes, hconsistent'⟩ := ih _ _ (hconsistent.call call) hrepresents
      exact ⟨by rw [MemoryReplayStore.calls, ReferenceStore.calls, houtcome, houtcomes], hconsistent'⟩
  obtain ⟨houtcomes, hconsistent⟩ :=
    hcalls .empty .empty (MemoryReplayStore.consistent_empty policy) ⟨rfl, rfl⟩
  exact ⟨houtcomes, hconsistent, fun input => MemoryReplayStore.record_of_replayed hconsistent⟩

end Refinement

end AgentSig.Profiles
