import AgentSig.Redis.Encoding

/-!
# Documents

What the script writes is the encoding of a document: an epoch, the detection of a loss and its
horizon, the last time that was observed, one configuration, and records with distinct identities.
A document is read back as it was written, unless the time has regressed.

## Main definitions

* `Document`, `Document.Valid`: documents
* `Document.state`: the state that the script writes of a document
* `Document.started`, `Document.insert`: a new quarantine, and an inserted record
* `Admits`: what admission says of arguments

## Main results

* `readState_written`: a valid document is read back
* `scanRecords_document`: the loop over the records of a document
-/

namespace AgentSig.Redis

open Commons Core Profiles StructuredFields

/-! ## Documents -/

/-- A record of a document. -/
structure DocumentRecord where
  identity : Text
  thumbprint : Text
  deadline : ℕ
  deriving DecidableEq, Repr

/-- A record that the script accepts. -/
structure DocumentRecord.Valid (r : DocumentRecord) : Prop where
  identity : validIdentity r.identity
  thumbprint : validThumbprint r.thumbprint
  deadline : r.deadline ≤ MAX

/-- The record as the script writes it. -/
def DocumentRecord.record (r : DocumentRecord) : ReplayRecord :=
  ⟨r.identity, r.thumbprint, decimal r.deadline⟩

/-- A document. -/
structure Document where
  epoch : Text
  detectedAt : ℕ
  lastTime : ℕ
  horizon : ℕ
  capacity : ℕ
  quota : ℕ
  records : List DocumentRecord
  deriving DecidableEq, Repr

namespace Document

/-- The end of the quarantine. -/
def untilTime (d : Document) : ℕ := d.detectedAt + d.horizon

/-- The fields of the state but for the records. -/
def header (d : Document) : ReplayHeader where
  version := ascii "1"
  epoch := d.epoch
  quarantineUntil := decimal d.untilTime
  detectedAt := decimal d.detectedAt
  lastTime := decimal d.lastTime
  horizon := decimal d.horizon
  capacity := decimal d.capacity
  quota := decimal d.quota

/-- The state as the script writes it. -/
def state (d : Document) : ReplayState :=
  { d.header with records := d.records.map DocumentRecord.record }

/-- A document that the script accepts, as long as the time does not regress. -/
structure Valid (d : Document) : Prop where
  epoch : validEpoch d.epoch
  positive : 0 < d.horizon
  untilTime : d.untilTime ≤ MAX
  detected : d.detectedAt ≤ d.lastTime
  lastTime : d.lastTime ≤ MAX
  capacity : d.capacity ≤ MAX_RECORDS
  quota : d.quota ≤ MAX_RECORDS
  records : ∀ r ∈ d.records, r.Valid
  distinct : (d.records.map (·.identity)).Nodup
  length : d.records.length ≤ d.capacity
  fits : d.state.encode.length ≤ MAX_BYTES

/-- The records that are live. -/
def live (d : Document) (now : ℕ) : List DocumentRecord := d.records.filter (now < ·.deadline)

/-- The document of a new quarantine. -/
def started (a : Arguments) (c : Admission) : Document where
  epoch := a.proposedEpoch
  detectedAt := c.deadlineBase
  lastTime := c.deadlineBase
  horizon := c.horizon
  capacity := c.capacity
  quota := c.quota
  records := []

/-- The document with a record inserted. -/
def insert (d : Document) (a : Arguments) (c : Admission) (duration : ℕ) : Document :=
  { d with
    lastTime := c.deadlineBase
    records := d.live c.now ++ [⟨a.identity, a.thumbprint, c.deadlineBase + duration⟩] }

/-- A document, read. -/
def stored (d : Document) : StoredState where
  header := d.header
  untilTime := d.untilTime
  detectedAt := d.detectedAt
  lastTime := d.lastTime
  horizon := d.horizon
  capacity := d.capacity
  quota := d.quota
  records := decodedRecords (d.records.map DocumentRecord.record)

end Document

/-! ## Admission -/

/-- What admission says of the arguments, and of `TIME`. -/
structure Admits (a : Arguments) (t : Time) (c : Admission) : Prop where
  horizon : a.horizon = decimal c.horizon
  capacity : a.capacity = decimal c.capacity
  quota : a.quota = decimal c.quota
  positive : 0 < c.horizon
  capacity_le : c.capacity ≤ MAX_RECORDS
  quota_le : c.quota ≤ MAX_RECORDS
  epoch : validEpoch a.proposedEpoch
  now : (c.now : ℤ) = t.now
  deadlineBase : (c.deadlineBase : ℤ) = t.deadlineBase
  horizon_le : c.deadlineBase + c.horizon ≤ MAX
  setup : c.duration = none → a.mode = ascii "setup"
  consume : ∀ duration, c.duration = some duration →
    a.mode = ascii "consume" ∧ validIdentity a.identity ∧ validThumbprint a.thumbprint ∧
      a.duration = decimal duration ∧ 0 < duration ∧ c.deadlineBase + duration ≤ MAX

section Admission

variable {a : Arguments} {t : Time} {c : Admission}

theorem admitMode_eq_some {mode : Option ℕ} (h : admitMode a = some mode) :
    (mode = none → a.mode = ascii "setup") ∧ ∀ duration, mode = some duration →
      a.mode = ascii "consume" ∧ validIdentity a.identity ∧ validThumbprint a.thumbprint ∧
        a.duration = decimal duration ∧ 0 < duration := by
  unfold admitMode at h
  split at h
  · rename_i hmode
    obtain rfl := Option.some.inj h
    exact ⟨fun _ => hmode, by simp⟩
  · simp only [Option.bind_eq_bind, Option.bind_eq_some_iff, Option.guard_eq_some', Option.pure_def,
      Option.some.injEq] at h
    obtain ⟨duration, hduration, _, ⟨hmode, hidentity, hthumbprint, hpositive⟩, rfl⟩ := h
    refine ⟨by simp, fun duration' hd => ?_⟩
    obtain rfl := Option.some.inj hd
    exact ⟨hmode, hidentity, hthumbprint, (integer_eq_some.mp hduration).1, hpositive⟩

theorem admit_eq_some (h : admission a t = some c) : Admits a t c := by
  simp only [admission, Option.bind_eq_bind, Option.bind_eq_some_iff, Option.guard_eq_some', Option.pure_def,
    Option.some.injEq] at h
  obtain ⟨horizon, hhorizon, capacity, hcapacity, quota, hquota, _,
    ⟨hpositive, hcapacity', hquota', hepoch⟩, duration, hmode, _, ⟨hnow, -, hfits, hduration⟩, rfl⟩ := h
  obtain ⟨hsetup, hconsume⟩ := admitMode_eq_some hmode
  have hbase : ((t.deadlineBase.toNat : ℕ) : ℤ) = t.deadlineBase :=
    Int.toNat_of_nonneg (hnow.trans t.now_le_deadlineBase)
  refine ⟨(integer_eq_some.mp hhorizon).1, (integer_eq_some.mp hcapacity).1,
    (integer_eq_some.mp hquota).1, hpositive, hcapacity', hquota', hepoch, Int.toNat_of_nonneg hnow,
    hbase, by simp only; omega, hsetup, fun duration hd => ?_⟩
  obtain ⟨hmode, hidentity, hthumbprint, htext, hpos⟩ := hconsume duration hd
  have := hduration duration hd
  exact ⟨hmode, hidentity, hthumbprint, htext, hpos, by simp only; omega⟩

theorem Admits.now_le (h : Admits a t c) : c.now ≤ c.deadlineBase := by
  have := t.now_le_deadlineBase
  have := h.now
  have := h.deadlineBase
  omega

end Admission

/-! ## Reading -/

section Reading

variable {d : Document} {deadlineBase : ℕ}

theorem length_decimal_le {n : ℕ} (h : n ≤ MAX) : (decimal n).length ≤ 16 :=
  (length_decimal_le_iff (by omega)).mpr (lt_of_le_of_lt h (by decide))

theorem length_of_validEpoch {epoch : Text} (h : validEpoch epoch) : epoch.length = 32 := by
  simp only [validEpoch, Bool.decide_and, Bool.and_eq_true, decide_eq_true_eq] at h
  exact h.1

theorem readKey_string {α : Type} {length : α → ℕ} {limit : ℕ} {value : α}
    (h : length value ≤ limit) : readKey length limit (some (.string value)) = some value :=
  if_pos h

theorem readHeader_decoded (d : Document) : readHeader d.state.decoded = some d.header := rfl

/-- A document is read back as it was written, unless the time has regressed. -/
theorem readState_written (h : d.Valid) :
    readState deadlineBase (written d.state) =
      if d.lastTime ≤ deadlineBase then some d.stored else none := by
  have hepoch : (d.epoch).length ≤ 64 := by
    rw [length_of_validEpoch h.epoch]
    omega
  have huntil : (decimal d.untilTime).length ≤ 64 := (length_decimal_le h.untilTime).trans (by omega)
  have hdetected : d.detectedAt ≤ MAX := h.detected.trans h.lastTime
  have hhorizon : d.horizon ≤ MAX := (Nat.le_add_left _ _).trans h.untilTime
  have hcapacity : d.capacity ≤ MAX := h.capacity.trans (by decide)
  have hquota : d.quota ≤ MAX := h.quota.trans (by decide)
  have hkeys : readKey List.length 64 (written d.state).epoch = some d.epoch ∧
      readKey List.length 64 (written d.state).quarantineUntil = some (decimal d.untilTime) ∧
      readKey EncodedState.length MAX_BYTES (written d.state).state =
        some ⟨d.state.encode.length, some d.state.decoded⟩ :=
    ⟨readKey_string hepoch, readKey_string huntil, readKey_string h.fits⟩
  simp only [readState, hkeys, readHeader_decoded, Option.bind_eq_bind, Option.bind_some]
  have hheader : d.header.version = ascii "1" ∧ validEpoch d.epoch ∧ d.header.epoch = d.epoch ∧
      d.header.quarantineUntil = decimal d.untilTime := ⟨rfl, h.epoch, rfl, rfl⟩
  simp only [hheader, and_self, guard_true, Option.pure_def, Option.bind_some, Document.header,
    integer_decimal h.untilTime, integer_decimal hdetected, integer_decimal h.lastTime,
    integer_decimal hhorizon, integer_decimal hcapacity, integer_decimal hquota]
  by_cases htime : d.lastTime ≤ deadlineBase
  · simp [guard, h.positive, h.capacity, h.quota, h.detected, htime, Document.stored,
      Document.header, ReplayState.decoded, Document.state,
      show d.detectedAt + d.horizon ≤ MAX from h.untilTime, Document.untilTime]
  · simp [guard, htime]

end Reading

/-! ## The loop over the records -/

section Records

variable {a : Arguments} {c : Admission} {s : Scan} {r : DocumentRecord}

/-- A live record of the own identity, under another thumbprint. -/
def Conflicts (a : Arguments) (c : Admission) (r : DocumentRecord) : Prop :=
  c.now < r.deadline ∧ c.duration.isSome ∧ r.identity = a.identity ∧ r.thumbprint ≠ a.thumbprint

instance : DecidablePred (Conflicts a c) := fun _ => inferInstanceAs (Decidable (_ ∧ _))

/-- One round of the loop, on a record that does not conflict. -/
def Scan.add (a : Arguments) (c : Admission) (s : Scan) (r : DocumentRecord) : Scan where
  recordCount := s.recordCount + 1
  identities := r.identity :: s.identities
  live := if c.now < r.deadline then s.live ++ [r.record] else s.live
  forKey := if c.now < r.deadline ∧ c.duration.isSome ∧ r.thumbprint = a.thumbprint then s.forKey + 1
    else s.forKey
  replayed := s.replayed || (c.now < r.deadline ∧ c.duration.isSome ∧ r.identity = a.identity)

theorem scanRecord_record (hr : r.Valid) (hcount : s.recordCount < MAX_RECORDS)
    (hnew : r.identity ∉ s.identities) :
    scanRecord a c s (some r.record.decoded) =
      if Conflicts a c r then none else some (s.add a c r) := by
  have hadmitted : s.recordCount + 1 ≤ MAX_RECORDS ∧ validIdentity r.identity ∧
      validThumbprint r.thumbprint ∧ r.identity ∉ s.identities :=
    ⟨hcount, hr.identity, hr.thumbprint, hnew⟩
  simp only [scanRecord, ReplayRecord.decoded, DocumentRecord.record, Option.bind_eq_bind,
    Option.bind_some, integer_decimal hr.deadline, hadmitted, not_false_eq_true, and_self,
    guard_true, Option.pure_def]
  by_cases hlive : c.now < r.deadline
  · by_cases hown : c.duration.isSome ∧ r.identity = a.identity
    · by_cases hkey : r.thumbprint = a.thumbprint
      · simp [hlive, hown, hkey, Conflicts, guard, Scan.add, DocumentRecord.record]
      · simp [hlive, hown, hkey, Conflicts, guard]
    · have hconflict : ¬ Conflicts a c r := fun h => hown ⟨h.2.1, h.2.2.1⟩
      simp [hlive, hown, hconflict, guard, Scan.add, DocumentRecord.record]
  · have hconflict : ¬ Conflicts a c r := fun h => hlive h.1
    simp [hlive, hconflict, Scan.add]

/-- The loop goes through the records, unless one conflicts. -/
theorem foldlM_scanRecord {records : List DocumentRecord} (hvalid : ∀ r ∈ records, r.Valid)
    (hcount : s.recordCount + records.length ≤ MAX_RECORDS)
    (hdistinct : (records.map (·.identity)).Nodup)
    (hnew : ∀ r ∈ records, r.identity ∉ s.identities) :
    (records.map fun r => some r.record.decoded).foldlM (scanRecord a c) s =
      if ∃ r ∈ records, Conflicts a c r then none else some (records.foldl (Scan.add a c) s) := by
  induction records generalizing s with
  | nil => simp
  | cons r records ih =>
    obtain ⟨hr, hvalid⟩ := List.forall_mem_cons.mp hvalid
    obtain ⟨hrnew, hnew⟩ := List.forall_mem_cons.mp hnew
    rw [List.map_cons, List.nodup_cons] at hdistinct
    rw [List.length_cons] at hcount
    rw [List.map_cons, List.foldlM_cons, scanRecord_record hr (by omega) hrnew, List.foldl_cons]
    by_cases hconflict : Conflicts a c r
    · simp [hconflict]
    · rw [if_neg hconflict, Option.bind_eq_bind, Option.bind_some, ih hvalid
        (by simp only [Scan.add]; omega) hdistinct.2 fun r' hr' => ?_]
      · simp [hconflict]
      · rw [Scan.add, List.mem_cons, not_or]
        refine ⟨fun heq => hdistinct.1 ?_, hnew r' hr'⟩
        exact heq ▸ List.mem_map_of_mem hr'

/-- What the loop computes of some records. -/
theorem foldl_add (records : List DocumentRecord) (s : Scan) :
    (records.foldl (Scan.add a c) s).recordCount = s.recordCount + records.length ∧
      (records.foldl (Scan.add a c) s).live =
        s.live ++ (records.filter (c.now < ·.deadline)).map DocumentRecord.record ∧
      (records.foldl (Scan.add a c) s).forKey = s.forKey + (records.filter (c.now < ·.deadline)).countP
        (fun r => c.duration.isSome ∧ r.thumbprint = a.thumbprint) ∧
      (records.foldl (Scan.add a c) s).replayed = (s.replayed ||
        (records.filter (c.now < ·.deadline)).any
          fun r => c.duration.isSome ∧ r.identity = a.identity) := by
  induction records generalizing s with
  | nil => simp
  | cons r records ih =>
    obtain ⟨hcount, hlive, hkey, hreplayed⟩ := ih (s.add a c r)
    rw [List.foldl_cons, hcount, hlive, hkey, hreplayed]
    by_cases h : c.now < r.deadline
    · refine ⟨?_, ?_, ?_, ?_⟩
      · simp only [Scan.add, List.length_cons]
        omega
      · simp [Scan.add, h]
      · by_cases hk : c.duration.isSome ∧ r.thumbprint = a.thumbprint
        · simp only [Scan.add, h, hk, and_self, if_true, decide_true, List.filter_cons_of_pos,
            List.countP_cons_of_pos]
          omega
        · simp only [Scan.add, h, hk, and_false, if_false, decide_true, List.filter_cons_of_pos,
            decide_false, Bool.false_eq_true, not_false_eq_true, List.countP_cons_of_neg]
      · simp [Scan.add, h, Bool.or_assoc]
    · refine ⟨?_, ?_, ?_, ?_⟩
      · simp only [Scan.add, List.length_cons]
        omega
      · simp [Scan.add, h]
      · simp [Scan.add, h]
      · simp [Scan.add, h]

/-- The scan of a document. -/
def Document.scan (d : Document) (a : Arguments) (c : Admission) : Scan :=
  d.records.foldl (Scan.add a c) ⟨0, [], [], 0, false⟩

/-- The loop over the records of a document. -/
theorem scanRecords_document {d : Document} (h : d.Valid) :
    scanRecords a c d.stored.records =
      if ∃ r ∈ d.records, Conflicts a c r then none else some (d.scan a c) := by
  have hcount : d.records.length ≤ MAX_RECORDS := h.length.trans h.capacity
  have hloop := foldlM_scanRecord (a := a) (c := c) (s := ⟨0, [], [], 0, false⟩) h.records
    (by simpa using hcount) h.distinct (by simp)
  rw [Document.stored, Document.scan]
  cases hrecords : d.records with
  | nil => simp [decodedRecords, scanRecords]
  | cons r records =>
    rw [hrecords] at hloop
    rw [List.map_cons, decodedRecords, scanRecords, ← hloop, List.map_cons, List.map_cons,
      List.map_map]
    · rfl
    · simp

end Records

end AgentSig.Redis
