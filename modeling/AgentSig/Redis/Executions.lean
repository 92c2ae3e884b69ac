import AgentSig.Redis.Documents

/-!
# Executions on documents

An execution without a history starts a quarantine. On a document it starts one where the time has
regressed or the records conflict; otherwise it checks and inserts an identity, or only replies.

## Main definitions

* `Document.verdict`: what an execution does on a document
* `Inserts`: what a verdict to insert says
* `Holds`, `Effect`: what the keys hold, and what an execution does to it

## Main results

* `execute_missing`, `execute_written`: an execution without a history, and on a document
* `execute_effect`: what an execution does to what the keys hold
-/

namespace AgentSig.Redis

open Commons Core Profiles StructuredFields

/-! ## Verdicts -/

/-- What an execution does on a document. -/
inductive Verdict
  | start
  | reply (reply : ScriptReply)
  | insert (duration : ℕ)
  deriving DecidableEq, Repr

namespace Document

variable (d : Document) (a : Arguments) (c : Admission)

/-- The verdict on an identity, once the quarantine is over. -/
def consumeVerdict (duration : ℕ) : Verdict :=
  if ∃ r ∈ d.live c.now, r.identity = a.identity then .reply .replayed
  else if c.quota ≤ (d.live c.now).countP (·.thumbprint = a.thumbprint) then
    .reply .perKeyQuotaExceeded
  else if c.capacity ≤ (d.live c.now).length then .reply .unavailable
  else .insert duration

/-- The verdict on a document. -/
def verdict : Verdict :=
  if c.deadlineBase < d.lastTime then .start
  else if d.horizon ≠ c.horizon ∨ d.capacity ≠ c.capacity ∨ d.quota ≠ c.quota then
    .reply .configurationMismatch
  else if ∃ r ∈ d.records, Conflicts a c r then .start
  else if c.now < d.untilTime then .reply .quarantine
  else
    match c.duration with
    | none => .reply .ready
    | some duration => d.consumeVerdict a c duration

end Document

/-! ## Executions -/

section Executions

variable {a : Arguments} {t : Time} {c : Admission} {d : Document}

theorem decimal_injective : Function.Injective decimal := by
  intro m n h
  rw [← readDigits_decimal m, h, readDigits_decimal]

theorem quarantineState_eq (h : Admits a t c) : quarantineState a c = (Document.started a c).state := by
  simp [quarantineState, Document.state, Document.header, Document.started, Document.untilTime,
    h.horizon, h.capacity, h.quota]

/-- The header of a valid document holds plain texts. -/
theorem header_plain (hepoch : validEpoch d.epoch) (huntil : d.untilTime ≤ MAX)
    (hdetected : d.detectedAt ≤ MAX) (hlast : d.lastTime ≤ MAX) (hcapacity : d.capacity ≤ MAX_RECORDS)
    (hquota : d.quota ≤ MAX_RECORDS) :
    ∀ t ∈ [d.state.version, d.state.epoch, d.state.quarantineUntil, d.state.detectedAt,
      d.state.lastTime, d.state.horizon, d.state.capacity, d.state.quota],
      Json.Plain t ∧ t.length ≤ 32 := by
  have hdigits : ∀ n, n ≤ MAX → Json.Plain (decimal n) ∧ (decimal n).length ≤ 32 := fun n hn =>
    ⟨plain_decimal n, (length_decimal_le hn).trans (by omega)⟩
  have hhorizon : d.horizon ≤ MAX := (Nat.le_add_left _ _).trans huntil
  have hversion : Json.Plain (ascii "1") ∧ (ascii "1").length ≤ 32 := by decide
  simp only [List.forall_mem_cons, List.not_mem_nil, false_implies, implies_true, and_true]
  refine ⟨hversion, ⟨?_, (length_of_validEpoch hepoch).le⟩, hdigits _ huntil, hdigits _ hdetected,
    hdigits _ hlast, hdigits _ hhorizon, hdigits _ (hcapacity.trans (by decide)),
    hdigits _ (hquota.trans (by decide))⟩
  simp only [validEpoch, Bool.decide_and, Bool.and_eq_true, decide_eq_true_eq] at hepoch
  exact plain_of_lowerHex hepoch.2

/-- The document of a new quarantine is valid. -/
theorem started_valid (h : Admits a t c) : (Document.started a c).Valid := by
  have hbase : c.deadlineBase ≤ MAX := (Nat.le_add_right _ _).trans h.horizon_le
  refine ⟨h.epoch, h.positive, h.horizon_le, le_rfl, hbase, h.capacity_le, h.quota_le, by
    simp [Document.started], by simp [Document.started], by simp [Document.started], ?_⟩
  have hheader := header_plain (d := .started a c) h.epoch h.horizon_le hbase hbase h.capacity_le
    h.quota_le
  have hlength := length_encode_le (k := 0) hheader
    (by simp [Document.state, Document.started])
  exact hlength.trans (by simp [Document.state, Document.started, MAX_BYTES])

/-- A new quarantine is always saved. -/
theorem save_quarantineState (h : Admits a t c) :
    save (quarantineState a c) = some (written (Document.started a c).state) := by
  rw [quarantineState_eq h, save, if_pos (started_valid h).fits]

/-- A history with a key missing. -/
def Keys.Missing (keys : Keys) : Prop :=
  keys.epoch = none ∨ keys.quarantineUntil = none ∨ keys.state = none

theorem readState_missing {keys : Keys} {deadlineBase : ℕ} (h : keys.Missing) :
    readState deadlineBase keys = none := by
  by_contra hne
  obtain ⟨s, hs⟩ := Option.ne_none_iff_exists'.mp hne
  obtain ⟨_, hepoch, hs⟩ := Option.bind_eq_some_iff.mp hs
  obtain ⟨_, huntil, hs⟩ := Option.bind_eq_some_iff.mp hs
  obtain ⟨_, hstate, -⟩ := Option.bind_eq_some_iff.mp hs
  rcases h with h | h | h
  · simp [h, readKey] at hepoch
  · simp [h, readKey] at huntil
  · simp [h, readKey] at hstate

/-- Where a key is missing, every admitted execution starts a quarantine. -/
theorem execute_missing {keys : Keys} (hkeys : keys.Missing) (h : admission a t = some c) :
    execute a t keys = ⟨written (Document.started a c).state, .quarantine, true⟩ := by
  simp only [execute, h, decision, readState_missing hkeys, save_quarantineState (admit_eq_some h)]

/-- The decision on a document whose records have been scanned. -/
theorem scannedDecision_document (hd : d.Valid) :
    scannedDecision a c d.stored (d.scan a c) =
      if c.now < d.untilTime then .reply .quarantine
      else
        match c.duration with
        | none => .reply .ready
        | some duration =>
          match d.consumeVerdict a c duration with
          | .start => .quarantine
          | .reply reply => .reply reply
          | .insert duration => .insert (d.insert a c duration).state := by
  obtain ⟨hcount, hlive, hkey, hreplayed⟩ :=
    foldl_add (a := a) (c := c) d.records ⟨0, [], [], 0, false⟩
  rw [← Document.scan] at hcount hlive hkey hreplayed
  have hlength : ¬ d.capacity < (d.scan a c).recordCount := by
    have := hd.length
    rw [hcount, Nat.zero_add]
    omega
  have huntil : d.stored.untilTime = d.untilTime := rfl
  rw [scannedDecision, if_neg (show ¬ d.stored.capacity < _ from hlength), huntil]
  split
  · rfl
  · cases hduration : c.duration with
    | none => rfl
    | some duration =>
      have hany : (d.scan a c).replayed = true ↔ ∃ r ∈ d.live c.now, r.identity = a.identity := by
        simp [hreplayed, hduration, Document.live, and_assoc]
      have hcountP : (d.scan a c).forKey =
          (d.live c.now).countP (·.thumbprint = a.thumbprint) := by
        simp [hkey, hduration, Document.live]
      have hlen : (d.scan a c).live.length = (d.live c.now).length := by
        simp [hlive, Document.live]
      simp only [consumeDecision, Document.consumeVerdict, hany, hcountP, hlen]
      split
      · rfl
      · split
        · rfl
        · split
          · rfl
          · simp [Document.state, Document.insert, Document.header, Document.stored, hlive,
              Document.live, DocumentRecord.record, Document.untilTime]

/-- The decision on a document. -/
theorem decision_written (hd : d.Valid) (h : Admits a t c) :
    decision a c (written d.state) =
      match d.verdict a c with
      | .start => .quarantine
      | .reply reply => .reply reply
      | .insert duration => .insert (d.insert a c duration).state := by
  unfold decision Document.verdict
  rw [readState_written hd]
  by_cases htime : d.lastTime ≤ c.deadlineBase
  · have hconfiguration : (d.stored.header.horizon ≠ a.horizon ∨
        d.stored.header.capacity ≠ a.capacity ∨ d.stored.header.quota ≠ a.quota) ↔
        (d.horizon ≠ c.horizon ∨ d.capacity ≠ c.capacity ∨ d.quota ≠ c.quota) := by
      simp only [Document.stored, Document.header, h.horizon, h.capacity, h.quota, ne_eq,
        decimal_injective.eq_iff]
    simp only [if_pos htime, if_neg (not_lt.mpr htime), hconfiguration, scanRecords_document hd]
    split
    · rfl
    · rename_i hsame
      by_cases hconflict : ∃ r ∈ d.records, Conflicts a c r
      · simp only [if_pos hconflict]
      · simp only [if_neg hconflict, scannedDecision_document hd]
        split
        · rfl
        · cases c.duration <;> rfl
  · simp only [if_neg htime, if_pos (not_le.mp htime)]

/-- An execution on a document. -/
theorem execute_written (hd : d.Valid) (h : admission a t = some c) :
    execute a t (written d.state) =
      match d.verdict a c with
      | .start => ⟨written (Document.started a c).state, .quarantine, true⟩
      | .reply reply => ⟨written d.state, reply, false⟩
      | .insert duration =>
        if (d.insert a c duration).state.encode.length ≤ MAX_BYTES then
          ⟨written (d.insert a c duration).state, .accepted, false⟩
        else ⟨written d.state, .unavailable, false⟩ := by
  have hadmits := admit_eq_some h
  simp only [execute, h, decision_written hd hadmits]
  cases d.verdict a c with
  | start => simp only [save_quarantineState hadmits]
  | reply reply => rfl
  | insert duration =>
    by_cases hfits : (d.insert a c duration).state.encode.length ≤ MAX_BYTES
    · simp only [save, if_pos hfits]
    · simp only [save, if_neg hfits]

/-- What a verdict to insert says. -/
structure Inserts (d : Document) (a : Arguments) (c : Admission) (duration : ℕ) : Prop where
  time : d.lastTime ≤ c.deadlineBase
  configuration : d.horizon = c.horizon ∧ d.capacity = c.capacity ∧ d.quota = c.quota
  passed : d.untilTime ≤ c.now
  duration : c.duration = some duration
  fresh : ∀ r ∈ d.live c.now, r.identity ≠ a.identity
  room : (d.live c.now).length < d.capacity

theorem inserts_of_verdict {duration : ℕ} (h : d.verdict a c = .insert duration) :
    Inserts d a c duration := by
  unfold Document.verdict at h
  split at h
  · simp at h
  · rename_i htime
    split at h
    · simp at h
    · rename_i hconfiguration
      simp only [ne_eq, not_or, not_not] at hconfiguration
      split at h
      · simp at h
      · split at h
        · simp at h
        · rename_i hover
          split at h
          · simp at h
          · rename_i duration' hduration
            unfold Document.consumeVerdict at h
            split at h
            · simp at h
            · rename_i hfresh
              split at h
              · simp at h
              · split at h
                · simp at h
                · rename_i hroom
                  obtain rfl := Verdict.insert.inj h
                  refine ⟨not_lt.mp htime, hconfiguration, not_lt.mp hover, hduration,
                    fun r hr heq => hfresh ⟨r, hr, heq⟩, ?_⟩
                  rw [hconfiguration.2.1]
                  exact not_le.mp hroom

/-- A document with a record inserted is valid, if it is not too long. -/
theorem insert_valid {duration : ℕ} (hd : d.Valid) (h : Admits a t c)
    (hinserts : Inserts d a c duration)
    (hfits : (d.insert a c duration).state.encode.length ≤ MAX_BYTES) :
    (d.insert a c duration).Valid := by
  obtain ⟨-, hidentity, hthumbprint, -, -, hdeadline⟩ := h.consume duration hinserts.duration
  have hbase : c.deadlineBase ≤ MAX := (Nat.le_add_right _ _).trans h.horizon_le
  refine ⟨hd.epoch, hd.positive, hd.untilTime, hd.detected.trans hinserts.time, hbase, hd.capacity,
    hd.quota, fun r hr => ?_, ?_, ?_, hfits⟩
  · rcases List.mem_append.mp hr with hr | hr
    · exact hd.records r (List.mem_of_mem_filter hr)
    · obtain rfl := List.mem_singleton.mp hr
      exact ⟨hidentity, hthumbprint, hdeadline⟩
  · rw [Document.insert, List.map_append, List.map_singleton]
    refine List.Nodup.append (hd.distinct.sublist (List.filter_sublist.map _))
      (List.nodup_singleton _) (List.disjoint_singleton.mpr fun hmem => ?_)
    obtain ⟨r, hr, heq⟩ := List.mem_map.mp hmem
    exact hinserts.fresh r hr heq
  · rw [Document.insert, List.length_append, List.length_singleton]
    exact hinserts.room

/-- The keys hold a document, or a key is missing. -/
def Holds (keys : Keys) : Option Document → Prop
  | none => keys.Missing
  | some d => keys = written d.state ∧ d.Valid

/-- What an execution does: it starts a quarantine, it inserts a record, or it keeps a document. -/
inductive Effect (a : Arguments) (c : Admission) :
    Option Document → Option Document → ScriptReply → Bool → Prop
  | start {held : Option Document} :
    Effect a c held (some (.started a c)) .quarantine true
  | insert {d : Document} {duration : ℕ} : Inserts d a c duration →
    Effect a c (some d) (some (d.insert a c duration)) .accepted false
  | keep {d : Document} {reply : ScriptReply} : reply ≠ .accepted →
    Effect a c (some d) (some d) reply false

theorem consumeVerdict_ne {duration : ℕ} : d.consumeVerdict a c duration ≠ .start ∧
    d.consumeVerdict a c duration ≠ .reply .accepted := by
  unfold Document.consumeVerdict
  split
  · simp
  · split
    · simp
    · split <;> simp

theorem verdict_ne_accepted : d.verdict a c ≠ .reply .accepted := by
  unfold Document.verdict
  split
  · simp
  · split
    · simp
    · split
      · simp
      · split
        · simp
        · split
          · simp
          · exact consumeVerdict_ne.2

/-- Every admitted execution goes from what the keys hold to what they hold then. -/
theorem execute_effect {keys : Keys} {held : Option Document} (hkeys : Holds keys held)
    (h : admission a t = some c) :
    ∃ held', Holds (execute a t keys).keys held' ∧
      Effect a c held held' (execute a t keys).reply (execute a t keys).started := by
  have hadmits := admit_eq_some h
  cases held with
  | none =>
    rw [execute_missing hkeys h]
    exact ⟨some (.started a c), ⟨rfl, started_valid hadmits⟩, .start⟩
  | some d =>
    obtain ⟨rfl, hd⟩ := hkeys
    rw [execute_written hd h]
    cases hverdict : d.verdict a c with
    | start => exact ⟨some (.started a c), ⟨rfl, started_valid hadmits⟩, .start⟩
    | reply reply =>
      have hreply : reply ≠ .accepted := by
        rintro rfl
        exact verdict_ne_accepted hverdict
      exact ⟨some d, ⟨rfl, hd⟩, .keep hreply⟩
    | insert duration =>
      have hinserts := inserts_of_verdict hverdict
      by_cases hfits : (d.insert a c duration).state.encode.length ≤ MAX_BYTES
      · simp only [if_pos hfits]
        exact ⟨some (d.insert a c duration), ⟨rfl, insert_valid hd hadmits hinserts hfits⟩,
          .insert hinserts⟩
      · simp only [if_neg hfits]
        exact ⟨some d, ⟨rfl, hd⟩, .keep (by simp)⟩

/-- Arguments that are not admitted are refused. -/
theorem execute_refused {keys : Keys} (h : admission a t = none) :
    execute a t keys = ⟨keys, .unavailable, false⟩ := by
  simp only [execute, h]

/-- An execution that neither accepts nor starts a quarantine leaves the keys as they are. -/
theorem execute_unchanged {keys : Keys} (hreply : (execute a t keys).reply ≠ .accepted)
    (hstarted : (execute a t keys).started = false) : (execute a t keys).keys = keys := by
  unfold execute at *
  split at hreply
  · simp
  · split at hreply
    · simp
    · split at hreply
      · simp_all
      · simp_all
    · split at hreply
      · simp_all
      · simp_all

end Executions

end AgentSig.Redis
