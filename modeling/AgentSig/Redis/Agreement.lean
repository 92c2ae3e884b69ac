import AgentSig.Profiles.MemoryReference
import AgentSig.Redis.Stability

/-!
# The agreement of the two stores

At whole seconds that do not decrease, after the quarantine of an unused namespace, the Redis store
answers as the owned memory store does. The live records of the document are those of the reference,
in the same order, with their deadlines in milliseconds.

## Main definitions

* `redisConsume`, `redisCalls`: consuming with the Redis store, whose replies all arrive
* `Agrees`: the document holds the live records of the reference

## Main results

* `admit_consume`: an input within the range of the script is admitted
* `execute_agrees`: one call is answered alike
* `stores_agree`: **every sequence of calls is answered alike**
-/

namespace AgentSig.Redis

open Commons Core Profiles StructuredFields

/-- The outcome of a reply. -/
def storeOutcome : ScriptReply → StoreOutcome
  | .accepted => .accepted
  | .replayed => .replayed
  | .perKeyQuotaExceeded => .perKeyQuotaExceeded
  | _ => .unavailable

/-- `consume` of the Redis store, if the reply arrives. -/
def redisConsume (configuration : RedisReplayConfiguration) (input : UntrustedInput)
    (bytes : List UInt8) (t : Time) (keys : Keys) : Keys × StoreOutcome :=
  match prepareRedisConsume input with
  | none => (keys, .unavailable)
  | some record =>
    let execution := execute (argumentsFor configuration "consume" (some record) bytes) t keys
    (execution.keys, storeOutcome execution.reply)

/-- A call of a store: the input, and the octets of the proposed epoch. -/
structure StoreCall where
  input : ReplayConsumeInput
  bytes : List UInt8

/-- The keys and the outcomes after some calls, each at the second of its input. -/
def redisCalls (configuration : RedisReplayConfiguration) (keys : Keys) :
    List StoreCall → Keys × List StoreOutcome
  | [] => (keys, [])
  | call :: rest =>
    let answer := redisConsume configuration (untrustedInput call.input) call.bytes
      ⟨call.input.nowEpochSeconds, 0⟩ keys
    let answers := redisCalls configuration answer.1 rest
    (answers.1, answer.2 :: answers.2)

/-! ## Admission -/

section Admission

variable {configuration : RedisReplayConfiguration} {bytes : List UInt8} {t : Time}

/-- The admission of an adapter. -/
def RedisReplayConfiguration.admission (configuration : RedisReplayConfiguration)
    (duration : Option ℕ) (t : Time) : Admission :=
  ⟨duration, configuration.recoveryMilliseconds, configuration.capacity, configuration.maxPerKey,
    t.now.toNat, t.deadlineBase.toNat⟩

/-- What an adapter sends within the range of the script is admitted. -/
theorem admit_argumentsFor {mode : String} {record : Option RedisConsumeRecord} {duration : Option ℕ}
    (hmode : admitMode (argumentsFor configuration mode record bytes) = some duration)
    (hbytes : bytes.length = 16) (hnow : 0 ≤ t.now)
    (hhorizon : t.deadlineBase + configuration.recoveryMilliseconds ≤ MAX)
    (hduration : ∀ d ∈ duration, t.deadlineBase + (d : ℕ) ≤ MAX) :
    admission (argumentsFor configuration mode record bytes) t =
      some (configuration.admission duration t) := by
  obtain ⟨hpositive, hrecovery⟩ := configuration.recovery
  obtain ⟨hcapacity, hquota⟩ := configuration.bounded
  have hintegers : integer (decimal configuration.recoveryMilliseconds) =
        some configuration.recoveryMilliseconds ∧
      integer (decimal configuration.capacity) = some configuration.capacity ∧
      integer (decimal configuration.maxPerKey) = some configuration.maxPerKey :=
    ⟨integer_decimal hrecovery, integer_decimal (hcapacity.trans (by decide)),
      integer_decimal (hquota.trans (by decide))⟩
  have hpolicy : 0 < configuration.recoveryMilliseconds ∧ configuration.capacity ≤ MAX_RECORDS ∧
      configuration.maxPerKey ≤ MAX_RECORDS ∧ validEpoch (hexText bytes) :=
    ⟨hpositive, hcapacity, hquota, validEpoch_hexText hbytes⟩
  have hrange : 0 ≤ t.now ∧ t.deadlineBase ≤ MAX ∧
      (configuration.recoveryMilliseconds : ℤ) ≤ MAX - t.deadlineBase ∧
      ∀ d ∈ duration, (d : ℤ) ≤ MAX - t.deadlineBase :=
    ⟨hnow, by omega, by omega, fun d hd => by have := hduration d hd; omega⟩
  refine Option.bind_eq_some_iff.mpr ⟨_, hintegers.1, ?_⟩
  refine Option.bind_eq_some_iff.mpr ⟨_, hintegers.2.1, ?_⟩
  refine Option.bind_eq_some_iff.mpr ⟨_, hintegers.2.2, ?_⟩
  refine Option.bind_eq_some_iff.mpr ⟨(), (Option.guard_eq_some' ()).mpr hpolicy, ?_⟩
  refine Option.bind_eq_some_iff.mpr ⟨_, hmode, ?_⟩
  exact Option.bind_eq_some_iff.mpr ⟨(), (Option.guard_eq_some' ()).mpr hrange, rfl⟩

/-- An input within the range of the script is admitted. -/
theorem admit_consume {input : UntrustedInput} {record : RedisConsumeRecord}
    (hrecord : prepareRedisConsume input = some record) (hbytes : bytes.length = 16)
    (hnow : 0 ≤ t.now) (hhorizon : t.deadlineBase + configuration.recoveryMilliseconds ≤ MAX)
    (hduration : t.deadlineBase + record.durationMilliseconds ≤ MAX) :
    admission (argumentsFor configuration "consume" (some record) bytes) t =
      some (configuration.admission record.durationMilliseconds t) := by
  obtain ⟨i, -, hprepared⟩ := prepareRedisConsume_eq_some hrecord
  have hmode : ascii "consume" ≠ ascii "setup" := by decide
  have hidentity : validIdentity record.identity := by
    rw [hprepared.identity]
    exact validIdentity_encodeIdentity hprepared.valid
  have hthumbprint : validThumbprint record.thumbprint := by
    rw [hprepared.thumbprint]
    exact validThumbprint_of_valid (validInput_iff.mp hprepared.valid).2.2.2.1
  have hdecimal : integer (decimal record.durationMilliseconds) =
    some record.durationMilliseconds := integer_decimal hprepared.safe
  refine admit_argumentsFor ?_ hbytes hnow hhorizon (by simpa using hduration)
  simp [admitMode, argumentsFor, hmode, hdecimal, hidentity, hthumbprint, hprepared.positive, guard]

end Admission

/-! ## Live records -/

section Live

variable {configuration : RedisReplayConfiguration} {policy : ReplayPolicy} {d : Document}
  {r : ReferenceStore} {input : ReplayConsumeInput} {now : ℤ}

/-- A record of the reference, as the script keeps it. -/
def documentRecord (x : ReferenceRecord) : DocumentRecord :=
  ⟨encodeIdentity (ReferenceStore.identityOf x), x.keyThumbprint, (x.retainUntil * 1000).toNat⟩

/-- The live records of the reference at a second. -/
def liveAt (now : ℤ) (records : List ReferenceRecord) : List ReferenceRecord :=
  records.filter fun x => !(x.retainUntil ≤ now)

/-- The document holds the live records of the reference. -/
structure Agrees (r : ReferenceStore) (d : Document) : Prop where
  lastNow : 0 ≤ r.lastNow
  live : d.live (r.lastNow * 1000).toNat = (r.records.map documentRecord)
  valid : ∀ x ∈ r.records, ∃ i, MemoryReplayStore.validInput DEFAULT_PROFILE_LIMITS.replay i ∧
    x = ReferenceStore.recordOf i

/-- At a later second the same records have expired. -/
theorem Agrees.liveAt (h : Agrees r d) (hnow : r.lastNow ≤ now) :
    d.live (now * 1000).toNat = (AgentSig.Redis.liveAt now r.records).map documentRecord := by
  have hlast := h.lastNow
  have hlater : d.live (now * 1000).toNat =
      (d.live (r.lastNow * 1000).toNat).filter ((now * 1000).toNat < ·.deadline) := by
    rw [Document.live, Document.live, List.filter_filter]
    refine List.filter_congr fun x _ => ?_
    rw [Bool.eq_iff_iff]
    simp only [Bool.and_eq_true, decide_eq_true_eq]
    omega
  rw [hlater, h.live, List.filter_map, AgentSig.Redis.liveAt]
  congr 1
  refine List.filter_congr fun x hx => ?_
  have huntil : 0 ≤ x.retainUntil := by
    obtain ⟨i, hi, rfl⟩ := h.valid x hx
    exact (isSecond_iff.mp (validInput_iff.mp hi).2.2.2.2.2.2.1).1
  have hlive : (now * 1000).toNat < (documentRecord x).deadline ↔ ¬ x.retainUntil ≤ now := by
    simp only [documentRecord]
    omega
  rw [Bool.eq_iff_iff]
  simp only [Function.comp_apply, Bool.not_eq_true', decide_eq_true_eq, decide_eq_false_iff_not]
  exact hlive

/-- The identities that are live agree. -/
theorem live_identity {live : List ReferenceRecord}
    (hvalid : ∀ x ∈ live, ∃ i, MemoryReplayStore.validInput DEFAULT_PROFILE_LIMITS.replay i ∧
      x = ReferenceStore.recordOf i)
    (hinput : MemoryReplayStore.validInput DEFAULT_PROFILE_LIMITS.replay input) :
    (∃ y ∈ live.map documentRecord, y.identity = encodeIdentity input.identity) ↔
      live.any (ReferenceStore.identityOf · = input.identity) := by
  simp only [List.mem_map, exists_exists_and_eq_and, List.any_eq_true, decide_eq_true_eq]
  refine exists_congr fun x => and_congr_right fun hx => ?_
  obtain ⟨i, hi, rfl⟩ := hvalid x hx
  constructor
  · exact fun heq => encodeIdentity_inj hi hinput heq
  · exact fun heq => congrArg encodeIdentity heq

theorem countP_documentRecord (live : List ReferenceRecord) (key : Text) :
    (live.map documentRecord).countP (·.thumbprint = key) =
      live.countP (·.keyThumbprint = key) := by
  rw [List.countP_map]
  rfl

/-- The decisions on an identity agree. -/
theorem consumeVerdict_agrees {a : Arguments} {c : Admission} {live : List ReferenceRecord}
    {duration : ℕ} (hlive : d.live c.now = live.map documentRecord)
    (hvalid : ∀ x ∈ live, ∃ i, MemoryReplayStore.validInput DEFAULT_PROFILE_LIMITS.replay i ∧
      x = ReferenceStore.recordOf i)
    (hinput : MemoryReplayStore.validInput DEFAULT_PROFILE_LIMITS.replay input)
    (hidentity : a.identity = encodeIdentity input.identity)
    (hthumbprint : a.thumbprint = input.keyThumbprint)
    (hpolicy : policy.capacity = c.capacity ∧ policy.maxPerKey = c.quota) :
    (d.consumeVerdict a c duration = .insert duration ∧
      ReferenceStore.decide policy live input =
        (live ++ [ReferenceStore.recordOf input], .accepted)) ∨
    ∃ reply, d.consumeVerdict a c duration = .reply reply ∧
      ReferenceStore.decide policy live input = (live, storeOutcome reply) := by
  simp only [Document.consumeVerdict, ReferenceStore.decide, hlive, hidentity, hthumbprint,
    live_identity hvalid hinput, countP_documentRecord, List.length_map, hpolicy]
  split
  · exact .inr ⟨.replayed, rfl, rfl⟩
  · split
    · exact .inr ⟨.perKeyQuotaExceeded, rfl, rfl⟩
    · split
      · exact .inr ⟨.unavailable, rfl, rfl⟩
      · exact .inl ⟨rfl, rfl⟩

/-- Once the quarantine is over, the verdict on what an adapter consumes is that on the identity. -/
theorem verdict_consume {a : Arguments} {t : Time} {c : Admission} {duration : ℕ}
    (hd : Stable configuration d) (h : Sent configuration a) (hadmits : Admits a t c)
    (htime : d.lastTime ≤ c.deadlineBase) (hover : d.untilTime ≤ c.now)
    (hduration : c.duration = some duration) :
    d.verdict a c = d.consumeVerdict a c duration := by
  obtain ⟨hhorizon, hcapacity, hquota⟩ := h.configured hadmits
  have hsame : ¬ (d.horizon ≠ c.horizon ∨ d.capacity ≠ c.capacity ∨ d.quota ≠ c.quota) := by
    rw [hd.horizon, hd.capacity, hd.quota, hhorizon, hcapacity, hquota]
    simp
  have hconflict : ¬ ∃ r ∈ d.records, Conflicts a c r := fun ⟨r, hr, hconflicts⟩ =>
    not_conflicts (hd.prepared r hr) h hadmits hconflicts
  simp only [Document.verdict, if_neg (not_lt.mpr htime), if_neg hsame, if_neg hconflict,
    if_neg (not_lt.mpr hover), hduration]

/-- Documents agree after an insertion. -/
theorem agrees_insert {a : Arguments} {c : Admission} {live : List ReferenceRecord} {duration : ℕ}
    (hnow : 0 ≤ input.nowEpochSeconds) (hlive : d.live c.now = live.map documentRecord)
    (hvalid : ∀ x ∈ live, ∃ i, MemoryReplayStore.validInput DEFAULT_PROFILE_LIMITS.replay i ∧
      x = ReferenceStore.recordOf i)
    (hinput : MemoryReplayStore.validInput DEFAULT_PROFILE_LIMITS.replay input)
    (hnowNat : (input.nowEpochSeconds * 1000).toNat = c.now)
    (hidentity : a.identity = encodeIdentity input.identity)
    (hthumbprint : a.thumbprint = input.keyThumbprint)
    (hdeadline : ((c.deadlineBase + duration : ℕ) : ℤ) = input.retainUntilEpochSeconds * 1000) :
    Agrees ⟨live ++ [ReferenceStore.recordOf input], input.nowEpochSeconds⟩
      (d.insert a c duration) := by
  have hlt := (validInput_iff.mp hinput).2.2.2.2.2.2.2
  refine ⟨hnow, ?_, fun x hx => ?_⟩
  · have hnew : (⟨a.identity, a.thumbprint, c.deadlineBase + duration⟩ : DocumentRecord) =
        documentRecord (ReferenceStore.recordOf input) := by
      rw [documentRecord, hidentity, hthumbprint, DocumentRecord.mk.injEq]
      refine ⟨rfl, rfl, ?_⟩
      have : (ReferenceStore.recordOf input).retainUntil = input.retainUntilEpochSeconds := rfl
      omega
    have hfilter : (d.live c.now).filter (c.now < ·.deadline) = d.live c.now := by
      rw [Document.live, List.filter_filter]
      simp
    have hlater : c.now < c.deadlineBase + duration := by omega
    rw [hnowNat, Document.live, Document.insert, List.filter_append, hfilter, hlive, List.map_append,
      List.map_singleton, ← hnew, List.filter_singleton, decide_eq_true hlater]
    rfl
  · rcases List.mem_append.mp hx with hx | hx
    · exact hvalid x hx
    · exact ⟨input, hinput, List.mem_singleton.mp hx⟩

/-- One call on documents that agree is answered alike, and they still agree. -/
theorem execute_agrees {record : RedisConsumeRecord} {bytes : List UInt8}
    (hd : Stable configuration d) (hagrees : Agrees r d)
    (hpolicy : policy.capacity = configuration.capacity ∧ policy.maxPerKey = configuration.maxPerKey)
    (hinput : MemoryReplayStore.validInput DEFAULT_PROFILE_LIMITS.replay input)
    (hrecord : prepareRedisConsume (untrustedInput input) = some record)
    (hbytes : bytes.length = 16) (hnow : r.lastNow ≤ input.nowEpochSeconds)
    (hover : (d.untilTime : ℤ) ≤ input.nowEpochSeconds * 1000)
    (htime : (d.lastTime : ℤ) ≤ input.nowEpochSeconds * 1000)
    (hhorizon : input.nowEpochSeconds * 1000 + configuration.recoveryMilliseconds ≤ MAX)
    (hduration : input.retainUntilEpochSeconds * 1000 ≤ MAX) :
    ∃ d', Stable configuration d' ∧ d'.untilTime = d.untilTime ∧
      (d'.lastTime : ℤ) ≤ input.nowEpochSeconds * 1000 ∧
      Agrees ⟨(ReferenceStore.decide policy (liveAt input.nowEpochSeconds r.records) input).1,
        input.nowEpochSeconds⟩ d' ∧
      redisConsume configuration (untrustedInput input) bytes ⟨input.nowEpochSeconds, 0⟩
        (written d.state) = (written d'.state,
          (ReferenceStore.decide policy (liveAt input.nowEpochSeconds r.records) input).2) := by
  obtain ⟨i, hread, hprepared⟩ := prepareRedisConsume_eq_some hrecord
  obtain ⟨-, -, -, -, -, hsecond, huntil, hlt⟩ := validInput_iff.mp hinput
  rw [read_untrustedInput hsecond huntil, Option.some.injEq] at hread
  subst hread
  have hsecond := isSecond_iff.mp hsecond
  generalize ht : (⟨input.nowEpochSeconds, 0⟩ : Time) = t
  have htnow : t.now = input.nowEpochSeconds * 1000 := by simp [← ht, Time.now]
  have htbase : t.deadlineBase = input.nowEpochSeconds * 1000 := by simp [← ht, Time.deadlineBase]
  have hmilliseconds := hprepared.duration
  have hadmitted : admission (argumentsFor configuration "consume" (some record) bytes) t =
      some (configuration.admission record.durationMilliseconds t) :=
    admit_consume hrecord hbytes (by omega) (by omega) (by omega)
  have hsent : Sent configuration (argumentsFor configuration "consume" (some record) bytes) :=
    .consume hbytes hrecord
  have hadmits := admit_eq_some hadmitted
  generalize hc : configuration.admission record.durationMilliseconds t = c at hadmitted hadmits
  have hcduration : c.duration = some record.durationMilliseconds := by rw [← hc]; rfl
  have hpolicy' : policy.capacity = c.capacity ∧ policy.maxPerKey = c.quota := by
    rw [← hc]
    exact hpolicy
  have hcnow := hadmits.now
  have hcbase := hadmits.deadlineBase
  have hnowNat : (input.nowEpochSeconds * 1000).toNat = c.now := by omega
  have hlive := hnowNat ▸ hagrees.liveAt hnow
  generalize hL : liveAt input.nowEpochSeconds r.records = live at hlive
  have hvalid : ∀ x ∈ live, ∃ i, MemoryReplayStore.validInput DEFAULT_PROFILE_LIMITS.replay i ∧
      x = ReferenceStore.recordOf i := by
    subst hL
    exact fun x hx => hagrees.valid x (List.mem_of_mem_filter hx)
  have hverdict := verdict_consume hd hsent hadmits (by omega) (by omega) hcduration
  simp only [redisConsume, hrecord]
  have hidentity : (argumentsFor configuration "consume" (some record) bytes).identity =
      encodeIdentity input.identity := hprepared.identity
  have hthumbprint : (argumentsFor configuration "consume" (some record) bytes).thumbprint =
      input.keyThumbprint := hprepared.thumbprint
  rcases consumeVerdict_agrees hlive hvalid hinput hidentity hthumbprint hpolicy'
    with ⟨hinsert, hdecide⟩ | ⟨reply, hreply, hdecide⟩
  · rw [hinsert] at hverdict
    have hinserts := inserts_of_verdict hverdict
    have hfits := (insert_fits hd hsent hadmits hinserts).2
    refine ⟨_, insert_stable hd hsent hadmits hinserts, rfl, hcbase.le.trans htbase.le, ?_, ?_⟩
    · rw [hdecide]
      exact agrees_insert hsecond.1 hlive hvalid hinput hnowNat hidentity hthumbprint
        (by omega)
    · simp only [execute_written hd.valid hadmitted, hverdict, if_pos hfits, hdecide]
      rfl
  · rw [hreply] at hverdict
    refine ⟨d, hd, rfl, htime, ⟨?_, ?_, ?_⟩, ?_⟩
    · exact hsecond.1
    · rw [hnowNat, hdecide]
      exact hlive
    · rw [hdecide]
      exact hvalid
    · simp only [execute_written hd.valid hadmitted, hverdict, hdecide]

end Live

/-! ## Sequences of calls -/

section Sequences

variable {configuration : RedisReplayConfiguration} {policy : ReplayPolicy} {calls : List StoreCall}

/-- A call whose input both stores consider well formed, and whose times the script represents. -/
structure StoreCall.WellFormed (configuration : RedisReplayConfiguration) (call : StoreCall) : Prop where
  bytes : call.bytes.length = 16
  memory : MemoryReplayStore.validInput DEFAULT_PROFILE_LIMITS.replay call.input
  redis : (prepareRedisConsume (untrustedInput call.input)).isSome
  horizon : call.input.nowEpochSeconds * 1000 + configuration.recoveryMilliseconds ≤ MAX
  deadline : call.input.retainUntilEpochSeconds * 1000 ≤ MAX

theorem reference_consume {r : ReferenceStore} {input : ReplayConsumeInput}
    (hinput : MemoryReplayStore.validInput DEFAULT_PROFILE_LIMITS.replay input)
    (hnow : r.lastNow ≤ input.nowEpochSeconds) :
    r.consume policy DEFAULT_PROFILE_LIMITS.replay (untrustedInput input) =
      (⟨(ReferenceStore.decide policy (liveAt input.nowEpochSeconds r.records) input).1,
        input.nowEpochSeconds⟩,
      (ReferenceStore.decide policy (liveAt input.nowEpochSeconds r.records) input).2) := by
  obtain ⟨-, -, -, -, -, hsecond, huntil, -⟩ := validInput_iff.mp hinput
  have hvalid : ¬ (!MemoryReplayStore.validInput DEFAULT_PROFILE_LIMITS.replay input ||
      decide (input.nowEpochSeconds < r.lastNow)) = true := by
    simp [hinput, hnow]
  simp only [ReferenceStore.consume, read_untrustedInput hsecond huntil, if_neg hvalid]
  rfl

/-- Stores that agree answer every sequence of calls alike. -/
theorem calls_agree (hpolicy : policy.capacity = configuration.capacity ∧
      policy.maxPerKey = configuration.maxPerKey)
    (hwell : ∀ call ∈ calls, call.WellFormed configuration)
    (hsorted : calls.Pairwise fun call later =>
      call.input.nowEpochSeconds ≤ later.input.nowEpochSeconds)
    {s : MemoryReplayStore} {r : ReferenceStore} {d : Document} (hconsistent : s.Consistent policy)
    (hrepresents : Represents s r) (hd : Stable configuration d) (hagrees : Agrees r d)
    (hnow : ∀ call ∈ calls, r.lastNow ≤ call.input.nowEpochSeconds)
    (hover : ∀ call ∈ calls, (d.untilTime : ℤ) ≤ call.input.nowEpochSeconds * 1000)
    (htime : ∀ call ∈ calls, (d.lastTime : ℤ) ≤ call.input.nowEpochSeconds * 1000) :
    (s.calls policy DEFAULT_PROFILE_LIMITS.replay
        (calls.map fun call => .consume (untrustedInput call.input))).2 =
      (redisCalls configuration (written d.state) calls).2.map some := by
  induction calls generalizing s r d with
  | nil => rfl
  | cons call rest ih =>
    obtain ⟨hcall, hwell⟩ := List.forall_mem_cons.mp hwell
    obtain ⟨hfirst, hsorted⟩ := List.pairwise_cons.mp hsorted
    obtain ⟨record, hrecord⟩ := Option.isSome_iff_exists.mp hcall.redis
    have hlater : ∀ later ∈ rest, later ∈ call :: rest := fun later hmem =>
      List.mem_cons_of_mem call hmem
    obtain ⟨d', hd', huntil, hlast, hagrees', hredis⟩ := execute_agrees hd hagrees hpolicy hcall.memory
      hrecord hcall.bytes (hnow call (by simp)) (hover call (by simp)) (htime call (by simp))
      hcall.horizon hcall.deadline
    have hreference := @reference_consume policy r _ hcall.memory (hnow call (by simp))
    obtain ⟨houtcome, hrepresents'⟩ : (s.call policy DEFAULT_PROFILE_LIMITS.replay
          (.consume (untrustedInput call.input))).2 =
        (r.call policy DEFAULT_PROFILE_LIMITS.replay (.consume (untrustedInput call.input))).2 ∧
        Represents (s.call policy DEFAULT_PROFILE_LIMITS.replay
          (.consume (untrustedInput call.input))).1
          (r.call policy DEFAULT_PROFILE_LIMITS.replay (.consume (untrustedInput call.input))).1 :=
      call_represents hconsistent hrepresents _
    rw [ReferenceStore.call, hreference] at houtcome hrepresents'
    rw [List.map_cons, MemoryReplayStore.calls, redisCalls, hredis]
    simp only [List.map_cons, houtcome]
    congr 1
    refine ih hwell hsorted (hconsistent.call _) hrepresents' hd' hagrees' hfirst
      (fun later hmem => huntil ▸ hover later (hlater later hmem)) fun later hmem => ?_
    have := hfirst later hmem
    omega

/-- Every sequence of calls with inputs that both stores consider well formed is answered alike by the
owned memory store and by the Redis store, if the seconds do not decrease, `TIME` shows the second of
each input, the capacity and the quota are equal, the first quarantine of an unused namespace has
elapsed, and the script represents the times of the inputs. -/
theorem stores_agree {start : Time} {bytes : List UInt8} {keys : Keys}
    (hpolicy : policy.capacity = configuration.capacity ∧ policy.maxPerKey = configuration.maxPerKey)
    (hbytes : bytes.length = 16)
    (hstart : execute (argumentsFor configuration "setup" none bytes) start .empty =
      ⟨keys, .quarantine, true⟩)
    (hwell : ∀ call ∈ calls, call.WellFormed configuration)
    (hsorted : calls.Pairwise fun call later =>
      call.input.nowEpochSeconds ≤ later.input.nowEpochSeconds)
    (helapsed : ∀ call ∈ calls, start.deadlineBase + configuration.recoveryMilliseconds ≤
      call.input.nowEpochSeconds * 1000) :
    (MemoryReplayStore.empty.calls policy DEFAULT_PROFILE_LIMITS.replay
        (calls.map fun call => .consume (untrustedInput call.input))).2 =
      (redisCalls configuration keys calls).2.map some := by
  have hsent : Sent configuration (argumentsFor configuration "setup" none bytes) := .setup hbytes
  cases hadmitted : admission (argumentsFor configuration "setup" none bytes) start with
  | none =>
    rw [execute_refused hadmitted] at hstart
    simp at hstart
  | some c =>
    have hadmits := admit_eq_some hadmitted
    rw [execute_missing (.inl rfl) hadmitted] at hstart
    obtain rfl := congrArg Execution.keys hstart
    have hbase := hadmits.deadlineBase
    have hhorizon := (hsent.configured hadmits).1
    have hover : ∀ call ∈ calls, ((c.deadlineBase + c.horizon : ℕ) : ℤ) ≤
        call.input.nowEpochSeconds * 1000 := fun call hmem => by
      have := helapsed call hmem
      omega
    have hagrees : Agrees .empty (.started (argumentsFor configuration "setup" none bytes) c) :=
      ⟨le_rfl, rfl, by simp [ReferenceStore.empty]⟩
    refine calls_agree hpolicy hwell hsorted (MemoryReplayStore.consistent_empty policy) ⟨rfl, rfl⟩
      (started_stable hsent hadmits) hagrees (fun call hmem => ?_) hover fun call hmem => ?_
    · exact (isSecond_iff.mp (validInput_iff.mp (hwell call hmem).memory).2.2.2.2.2.1).1
    · have := hover call hmem
      have hlast : (Document.started (argumentsFor configuration "setup" none bytes) c).lastTime =
        c.deadlineBase := rfl
      omega

end Sequences

/-- An input, twice, and an input with another nonce. -/
def exampleCalls : List StoreCall :=
  [⟨exampleInput (ascii "n"), List.replicate 16 0⟩, ⟨exampleInput (ascii "n"), List.replicate 16 0⟩,
    ⟨exampleInput (ascii "m"), List.replicate 16 0⟩]

theorem stores_agree_example :
    (MemoryReplayStore.empty.calls ⟨2, 1⟩ DEFAULT_PROFILE_LIMITS.replay
        (exampleCalls.map fun call => .consume (untrustedInput call.input))).2 =
      [some .accepted, some .replayed, some .perKeyQuotaExceeded] ∧
    (redisCalls exampleConfiguration exampleSetupKeys exampleCalls).2.map some =
      [some .accepted, some .replayed, some .perKeyQuotaExceeded] := by
  have hmemory : (MemoryReplayStore.empty.calls ⟨2, 1⟩ DEFAULT_PROFILE_LIMITS.replay
      (exampleCalls.map fun call => .consume (untrustedInput call.input))).2 =
      [some .accepted, some .replayed, some .perKeyQuotaExceeded] := by decide +kernel
  have hstart : execute exampleSetup ⟨0, 1⟩ .empty = ⟨exampleSetupKeys, .quarantine, true⟩ := by
    decide +kernel
  have hwell : ∀ call ∈ exampleCalls, call.WellFormed exampleConfiguration := by
    have hcall : ∀ nonce ∈ [ascii "n", ascii "m"], StoreCall.WellFormed exampleConfiguration
        ⟨exampleInput nonce, List.replicate 16 0⟩ := by
      intro nonce hnonce
      refine ⟨rfl, ?_, ?_, by simp [exampleInput, exampleConfiguration, MAX],
        by simp [exampleInput, MAX]⟩
      · revert nonce
        decide +kernel
      · revert nonce
        decide +kernel
    intro call hmem
    simp only [exampleCalls, List.mem_cons, List.not_mem_nil, or_false] at hmem
    rcases hmem with rfl | rfl | rfl
    · exact hcall _ (by simp)
    · exact hcall _ (by simp)
    · exact hcall _ (by simp)
  have hagree := @stores_agree exampleConfiguration ⟨2, 1⟩ _ _ _ _ ⟨rfl, rfl⟩ rfl hstart hwell
    (by simp [exampleCalls, exampleInput])
    (by simp [exampleCalls, exampleInput, Time.deadlineBase, exampleConfiguration])
  exact ⟨hmemory, hagree ▸ hmemory⟩

/-- An input at a second whose milliseconds the script represents, but not with the horizon added. -/
def lateInput : ReplayConsumeInput :=
  ⟨ascii "s", List.replicate 43 65, ascii "n", 9007199254740, 9007199254741⟩

/-- Both stores consider the input well formed, and the quarantine has elapsed, but only the owned
store accepts it. -/
theorem stores_disagree :
    MemoryReplayStore.validInput DEFAULT_PROFILE_LIMITS.replay lateInput ∧
    (prepareRedisConsume (untrustedInput lateInput)).isSome ∧
    execute exampleSetup ⟨0, 1⟩ .empty = ⟨exampleSetupKeys, .quarantine, true⟩ ∧
    (⟨0, 1⟩ : Time).deadlineBase + exampleConfiguration.recoveryMilliseconds ≤
      lateInput.nowEpochSeconds * 1000 ∧
    (MemoryReplayStore.empty.calls ⟨2, 1⟩ DEFAULT_PROFILE_LIMITS.replay
      [.consume (untrustedInput lateInput)]).2 = [some .accepted] ∧
    (redisCalls exampleConfiguration exampleSetupKeys [⟨lateInput, List.replicate 16 0⟩]).2 =
      [.unavailable] := by
  refine ⟨?_, ?_, ?_, ?_, ?_, ?_⟩
  · decide +kernel
  · decide +kernel
  · decide +kernel
  · decide
  · decide +kernel
  · decide +kernel

end AgentSig.Redis
