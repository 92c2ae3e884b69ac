import AgentSig.Commons.Runs
import AgentSig.Redis.Configuration
import AgentSig.Redis.Histories

/-!
# The stability of the stored state

Where nothing but adapters of one configuration touches the keys, and `TIME` does not regress, the
script accepts what it has written: the document that the keys hold has the configuration of the
adapters, its records were prepared of valid inputs, and it is never too long.

## Main definitions

* `Sent`, `AdapterRun`: the arguments of an adapter, and the runs of its executions
* `NonRegressing`: the readings of `TIME` do not regress
* `Stable`: what the document satisfies

## Main results

* `length_encode_stable_le`: a bound on the length of a stable document
* `execute_stable`: an execution on a stable document starts no quarantine
* `stored_state_revalidates`: **the script revalidates whatever it has written**
-/

namespace AgentSig.Redis

open Commons Core Profiles StructuredFields

/-! ## Runs of adapters -/

/-- The microseconds of a reading. -/
def Time.instant (t : Time) : ℤ := t.seconds * 1000000 + t.microseconds

theorem Time.now_mono {t t' : Time} (h : t.instant ≤ t'.instant) : t.now ≤ t'.now := by
  simp only [Time.instant, Time.now] at *
  omega

theorem Time.deadlineBase_mono {t t' : Time} (h : t.instant ≤ t'.instant) :
    t.deadlineBase ≤ t'.deadlineBase := by
  simp only [Time.instant, Time.deadlineBase] at *
  omega

/-- The arguments that an adapter sends: of a setup, or of a consume of a prepared input. -/
inductive Sent (configuration : RedisReplayConfiguration) : Arguments → Prop
  | setup {bytes : List UInt8} : bytes.length = 16 →
    Sent configuration (argumentsFor configuration "setup" none bytes)
  | consume {bytes : List UInt8} {input : UntrustedInput} {record : RedisConsumeRecord} :
    bytes.length = 16 → prepareRedisConsume input = some record →
    Sent configuration (argumentsFor configuration "consume" (some record) bytes)

/-- One execution of an adapter. -/
inductive AdapterStep (configuration : RedisReplayConfiguration) :
    Keys → List ScriptCall → Keys → Prop
  | execute {keys : Keys} {a : Arguments} (t : Time) : Sent configuration a →
    AdapterStep configuration keys [scriptCall a t keys] (execute a t keys).keys

/-- The executions of adapters on a namespace that was unused. -/
abbrev AdapterRun (configuration : RedisReplayConfiguration) (es : List ScriptCall)
    (keys : Keys) : Prop :=
  Run (· = Keys.empty) (AdapterStep configuration) es keys

/-- One execution of an adapter, of any configuration. -/
inductive SharedStep : Keys → List ScriptCall → Keys → Prop
  | execute {configuration : RedisReplayConfiguration} {keys : Keys} {a : Arguments} (t : Time) :
    Sent configuration a → SharedStep keys [scriptCall a t keys] (execute a t keys).keys

/-- The executions of adapters that may differ in their configurations, on a namespace that was
unused. -/
abbrev SharedRun (es : List ScriptCall) (keys : Keys) : Prop :=
  Run (· = Keys.empty) SharedStep es keys

theorem sharedRun_of_adapterRun {configuration : RedisReplayConfiguration} {es : List ScriptCall}
    {keys : Keys} (h : AdapterRun configuration es keys) : SharedRun es keys := by
  induction h with
  | init hkeys => exact .init hkeys
  | step _ hstep ih =>
    cases hstep with
    | execute t hsent => exact ih.step (.execute t hsent)

/-- The readings of `TIME` do not regress. -/
def NonRegressing (es : List ScriptCall) : Prop :=
  es.Pairwise fun e f => e.time.instant ≤ f.time.instant

/-- Whether an execution has written the keys. -/
def ScriptCall.wrote (call : ScriptCall) : Bool := call.started || call.reply = .accepted

/-! ## Stable documents -/

/-- A record that was prepared of a valid input. -/
def PreparedRecord (r : DocumentRecord) : Prop :=
  ∃ i, MemoryReplayStore.validInput DEFAULT_PROFILE_LIMITS.replay i ∧
    r.identity = encodeIdentity i.identity ∧ r.thumbprint = i.keyThumbprint

/-- A document of a configuration, whose records were prepared of valid inputs. -/
structure Stable (configuration : RedisReplayConfiguration) (d : Document) : Prop where
  valid : d.Valid
  horizon : d.horizon = configuration.recoveryMilliseconds
  capacity : d.capacity = configuration.capacity
  quota : d.quota = configuration.maxPerKey
  prepared : ∀ r ∈ d.records, PreparedRecord r

section Stability

variable {configuration configuration' : RedisReplayConfiguration} {a : Arguments} {t : Time}
  {c : Admission} {d : Document}

/-- An encoded record of a prepared input. -/
theorem length_encode_prepared_le {r : DocumentRecord} (hr : r.Valid) (h : PreparedRecord r) :
    r.record.encode.length ≤ 2907 := by
  obtain ⟨i, hi, hidentity, -⟩ := h
  have hlength := length_encodeIdentity_le hi
  rw [← hidentity] at hlength
  obtain ⟨hkeyLength, hkey⟩ := validThumbprint_iff.mp hr.thumbprint
  have hsymbols : r.identity.all base64UrlChar := by
    have := hr.identity
    simp only [validIdentity, decide_eq_true_eq] at this
    exact this.2.2
  have hrecord : r.record.encode.length ≤
      r.identity.length + r.thumbprint.length + (decimal r.deadline).length + 46 :=
    length_encode_record (plain_of_base64UrlChar hsymbols) (plain_of_base64UrlChar hkey)
      (plain_decimal _)
  have := length_decimal_le hr.deadline
  omega

/-- A document with prepared records is never too long: they are at most 10,000, each of at most 2,907
units and a comma, and the rest has at most 512. -/
theorem length_encode_stable_le (hheader : ∀ t ∈ [d.state.version, d.state.epoch,
      d.state.quarantineUntil, d.state.detectedAt, d.state.lastTime, d.state.horizon,
      d.state.capacity, d.state.quota], Json.Plain t ∧ t.length ≤ 32)
    (hvalid : ∀ r ∈ d.records, r.Valid) (hprepared : ∀ r ∈ d.records, PreparedRecord r)
    (hlength : d.records.length ≤ MAX_RECORDS) : d.state.encode.length ≤ MAX_BYTES := by
  have hrecords : ∀ r ∈ d.state.records, r.encode.length ≤ 2907 := by
    intro r hr
    obtain ⟨r', hr', rfl⟩ := List.mem_map.mp hr
    exact length_encode_prepared_le (hvalid r' hr') (hprepared r' hr')
  have hbound := length_encode_le hheader hrecords
  have hcount : d.state.records.length = d.records.length := List.length_map _
  simp only [MAX_RECORDS] at hlength
  simp only [MAX_BYTES]
  omega

/-- What an adapter sends in consume mode was prepared of a valid input. -/
theorem Sent.prepared (h : Sent configuration a) (hmode : a.mode = ascii "consume") :
    ∃ i, MemoryReplayStore.validInput DEFAULT_PROFILE_LIMITS.replay i ∧
      a.identity = encodeIdentity i.identity ∧ a.thumbprint = i.keyThumbprint := by
  cases h with
  | setup =>
    have hne : ascii "setup" ≠ ascii "consume" := by decide
    exact absurd hmode hne
  | consume _ hprepare =>
    obtain ⟨i, -, hprepared⟩ := prepareRedisConsume_eq_some hprepare
    exact ⟨i, hprepared.valid, hprepared.identity, hprepared.thumbprint⟩

theorem Sent.configured (h : Sent configuration a) (hadmits : Admits a t c) :
    c.horizon = configuration.recoveryMilliseconds ∧ c.capacity = configuration.capacity ∧
      c.quota = configuration.maxPerKey := by
  have htexts : a.horizon = decimal configuration.recoveryMilliseconds ∧
      a.capacity = decimal configuration.capacity ∧ a.quota = decimal configuration.maxPerKey := by
    cases h <;> exact ⟨rfl, rfl, rfl⟩
  exact ⟨decimal_injective (hadmits.horizon.symm.trans htexts.1),
    decimal_injective (hadmits.capacity.symm.trans htexts.2.1),
    decimal_injective (hadmits.quota.symm.trans htexts.2.2)⟩

/-- One identity has one thumbprint. -/
theorem not_conflicts {r : DocumentRecord} (hr : PreparedRecord r) (h : Sent configuration a)
    (hadmits : Admits a t c) : ¬ Conflicts a c r := by
  rintro ⟨-, hconsume, hidentity, hthumbprint⟩
  obtain ⟨duration, hduration⟩ := Option.isSome_iff_exists.mp hconsume
  obtain ⟨i, hi, hid, hkey⟩ := hr
  obtain ⟨i', hi', hid', hkey'⟩ := h.prepared (hadmits.consume duration hduration).1
  have heq := encodeIdentity_inj hi hi' (hid.symm.trans (hidentity.trans hid'))
  refine hthumbprint ?_
  rw [hkey, hkey']
  exact congrArg (fun identity => identity.2.1) heq

/-- The document of a new quarantine is stable. -/
theorem started_stable (h : Sent configuration a) (hadmits : Admits a t c) :
    Stable configuration (.started a c) := by
  obtain ⟨hhorizon, hcapacity, hquota⟩ := h.configured hadmits
  exact ⟨started_valid hadmits, hhorizon, hcapacity, hquota, by simp [Document.started]⟩

/-- An insertion into a stable document fits. -/
theorem insert_fits {duration : ℕ} (hd : Stable configuration d) (h : Sent configuration' a)
    (hadmits : Admits a t c) (hinserts : Inserts d a c duration) :
    (∀ r ∈ (d.insert a c duration).records, PreparedRecord r) ∧
      (d.insert a c duration).state.encode.length ≤ MAX_BYTES := by
  obtain ⟨hmode, hidentity, hthumbprint, -, -, hdeadline⟩ :=
    hadmits.consume duration hinserts.duration
  obtain ⟨i, hi, hid, hkey⟩ := h.prepared hmode
  have hvalid : ∀ r ∈ (d.insert a c duration).records, r.Valid := by
    intro r hr
    rcases List.mem_append.mp hr with hr | hr
    · exact hd.valid.records r (List.mem_of_mem_filter hr)
    · obtain rfl := List.mem_singleton.mp hr
      exact ⟨hidentity, hthumbprint, hdeadline⟩
  have hprepared : ∀ r ∈ (d.insert a c duration).records, PreparedRecord r := by
    intro r hr
    rcases List.mem_append.mp hr with hr | hr
    · exact hd.prepared r (List.mem_of_mem_filter hr)
    · obtain rfl := List.mem_singleton.mp hr
      exact ⟨i, hi, hid, hkey⟩
  have hlength : (d.insert a c duration).records.length ≤ MAX_RECORDS := by
    have := hinserts.room
    have := hd.valid.capacity
    rw [Document.insert, List.length_append, List.length_singleton]
    omega
  have hbase : c.deadlineBase ≤ MAX := (Nat.le_add_right _ _).trans hadmits.horizon_le
  exact ⟨hprepared, length_encode_stable_le (header_plain hd.valid.epoch hd.valid.untilTime
    (hd.valid.detected.trans hd.valid.lastTime) hbase hd.valid.capacity hd.valid.quota) hvalid
    hprepared hlength⟩

theorem insert_stable {duration : ℕ} (hd : Stable configuration d) (h : Sent configuration' a)
    (hadmits : Admits a t c) (hinserts : Inserts d a c duration) :
    Stable configuration (d.insert a c duration) := by
  obtain ⟨hprepared, hfits⟩ := insert_fits hd h hadmits hinserts
  exact ⟨insert_valid hd.valid hadmits hinserts hfits, hd.horizon, hd.capacity, hd.quota, hprepared⟩

/-- On a stable document, an adapter starts no quarantine, as long as the time does not regress. -/
theorem verdict_stable (hd : Stable configuration d) (h : Sent configuration' a)
    (hadmits : Admits a t c) (htime : d.lastTime ≤ c.deadlineBase) : d.verdict a c ≠ .start := by
  have hconflict : ¬ ∃ r ∈ d.records, Conflicts a c r := fun ⟨r, hr, hconflicts⟩ =>
    not_conflicts (hd.prepared r hr) h hadmits hconflicts
  simp only [Document.verdict, if_neg (not_lt.mpr htime), if_neg hconflict]
  split
  · simp
  · split
    · simp
    · split
      · simp
      · exact consumeVerdict_ne.1

/-! ## Runs -/

/-- An execution on a stable document starts no quarantine. What it inserts is saved, and is stable. -/
theorem execute_stable (hd : Stable configuration d) (h : Sent configuration' a)
    (htime : (d.lastTime : ℤ) ≤ t.deadlineBase) :
    (∃ reply, execute a t (written d.state) = ⟨written d.state, reply, false⟩ ∧ reply ≠ .accepted) ∨
      ∃ d', Stable configuration d' ∧ (d'.lastTime : ℤ) = t.deadlineBase ∧
        execute a t (written d.state) = ⟨written d'.state, .accepted, false⟩ := by
  cases hadmitted : admission a t with
  | none => exact .inl ⟨.unavailable, execute_refused hadmitted, by simp⟩
  | some c =>
    have hadmits := admit_eq_some hadmitted
    rw [← hadmits.deadlineBase, Nat.cast_le] at htime
    rw [execute_written hd.valid hadmitted]
    cases hverdict : d.verdict a c with
    | start => exact absurd hverdict (verdict_stable hd h hadmits htime)
    | reply reply =>
      refine .inl ⟨reply, rfl, ?_⟩
      rintro rfl
      exact verdict_ne_accepted hverdict
    | insert duration =>
      have hinserts := inserts_of_verdict hverdict
      refine .inr ⟨d.insert a c duration, insert_stable hd h hadmits hinserts,
        hadmits.deadlineBase, ?_⟩
      simp only [if_pos (insert_fits hd h hadmits hinserts).2]

/-- Where the keys are unused, an execution starts a quarantine or is refused. -/
theorem execute_unused (h : Sent configuration a) :
    execute a t .empty = ⟨.empty, .unavailable, false⟩ ∨
      ∃ d, Stable configuration d ∧ (d.lastTime : ℤ) = t.deadlineBase ∧
        execute a t .empty = ⟨written d.state, .quarantine, true⟩ := by
  cases hadmitted : admission a t with
  | none => exact .inl (execute_refused hadmitted)
  | some c =>
    have hadmits := admit_eq_some hadmitted
    exact .inr ⟨.started a c, started_stable h hadmits, hadmits.deadlineBase,
      execute_missing (.inl rfl) hadmitted⟩

/-- What the keys hold after a run: nothing, if no execution has written, or a stable document, whose
last time is that of an execution. -/
def StableKeys (configuration : RedisReplayConfiguration) (es : List ScriptCall) (keys : Keys) :
    Prop :=
  (keys = .empty ∧ ∀ e ∈ es, e.wrote = false) ∨
    ∃ d, Stable configuration d ∧ keys = written d.state ∧
      ∃ e ∈ es, (d.lastTime : ℤ) = e.time.deadlineBase

/-- One execution of an adapter, at a time that has not regressed. -/
theorem stableKeys_step {es : List ScriptCall} {keys : Keys} (hkeys : StableKeys configuration es keys)
    (h : Sent configuration' a) (htime : ∀ e ∈ es, e.time.instant ≤ t.instant) :
    (StableKeys configuration (es ++ [scriptCall a t keys]) (execute a t keys).keys ∨
      StableKeys configuration' (es ++ [scriptCall a t keys]) (execute a t keys).keys) ∧
    ((∃ e ∈ es, e.wrote) → (execute a t keys).started = false) := by
  rcases hkeys with ⟨rfl, hunused⟩ | ⟨d, hd, rfl, e, he, hlast⟩
  · have hnone : (∃ e ∈ es, e.wrote) → (execute a t .empty).started = false := by
      rintro ⟨e, he, hwrote⟩
      rw [hunused e he] at hwrote
      simp at hwrote
    refine ⟨.inr ?_, hnone⟩
    rcases execute_unused (t := t) h with hexecute | ⟨d, hd, hlast, hexecute⟩
    · refine .inl ⟨by rw [hexecute], fun e he => ?_⟩
      rcases List.mem_append.mp he with he | he
      · exact hunused e he
      · obtain rfl := List.mem_singleton.mp he
        simp [ScriptCall.wrote, scriptCall, hexecute]
    · exact .inr ⟨d, hd, by rw [hexecute], scriptCall a t .empty, by simp, hlast⟩
  · have hnot : (d.lastTime : ℤ) ≤ t.deadlineBase :=
      hlast.trans_le (Time.deadlineBase_mono (htime e he))
    rcases execute_stable hd h hnot with ⟨reply, hexecute, -⟩ | ⟨d', hd', hlast', hexecute⟩
    · refine ⟨.inl (.inr ⟨d, hd, by rw [hexecute], e, List.mem_append_left _ he, hlast⟩), fun _ => ?_⟩
      rw [hexecute]
    · refine ⟨.inl (.inr ⟨d', hd', by rw [hexecute], scriptCall a t (written d.state),
        List.mem_append_right _ ?_, hlast'⟩),
        fun _ => by rw [hexecute]⟩
      exact List.mem_singleton.mpr rfl

/-- The keys of a run whose times do not regress. -/
theorem stableKeys_of_run {es : List ScriptCall} {keys : Keys} (h : AdapterRun configuration es keys)
    (htime : NonRegressing es) : StableKeys configuration es keys := by
  refine h.invariant (I := fun es keys => NonRegressing es → StableKeys configuration es keys)
    (fun keys hkeys _ => .inl ⟨hkeys, by simp⟩) ?_ htime
  intro es fs keys keys' _ ih hstep htime
  cases hstep with
  | execute t hsent =>
    obtain ⟨hes, -, hlast⟩ := List.pairwise_append.mp htime
    obtain ⟨hkeys, -⟩ := stableKeys_step (t := t) (ih hes) hsent
      fun e he => hlast e he _ (List.mem_singleton.mpr rfl)
    exact hkeys.elim id id

/-- The keys of a run of adapters that may differ: they are those of one configuration. -/
theorem stableKeys_of_sharedRun {es : List ScriptCall} {keys : Keys} (h : SharedRun es keys)
    (htime : NonRegressing es) (configuration : RedisReplayConfiguration) :
    ∃ configuration, StableKeys configuration es keys := by
  refine h.invariant (I := fun es keys => NonRegressing es → ∃ configuration,
    StableKeys configuration es keys) (fun keys hkeys _ => ⟨configuration, .inl ⟨hkeys, by simp⟩⟩) ?_
    htime
  intro es fs keys keys' _ ih hstep htime
  cases hstep with
  | execute t hsent =>
    obtain ⟨hes, -, hlast⟩ := List.pairwise_append.mp htime
    obtain ⟨configuration, hstable⟩ := ih hes
    obtain ⟨hkeys, -⟩ := stableKeys_step (t := t) hstable hsent
      fun e he => hlast e he _ (List.mem_singleton.mpr rfl)
    exact hkeys.elim (fun h => ⟨_, h⟩) fun h => ⟨_, h⟩

/-- A save never fails, and an execution decides for a quarantine only where the keys are unused. -/
theorem save_of_stableKeys {es : List ScriptCall} {keys : Keys}
    (hkeys : StableKeys configuration es keys) (h : Sent configuration a)
    (htime : ∀ e ∈ es, e.time.instant ≤ t.instant) (hadmitted : admission a t = some c) :
    (∀ s, decision a c keys = .insert s → save s = some (written s)) ∧
      (decision a c keys = .quarantine → keys = .empty ∧ (save (quarantineState a c)).isSome) := by
  have hadmits := admit_eq_some hadmitted
  rcases hkeys with ⟨rfl, -⟩ | ⟨d, hd, rfl, e, he, hlast⟩
  · have hdecision : decision a c .empty = .quarantine := by
      rw [decision, readState_missing (.inl rfl)]
    rw [hdecision, save_quarantineState hadmits]
    exact ⟨by simp, fun _ => ⟨rfl, rfl⟩⟩
  · have htime' : d.lastTime ≤ c.deadlineBase := by
      have := Time.deadlineBase_mono (htime e he)
      rw [← hlast, ← hadmits.deadlineBase] at this
      exact_mod_cast this
    rw [decision_written hd.valid hadmits]
    cases hverdict : d.verdict a c with
    | start => exact absurd hverdict (verdict_stable hd h hadmits htime')
    | reply reply => simp
    | insert duration =>
      refine ⟨fun s hs => ?_, by simp⟩
      obtain rfl := Decision.insert.inj hs
      exact if_pos (insert_fits hd h hadmits (inserts_of_verdict hverdict)).2

/-- After an execution that has written, no execution starts a quarantine. -/
theorem not_started_after {es pre mid post : List ScriptCall} {keys : Keys} {first later : ScriptCall}
    (h : SharedRun es keys) (htime : NonRegressing es) (hes : es = pre ++ first :: (mid ++ later :: post))
    (hwrote : first.wrote) : later.started = false := by
  have hes' : es = (pre ++ first :: mid) ++ later :: post := by simp [hes]
  obtain ⟨pre', start, stop, post', before, after, hpre, -, hrun, hstep, -⟩ := h.exists_step_at hes'
  generalize hfs : start ++ later :: stop = fs at hstep
  cases hstep with
  | @execute configuration _ a t hsent =>
    cases start with
    | cons => simp at hfs
    | nil =>
      obtain ⟨rfl, -⟩ := List.cons.inj hfs
      rw [List.append_nil] at hpre
      subst hpre
      rw [hes'] at htime
      obtain ⟨hbefore, -, hlater⟩ := List.pairwise_append.mp htime
      obtain ⟨configuration, hkeys⟩ := stableKeys_of_sharedRun hrun hbefore configuration
      exact (stableKeys_step hkeys hsent
        fun e he => hlater e he _ List.mem_cons_self).2 ⟨first, by simp, hwrote⟩

end Stability

/-- A state that passes the checks of the script: its records are within a capacity and have distinct
identities of a bounded length, its numbers are read back, and it is not too long. -/
structure Revalidates (capacity : ℕ) (s : ReplayState) : Prop where
  capacity : s.records.length ≤ capacity
  distinct : (s.records.map (·.identity)).Nodup
  identities : ∀ r ∈ s.records, r.identity.length ≤ 4096
  numbers : ∀ text ∈ [s.quarantineUntil, s.detectedAt, s.lastTime, s.horizon, s.capacity, s.quota] ++
    s.records.map (·.deadline), text.length ≤ 16 ∧ (integer text).isSome
  length : s.encode.length ≤ MAX_BYTES

/-- The state of a valid document passes the checks. -/
theorem revalidates_state {d : Document} (h : d.Valid) : Revalidates d.capacity d.state := by
  have hnumber : ∀ n, n ≤ MAX → (decimal n).length ≤ 16 ∧ (integer (decimal n)).isSome := fun n hn =>
    ⟨length_decimal_le hn, by rw [integer_decimal hn, Option.isSome_some]⟩
  have hidentities : d.state.records.map (·.identity) = d.records.map (·.identity) := by
    rw [Document.state, List.map_map]
    rfl
  refine ⟨?_, ?_, fun r hr => ?_, fun text htext => ?_, h.fits⟩
  · rw [Document.state, List.length_map]
    exact h.length
  · rw [hidentities]
    exact h.distinct
  · obtain ⟨r', hr', rfl⟩ := List.mem_map.mp hr
    have := (h.records r' hr').identity
    simp only [validIdentity, decide_eq_true_eq] at this
    exact this.2.1
  · rcases List.mem_append.mp htext with htext | htext
    · simp only [List.mem_cons, List.not_mem_nil, or_false] at htext
      rcases htext with rfl | rfl | rfl | rfl | rfl | rfl
      · exact hnumber _ h.untilTime
      · exact hnumber _ (h.detected.trans h.lastTime)
      · exact hnumber _ h.lastTime
      · exact hnumber _ ((Nat.le_add_left _ _).trans h.untilTime)
      · exact hnumber _ (h.capacity.trans (by decide))
      · exact hnumber _ (h.quota.trans (by decide))
    · obtain ⟨r, hr, rfl⟩ := List.mem_map.mp htext
      obtain ⟨r', hr', rfl⟩ := List.mem_map.mp hr
      exact hnumber _ (h.records r' hr').deadline

/-- In every run of adapters of one configuration on a namespace that was unused, at times that do not
regress: no execution after the first one that has written starts a quarantine; the keys are those of
one state that passes the checks of the script, once an execution has written; and in the next
execution no save fails, whether of an inserted record or of a quarantine, which starts only where the
keys are unused. -/
theorem stored_state_revalidates {configuration : RedisReplayConfiguration} {es : List ScriptCall}
    {keys : Keys} (h : AdapterRun configuration es keys) (htime : NonRegressing es) :
    (∀ pre first mid later post, es = pre ++ first :: (mid ++ later :: post) → first.wrote →
      later.started = false) ∧
    ((∃ e ∈ es, e.wrote) → ∃ s, keys = written s ∧ Revalidates configuration.capacity s) ∧
    ∀ a t c, Sent configuration a → (∀ e ∈ es, e.time.instant ≤ t.instant) → admission a t = some c →
      (∀ s, decision a c keys = .insert s → save s = some (written s)) ∧
      (decision a c keys = .quarantine → keys = .empty ∧ (save (quarantineState a c)).isSome) := by
  have hkeys := stableKeys_of_run h htime
  refine ⟨fun pre first mid later post hes hwrote => not_started_after (sharedRun_of_adapterRun h) htime hes
    hwrote,
    fun ⟨e, he, hwrote⟩ => ?_, fun a t c hsent hlast hadmitted => save_of_stableKeys hkeys hsent hlast hadmitted⟩
  rcases hkeys with ⟨-, hunused⟩ | ⟨d, hd, rfl, -⟩
  · rw [hunused e he] at hwrote
    simp at hwrote
  · exact ⟨d.state, rfl, hd.capacity ▸ revalidates_state hd.valid⟩

/-- The record of a small input. -/
def exampleRecord : RedisConsumeRecord :=
  ⟨encodeIdentity (exampleInput (ascii "n")).identity, List.replicate 43 65, 330000⟩

/-- The arguments of a setup. -/
def exampleSetup : Arguments := argumentsFor exampleConfiguration "setup" none (List.replicate 16 0)

/-- The arguments of a consume. -/
def exampleConsume : Arguments :=
  argumentsFor exampleConfiguration "consume" (some exampleRecord) (List.replicate 16 0)

/-- The keys after a setup. -/
def exampleSetupKeys : Keys := (execute exampleSetup ⟨0, 1⟩ .empty).keys

theorem exampleConsume_sent : Sent exampleConfiguration exampleConsume := by
  have hprepare : prepareRedisConsume (untrustedInput (exampleInput (ascii "n"))) =
      some exampleRecord := by decide +kernel
  exact .consume rfl hprepare

theorem stored_state_revalidates_example :
    (scriptCall exampleConsume ⟨1, 1000⟩ exampleSetupKeys).reply = .accepted ∧
      ∃ s, (execute exampleConsume ⟨1, 1000⟩ exampleSetupKeys).keys = written s ∧ Revalidates 2 s := by
  have haccepted : (scriptCall exampleConsume ⟨1, 1000⟩ exampleSetupKeys).reply = .accepted := by
    decide +kernel
  have hunused : AdapterRun exampleConfiguration [] .empty := .init rfl
  have hrun : AdapterRun exampleConfiguration
      [scriptCall exampleSetup ⟨0, 1⟩ .empty, scriptCall exampleConsume ⟨1, 1000⟩ exampleSetupKeys]
      (execute exampleConsume ⟨1, 1000⟩ exampleSetupKeys).keys :=
    (hunused.step (.execute ⟨0, 1⟩ (.setup rfl))).step (.execute ⟨1, 1000⟩ exampleConsume_sent)
  have htime : NonRegressing [scriptCall exampleSetup ⟨0, 1⟩ .empty,
      scriptCall exampleConsume ⟨1, 1000⟩ exampleSetupKeys] := by
    simp [NonRegressing, scriptCall, Time.instant]
  refine ⟨haccepted, (stored_state_revalidates hrun htime).2.1
    ⟨scriptCall exampleConsume ⟨1, 1000⟩ exampleSetupKeys, by simp, ?_⟩⟩
  simp [ScriptCall.wrote, haccepted]

end AgentSig.Redis
