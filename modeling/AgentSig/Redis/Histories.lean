import AgentSig.Commons.Runs
import AgentSig.Redis.Executions

/-!
# Histories of a namespace

Any number of instances execute the script on the three keys of a namespace, with any arguments and
at any readings of `TIME`, and keys are deleted from outside between the executions. The document
that the keys hold records the most recent quarantine, and every acceptance since then whose
deadline no later execution has seen.

## Main definitions

* `HistoryEvent`, `NamespaceStep`: the executions and the deletions of a history
* `Recorded`: what a document holds of a history

## Main results

* `recorded_of_run`: the keys hold a document that records the history, or a key is missing
* `accepted_apart`: an identity is accepted again after its deadline, or after a quarantine
* `keys_of_quarantine`: an intact quarantine stays as it is
* `replay_history_safe`: **the safety of whole histories**
-/

namespace AgentSig.Redis

open Commons Core Profiles StructuredFields

/-! ## Histories -/

/-- An execution of the script: what it was called with, and how it ended. -/
structure ScriptCall where
  arguments : Arguments
  time : Time
  reply : ScriptReply
  started : Bool
  deriving DecidableEq, Repr

/-- What happens to the keys. -/
inductive HistoryEvent
  | executed (call : ScriptCall)
  | deleted
  deriving DecidableEq, Repr

/-- Whether an event has started a quarantine. -/
def HistoryEvent.starts : HistoryEvent → Bool
  | .executed call => call.started
  | .deleted => false

/-- Whether an event is an execution. -/
def HistoryEvent.isExecution : HistoryEvent → Bool
  | .executed _ => true
  | .deleted => false

/-- The keys that are left after some of them are deleted. -/
def Keys.delete (keys : Keys) (epoch quarantineUntil state : Bool) : Keys where
  epoch := if epoch then none else keys.epoch
  quarantineUntil := if quarantineUntil then none else keys.quarantineUntil
  state := if state then none else keys.state

/-- An execution, as an event. -/
def scriptCall (a : Arguments) (t : Time) (keys : Keys) : ScriptCall :=
  ⟨a, t, (execute a t keys).reply, (execute a t keys).started⟩

/-- One step of a namespace: an execution, or the deletion of at least one key. -/
inductive NamespaceStep : Keys → List HistoryEvent → Keys → Prop
  | execute {keys : Keys} (a : Arguments) (t : Time) :
    NamespaceStep keys [.executed (scriptCall a t keys)] (execute a t keys).keys
  | delete {keys : Keys} (epoch quarantineUntil state : Bool) :
    epoch || quarantineUntil || state →
    NamespaceStep keys [.deleted] (keys.delete epoch quarantineUntil state)

/-- The history of a namespace that was unused. -/
abbrev NamespaceRun (es : List HistoryEvent) (keys : Keys) : Prop :=
  Run (· = Keys.empty) NamespaceStep es keys

theorem delete_missing {keys : Keys} {epoch quarantineUntil state : Bool}
    (h : epoch || quarantineUntil || state) :
    (keys.delete epoch quarantineUntil state).Missing := by
  simp only [Bool.or_eq_true] at h
  rcases h with (rfl | rfl) | rfl
  · exact .inl rfl
  · exact .inr (.inl rfl)
  · exact .inr (.inr rfl)

/-! ## What a document records -/

/-- A record of an identity is held, or a later execution has seen its deadline. -/
def Kept (d : Document) (post : List HistoryEvent) (identity : Text) (deadline : ℤ) : Prop :=
  (∃ r ∈ d.records, r.identity = identity ∧ (r.deadline : ℤ) = deadline) ∨
    ∃ call : ScriptCall, .executed call ∈ post ∧ deadline ≤ call.time.now ∧
      call.time.deadlineBase ≤ (d.lastTime : ℤ)

/-- What a document holds of a history. -/
structure Recorded (es : List HistoryEvent) (d : Document) : Prop where
  quarantine : ∀ pre q post, es = pre ++ .executed q :: post → q.started →
    (∀ e ∈ post, e.starts = false) →
    (d.detectedAt : ℤ) = q.time.deadlineBase ∧ integer q.arguments.horizon = some d.horizon
  accepted : ∀ pre call post, es = pre ++ .executed call :: post → call.reply = .accepted →
    (∀ e ∈ post, e.starts = false) →
    ∃ duration, integer call.arguments.duration = some duration ∧
      Kept d post call.arguments.identity (call.time.deadlineBase + duration)

section Steps

variable {es : List HistoryEvent} {d : Document} {a : Arguments} {t : Time} {c : Admission}
  {call : ScriptCall} {post : List HistoryEvent} {identity : Text} {deadline : ℤ}

theorem Kept.append (h : Kept d post identity deadline) (e : HistoryEvent) :
    Kept d (post ++ [e]) identity deadline :=
  h.imp_right fun ⟨call, hmem, h⟩ => ⟨call, List.mem_append_left _ hmem, h⟩

/-- An event that neither accepts nor starts a quarantine, and that keeps the document. -/
theorem Recorded.keep (h : Recorded es d) (hreply : call.reply ≠ .accepted)
    (hstarted : call.started = false) : Recorded (es ++ [.executed call]) d := by
  constructor
  · intro pre q post hes hq hpost
    rcases append_singleton_eq_append_cons hes with ⟨post', rfl, rfl⟩ | ⟨-, heq, -⟩
    · exact h.quarantine pre q post' rfl hq fun e he => hpost e (List.mem_append_left _ he)
    · obtain rfl := HistoryEvent.executed.inj heq
      rw [hstarted] at hq
      simp at hq
  · intro pre call' post hes haccepted hpost
    rcases append_singleton_eq_append_cons hes with ⟨post', rfl, rfl⟩ | ⟨-, heq, -⟩
    · obtain ⟨duration, hduration, hkept⟩ := h.accepted pre call' post' rfl haccepted
        fun e he => hpost e (List.mem_append_left _ he)
      exact ⟨duration, hduration, hkept.append _⟩
    · obtain rfl := HistoryEvent.executed.inj heq
      exact absurd haccepted hreply

/-- A new quarantine is recorded, whatever came before it. -/
theorem recorded_started (hadmits : Admits a t c) (harguments : call.arguments = a)
    (htime : call.time = t) (hreply : call.reply ≠ .accepted) (hstarted : call.started) :
    Recorded (es ++ [.executed call]) (.started a c) := by
  have hhorizon : c.horizon ≤ MAX := (Nat.le_add_left _ _).trans hadmits.horizon_le
  constructor
  · intro pre q post hes hq hpost
    rcases append_singleton_eq_append_cons hes with ⟨post', rfl, rfl⟩ | ⟨-, heq, -⟩
    · have := hpost (.executed call) (by simp)
      rw [HistoryEvent.starts, hstarted] at this
      simp at this
    · obtain rfl := HistoryEvent.executed.inj heq
      rw [harguments, htime, hadmits.horizon, integer_decimal hhorizon]
      exact ⟨hadmits.deadlineBase, rfl⟩
  · intro pre call' post hes haccepted hpost
    rcases append_singleton_eq_append_cons hes with ⟨post', rfl, rfl⟩ | ⟨-, heq, -⟩
    · have := hpost (.executed call) (by simp)
      rw [HistoryEvent.starts, hstarted] at this
      simp at this
    · obtain rfl := HistoryEvent.executed.inj heq
      exact absurd haccepted hreply

/-- What was kept is kept by an insertion: it is live, or the insertion has seen its deadline. -/
theorem Kept.insert {duration : ℕ} (h : Kept d post identity deadline) (hadmits : Admits a t c)
    (hinserts : Inserts d a c duration) (htime : call.time = t) :
    Kept (d.insert a c duration) (post ++ [.executed call]) identity deadline := by
  rcases h with ⟨r, hr, hidentity, hdeadline⟩ | ⟨call', hmem, hseen, hlast⟩
  · by_cases hlive : c.now < r.deadline
    · refine .inl ⟨r, List.mem_append_left _ ?_, hidentity, hdeadline⟩
      exact List.mem_filter.mpr ⟨hr, by simpa using hlive⟩
    · refine .inr ⟨call, by simp, ?_, ?_⟩
      · rw [htime, ← hadmits.now, ← hdeadline]
        exact_mod_cast not_lt.mp hlive
      · rw [htime, ← hadmits.deadlineBase]
        exact le_rfl
  · refine .inr ⟨call', List.mem_append_left _ hmem, hseen, hlast.trans ?_⟩
    exact_mod_cast hinserts.time

/-- An acceptance is recorded. -/
theorem Recorded.insert {duration : ℕ} (h : Recorded es d) (hadmits : Admits a t c)
    (hinserts : Inserts d a c duration) (harguments : call.arguments = a) (htime : call.time = t)
    (hstarted : call.started = false) :
    Recorded (es ++ [.executed call]) (d.insert a c duration) := by
  obtain ⟨-, -, -, htext, -, hfits⟩ := hadmits.consume duration hinserts.duration
  constructor
  · intro pre q post hes hq hpost
    rcases append_singleton_eq_append_cons hes with ⟨post', rfl, rfl⟩ | ⟨-, heq, -⟩
    · exact h.quarantine pre q post' rfl hq fun e he => hpost e (List.mem_append_left _ he)
    · obtain rfl := HistoryEvent.executed.inj heq
      rw [hstarted] at hq
      simp at hq
  · intro pre call' post hes haccepted hpost
    rcases append_singleton_eq_append_cons hes with ⟨post', rfl, rfl⟩ | ⟨-, heq, rfl⟩
    · obtain ⟨duration', hduration', hkept⟩ := h.accepted pre call' post' rfl haccepted
        fun e he => hpost e (List.mem_append_left _ he)
      exact ⟨duration', hduration', hkept.insert hadmits hinserts htime⟩
    · obtain rfl := HistoryEvent.executed.inj heq
      refine ⟨duration, ?_, .inl ⟨⟨a.identity, a.thumbprint, c.deadlineBase + duration⟩, ?_, ?_, ?_⟩⟩
      · rw [harguments, htext, integer_decimal ((Nat.le_add_left _ _).trans hfits)]
      · exact List.mem_append_right _ (List.mem_singleton.mpr rfl)
      · rw [harguments]
      · rw [htime, ← hadmits.deadlineBase]
        exact Nat.cast_add _ _

/-- One step keeps what the keys record. -/
theorem recorded_step {keys keys' : Keys} {fs : List HistoryEvent}
    (h : ∃ held, Holds keys held ∧ ∀ d, held = some d → Recorded es d)
    (hstep : NamespaceStep keys fs keys') :
    ∃ held, Holds keys' held ∧ ∀ d, held = some d → Recorded (es ++ fs) d := by
  obtain ⟨held, hkeys, hrecorded⟩ := h
  cases hstep with
  | delete epoch quarantineUntil state hsome =>
    exact ⟨none, delete_missing hsome, by simp⟩
  | execute a t =>
    cases hadmitted : admission a t with
    | none =>
      have hrefused : execute a t keys = ⟨keys, .unavailable, false⟩ := execute_refused hadmitted
      refine ⟨held, by rwa [hrefused], fun d hd => (hrecorded d hd).keep ?_ ?_⟩
      · simp [scriptCall, hrefused]
      · simp [scriptCall, hrefused]
    | some c =>
      obtain ⟨held', hkeys', heffect⟩ := execute_effect hkeys hadmitted
      have hadmits := admit_eq_some hadmitted
      refine ⟨held', hkeys', fun d hd => ?_⟩
      generalize hcall : scriptCall a t keys = call
      have hreply : call.reply = (execute a t keys).reply := by rw [← hcall, scriptCall]
      have hstarted : call.started = (execute a t keys).started := by rw [← hcall, scriptCall]
      have harguments : call.arguments = a := by rw [← hcall, scriptCall]
      have htime : call.time = t := by rw [← hcall, scriptCall]
      rw [← hreply, ← hstarted] at heffect
      generalize hr : call.reply = reply at heffect
      generalize hs : call.started = started at heffect
      cases heffect with
      | start =>
        obtain rfl := Option.some.inj hd
        exact recorded_started hadmits harguments htime (by simp [hr]) hs
      | insert hinserts =>
        obtain rfl := Option.some.inj hd
        exact (hrecorded _ rfl).insert hadmits hinserts harguments htime hs
      | keep hne => exact (hrecorded d hd).keep (by simpa [hr] using hne) hs

/-- The keys hold a document that records the history, or a key is missing. -/
theorem recorded_of_run {keys : Keys} (h : NamespaceRun es keys) :
    ∃ held, Holds keys held ∧ ∀ d, held = some d → Recorded es d := by
  refine h.invariant
    (I := fun es keys => ∃ held, Holds keys held ∧ ∀ d, held = some d → Recorded es d)
    (fun keys hkeys => ?_) fun _ hrecorded hstep => recorded_step hrecorded hstep
  subst hkeys
  exact ⟨none, .inl rfl, by simp⟩

end Steps

/-! ## Acceptances -/

section Acceptances

variable {es pre mid post : List HistoryEvent} {keys : Keys} {first later q : ScriptCall}

/-- An execution of a history is one of the script, on what was recorded before it. -/
theorem exists_execution (h : NamespaceRun es keys) (hes : es = pre ++ .executed later :: post) :
    ∃ before, NamespaceRun pre before ∧
      later = scriptCall later.arguments later.time before := by
  obtain ⟨pre', start, stop, post', before, after, rfl, rfl, hpre, hstep, -⟩ := h.exists_step_at hes
  generalize hfs : start ++ .executed later :: stop = fs at hstep
  cases hstep with
  | delete => cases start <;> simp at hfs
  | execute a t =>
    cases start with
    | nil =>
      obtain ⟨heq, -⟩ := List.cons.inj hfs
      obtain rfl := HistoryEvent.executed.inj heq
      exact ⟨before, by simpa using hpre, rfl⟩
    | cons e start => simp at hfs

/-- An acceptance inserts a record into a document that records the history before it. -/
theorem exists_insertion (h : NamespaceRun es keys) (hes : es = pre ++ .executed later :: post)
    (haccepted : later.reply = .accepted) :
    ∃ d c duration, Recorded pre d ∧ Admits later.arguments later.time c ∧
      Inserts d later.arguments c duration := by
  obtain ⟨before, hrun, hcall⟩ := exists_execution h hes
  obtain ⟨held, hkeys, hrecorded⟩ := recorded_of_run hrun
  have hreply : (execute later.arguments later.time before).reply = .accepted := by
    rw [hcall] at haccepted
    exact haccepted
  cases hadmitted : admission later.arguments later.time with
  | none =>
    rw [execute_refused hadmitted] at hreply
    simp at hreply
  | some c =>
    obtain ⟨held', -, heffect⟩ := execute_effect hkeys hadmitted
    rw [hreply] at heffect
    generalize (execute later.arguments later.time before).started = started at heffect
    cases heffect with
    | insert hinserts =>
      exact ⟨_, c, _, hrecorded _ rfl, admit_eq_some hadmitted, hinserts⟩
    | keep hne => exact absurd rfl hne

/-- The last event that has started a quarantine. -/
theorem exists_last_start (h : ∃ e ∈ mid, e.starts) :
    ∃ mid₁ q mid₂, mid = mid₁ ++ .executed q :: mid₂ ∧ q.started ∧
      ∀ e ∈ mid₂, e.starts = false := by
  induction mid with
  | nil => simp at h
  | cons e mid ih =>
    by_cases hlater : ∃ e ∈ mid, e.starts
    · obtain ⟨mid₁, q, mid₂, rfl, hq, hmid₂⟩ := ih hlater
      exact ⟨e :: mid₁, q, mid₂, rfl, hq, hmid₂⟩
    · have he : e.starts := by
        obtain ⟨e', he', hstarts⟩ := h
        rcases List.mem_cons.mp he' with rfl | he'
        · exact hstarts
        · exact absurd ⟨e', he', hstarts⟩ hlater
      cases e with
      | deleted => simp [HistoryEvent.starts] at he
      | executed q =>
        refine ⟨[], q, mid, rfl, he, fun e' he' => ?_⟩
        exact Bool.eq_false_iff.mpr fun hstarts => hlater ⟨e', he', hstarts⟩

/-- An identity is accepted again after the horizon of a quarantine that was started in between, or,
where there was none, once an execution has seen the deadline. -/
theorem accepted_apart (h : NamespaceRun es keys)
    (hes : es = pre ++ .executed first :: (mid ++ .executed later :: post))
    (hfirst : first.reply = .accepted) (hlater : later.reply = .accepted)
    (hidentity : first.arguments.identity = later.arguments.identity) :
    ∃ duration, integer first.arguments.duration = some duration ∧
      ((∃ mid₁ q mid₂ horizon, mid = mid₁ ++ .executed q :: mid₂ ∧ q.started ∧
          (∀ e ∈ mid₂, e.starts = false) ∧ integer q.arguments.horizon = some horizon ∧
          q.time.deadlineBase + horizon ≤ later.time.now) ∨
        (∀ e ∈ mid, e.starts = false) ∧
          (first.time.deadlineBase + duration ≤ later.time.now ∨
            ∃ call : ScriptCall, .executed call ∈ mid ∧
              first.time.deadlineBase + duration ≤ call.time.now ∧
              call.time.deadlineBase ≤ later.time.deadlineBase)) := by
  obtain ⟨d₁, c₁, duration, -, hadmits₁, hinserts₁⟩ := exists_insertion h hes hfirst
  have hduration : integer first.arguments.duration = some duration := by
    obtain ⟨-, -, -, htext, -, hfits⟩ := hadmits₁.consume duration hinserts₁.duration
    rw [htext, integer_decimal ((Nat.le_add_left _ _).trans hfits)]
  have hes' : es = (pre ++ .executed first :: mid) ++ .executed later :: post := by simp [hes]
  obtain ⟨d, c, _, hrecorded, hadmits, hinserts⟩ := exists_insertion h hes' hlater
  refine ⟨duration, hduration, ?_⟩
  by_cases hstart : ∃ e ∈ mid, e.starts
  · obtain ⟨mid₁, q, mid₂, rfl, hq, hmid₂⟩ := exists_last_start hstart
    obtain ⟨hdetected, hhorizon⟩ := hrecorded.quarantine (pre ++ .executed first :: mid₁) q mid₂
      (by simp) hq hmid₂
    refine .inl ⟨mid₁, q, mid₂, d.horizon, rfl, hq, hmid₂, hhorizon, ?_⟩
    rw [← hdetected, ← hadmits.now]
    exact_mod_cast hinserts.passed
  · have hmid : ∀ e ∈ mid, e.starts = false := fun e he =>
      Bool.eq_false_iff.mpr fun hstarts => hstart ⟨e, he, hstarts⟩
    obtain ⟨duration', hduration', hkept⟩ := hrecorded.accepted pre first mid rfl hfirst hmid
    obtain rfl := Option.some.inj (hduration'.symm.trans hduration)
    refine .inr ⟨hmid, ?_⟩
    rcases hkept with ⟨r, hr, hrid, hdeadline⟩ | ⟨call, hmem, hseen, hlast⟩
    · -- The record is not live, or the later identity would have been a replay.
      have hexpired : ¬ c.now < r.deadline := fun hlive =>
        hinserts.fresh r (List.mem_filter.mpr ⟨hr, by simpa using hlive⟩) (hrid.trans hidentity)
      refine .inl ?_
      rw [← hdeadline, ← hadmits.now]
      exact_mod_cast not_lt.mp hexpired
    · refine .inr ⟨call, hmem, hseen, hlast.trans ?_⟩
      rw [← hadmits.deadlineBase]
      exact_mod_cast hinserts.time

end Acceptances

/-! ## Quarantines -/

section Quarantines

variable {es pre mid : List HistoryEvent} {keys : Keys} {q : ScriptCall} {a a₀ : Arguments}
  {t t₀ : Time} {c₀ : Admission} {horizon : ℕ}

/-- An execution on the document of a quarantine that is not over, unless the time has regressed. -/
theorem execute_quarantined (hadmits : Admits a₀ t₀ c₀) (hbase : t₀.deadlineBase ≤ t.deadlineBase)
    (hnow : t.now < t₀.deadlineBase + c₀.horizon) :
    ∃ reply, execute a t (written (Document.started a₀ c₀).state) =
        ⟨written (Document.started a₀ c₀).state, reply, false⟩ ∧ reply ≠ .accepted ∧
      (a.horizon = a₀.horizon → a.capacity = a₀.capacity → a.quota = a₀.quota →
        admission a t ≠ none → reply = .quarantine) := by
  cases hadmitted : admission a t with
  | none => exact ⟨.unavailable, execute_refused hadmitted, by simp, by simp⟩
  | some c =>
    have h := admit_eq_some hadmitted
    have htime : ¬ c.deadlineBase < c₀.deadlineBase := by
      have := h.deadlineBase
      have := hadmits.deadlineBase
      omega
    have hover : c.now < c₀.deadlineBase + c₀.horizon := by
      have := h.now
      have := hadmits.deadlineBase
      omega
    rw [execute_written (started_valid hadmits) hadmitted]
    by_cases hsame : c₀.horizon = c.horizon ∧ c₀.capacity = c.capacity ∧ c₀.quota = c.quota
    · have hverdict : (Document.started a₀ c₀).verdict a c = .reply .quarantine := by
        simp [Document.verdict, Document.started, Document.untilTime, htime, hsame, hsame.1 ▸ hover]
      rw [hverdict]
      exact ⟨.quarantine, rfl, by simp, fun _ _ _ _ => rfl⟩
    · have hverdict : (Document.started a₀ c₀).verdict a c = .reply .configurationMismatch := by
        exact (if_neg htime).trans (if_pos (show c₀.horizon ≠ c.horizon ∨ c₀.capacity ≠ c.capacity ∨
          c₀.quota ≠ c.quota by tauto))
      rw [hverdict]
      refine ⟨.configurationMismatch, rfl, by simp, fun hh hc hq => absurd ⟨?_, ?_, ?_⟩ hsame⟩
      · exact decimal_injective (by rw [← hadmits.horizon, ← hh, h.horizon])
      · exact decimal_injective (by rw [← hadmits.capacity, ← hc, h.capacity])
      · exact decimal_injective (by rw [← hadmits.quota, ← hq, h.quota])

/-- The executions of an intact quarantine: no key is deleted, the time does not regress to before the
detection, and the horizon has not passed. -/
def Quarantined (q : ScriptCall) (horizon : ℕ) (mid : List HistoryEvent) : Prop :=
  ∀ e ∈ mid, ∃ call, e = .executed call ∧ q.time.deadlineBase ≤ call.time.deadlineBase ∧
    call.time.now < q.time.deadlineBase + horizon

/-- An intact quarantine stays as it is. -/
theorem keys_of_quarantine (h : NamespaceRun es keys) (hes : es = pre ++ .executed q :: mid)
    (hq : q.started) (hhorizon : integer q.arguments.horizon = some horizon)
    (hmid : Quarantined q horizon mid) :
    ∃ c, Admits q.arguments q.time c ∧ c.horizon = horizon ∧
      keys = written (Document.started q.arguments c).state := by
  refine h.invariant (I := fun es keys => ∀ pre q mid horizon, es = pre ++ .executed q :: mid →
    q.started → integer q.arguments.horizon = some horizon → Quarantined q horizon mid →
    ∃ c, Admits q.arguments q.time c ∧ c.horizon = horizon ∧
      keys = written (Document.started q.arguments c).state) (by simp) ?_ pre q mid horizon hes hq
    hhorizon hmid
  intro es fs keys keys' hrun ih hstep pre q mid horizon hes hq hhorizon hmid
  cases hstep with
  | delete =>
    rcases append_singleton_eq_append_cons hes with ⟨mid', -, rfl⟩ | ⟨-, heq, -⟩
    · obtain ⟨call, heq, -⟩ := hmid .deleted (by simp)
      simp at heq
    · simp at heq
  | execute a t =>
    rcases append_singleton_eq_append_cons hes with ⟨mid', rfl, rfl⟩ | ⟨-, heq, rfl⟩
    · obtain ⟨c, hadmits, rfl, rfl⟩ := ih pre q mid' horizon rfl hq hhorizon
        fun e he => hmid e (List.mem_append_left _ he)
      obtain ⟨call, heq, hbase, hnow⟩ := hmid (.executed (scriptCall a t
        (written (Document.started q.arguments c).state))) (List.mem_append_right _ (by simp))
      obtain rfl := HistoryEvent.executed.inj heq
      obtain ⟨reply, hexecute, -⟩ := execute_quarantined (a := a) hadmits hbase hnow
      exact ⟨c, hadmits, rfl, congrArg Execution.keys hexecute⟩
    · obtain rfl := HistoryEvent.executed.inj heq
      obtain ⟨held, hkeys, -⟩ := recorded_of_run hrun
      cases hadmitted : admission a t with
      | none => simp [scriptCall, execute_refused hadmitted] at hq
      | some c =>
        have hadmits := admit_eq_some hadmitted
        obtain ⟨held', hkeys', heffect⟩ := execute_effect hkeys hadmitted
        have hstarted : (execute a t keys).started = true := hq
        rw [hstarted] at heffect
        generalize (execute a t keys).reply = reply at heffect
        cases heffect with
        | start =>
          refine ⟨c, hadmits, ?_, hkeys'.1⟩
          have hlimit : c.horizon ≤ MAX := (Nat.le_add_left _ _).trans hadmits.horizon_le
          rw [scriptCall, hadmits.horizon, integer_decimal hlimit] at hhorizon
          exact Option.some.inj hhorizon

end Quarantines

/-! ## Safety -/

/-- In every history of a namespace that was unused, with any arguments, any readings of `TIME` and
any deletions: an identity is accepted again only after its duration, both times rounded up, or once
the horizon of the most recent quarantine in between has passed since its detection, which is rounded
up, with the time rounded down. An execution that neither accepts nor starts a quarantine leaves the
keys as they are. So does every execution of an intact quarantine, which starts none and accepts
nothing. -/
theorem replay_history_safe {es : List HistoryEvent} {keys : Keys} (h : NamespaceRun es keys) :
    (∀ (first later : ScriptCall) pre mid post,
      es = pre ++ .executed first :: (mid ++ .executed later :: post) → first.reply = .accepted → later.reply = .accepted →
      first.arguments.identity = later.arguments.identity →
      ∃ duration, integer first.arguments.duration = some duration ∧
        (first.time.deadlineBase + duration ≤ later.time.deadlineBase ∨
          ∃ (q : ScriptCall) (mid₁ mid₂ : List HistoryEvent) (horizon : ℕ),
            mid = mid₁ ++ .executed q :: mid₂ ∧ q.started ∧ (∀ e ∈ mid₂, e.starts = false) ∧
            integer q.arguments.horizon = some horizon ∧
            q.time.deadlineBase + horizon ≤ later.time.now)) ∧
    (∀ a t, (execute a t keys).reply ≠ .accepted → (execute a t keys).started = false →
      (execute a t keys).keys = keys) ∧
    ∀ (q : ScriptCall) pre mid horizon, es = pre ++ .executed q :: mid → q.started →
      integer q.arguments.horizon = some horizon → Quarantined q horizon mid →
      ∀ a t, q.time.deadlineBase ≤ t.deadlineBase → t.now < q.time.deadlineBase + horizon →
        (execute a t keys).keys = keys ∧ (execute a t keys).started = false ∧
        (execute a t keys).reply ≠ .accepted ∧
        (a.horizon = q.arguments.horizon → a.capacity = q.arguments.capacity →
          a.quota = q.arguments.quota → admission a t ≠ none → (execute a t keys).reply = .quarantine) := by
  refine ⟨fun first later pre mid post hes hfirst hlater hidentity => ?_,
    fun a t => execute_unchanged, fun q pre mid horizon hes hq hhorizon hmid a t hbase hnow => ?_⟩
  · obtain ⟨duration, hduration, ⟨mid₁, q, mid₂, horizon, hquarantine⟩ | ⟨-, hapart⟩⟩ :=
      accepted_apart h hes hfirst hlater hidentity
    · exact ⟨duration, hduration, .inr ⟨q, mid₁, mid₂, horizon, hquarantine⟩⟩
    · refine ⟨duration, hduration, .inl ?_⟩
      rcases hapart with hseen | ⟨call, -, hseen, hlast⟩
      · exact hseen.trans later.time.now_le_deadlineBase
      · exact hseen.trans (call.time.now_le_deadlineBase.trans hlast)
  · obtain ⟨c, hadmits, rfl, rfl⟩ := keys_of_quarantine h hes hq hhorizon hmid
    obtain ⟨reply, hexecute, hreply, hsame⟩ := execute_quarantined (a := a) hadmits hbase hnow
    rw [hexecute]
    exact ⟨rfl, rfl, hreply, hsame⟩

/-- Arguments of a small namespace. -/
def exampleArguments (mode : String) : Arguments where
  mode := ascii mode
  horizon := ascii "1000"
  capacity := ascii "2"
  quota := ascii "1"
  proposedEpoch := List.replicate 32 97
  identity := ascii "aQ"
  thumbprint := List.replicate 43 65
  duration := ascii "500"

/-- The keys of a small namespace once its first quarantine has started. -/
def exampleKeys : Keys := (execute (exampleArguments "setup") ⟨0, 1⟩ .empty).keys

/-- The first acceptance. -/
def exampleFirst : ScriptCall := scriptCall (exampleArguments "consume") ⟨1, 1000⟩ exampleKeys

/-- The keys after the first acceptance. -/
def exampleKeys' : Keys := (execute (exampleArguments "consume") ⟨1, 1000⟩ exampleKeys).keys

/-- The next acceptance of the same identity. -/
def exampleLater : ScriptCall := scriptCall (exampleArguments "consume") ⟨1, 501000⟩ exampleKeys'

theorem replay_history_safe_example :
    exampleFirst.reply = .accepted ∧ exampleLater.reply = .accepted ∧
      ∃ duration, integer exampleFirst.arguments.duration = some duration ∧
        (exampleFirst.time.deadlineBase + duration ≤ exampleLater.time.deadlineBase ∨
          ∃ (q : ScriptCall) (mid₁ mid₂ : List HistoryEvent) (horizon : ℕ),
            [] = mid₁ ++ .executed q :: mid₂ ∧ q.started ∧ (∀ e ∈ mid₂, e.starts = false) ∧
            integer q.arguments.horizon = some horizon ∧
            q.time.deadlineBase + horizon ≤ exampleLater.time.now) := by
  have hfirst : exampleFirst.reply = .accepted := by decide +kernel
  have hlater : exampleLater.reply = .accepted := by decide +kernel
  refine ⟨hfirst, hlater, ?_⟩
  have hunused : NamespaceRun [] .empty := .init rfl
  have hrun := ((hunused.step (.execute (exampleArguments "setup") ⟨0, 1⟩)).step
    (.execute (exampleArguments "consume") ⟨1, 1000⟩)).step
    (.execute (exampleArguments "consume") ⟨1, 501000⟩)
  exact (replay_history_safe hrun).1 exampleFirst exampleLater
    [.executed (scriptCall (exampleArguments "setup") ⟨0, 1⟩ .empty)] [] [] rfl hfirst hlater rfl

end AgentSig.Redis
