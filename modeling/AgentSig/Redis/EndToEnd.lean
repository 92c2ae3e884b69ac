import AgentSig.Redis.Verifiers

/-!
# Replay protection across verifiers

Durations are sent in place of deadlines, seconds are floored, `TIME` is floored to observe and ceiled
to retain, and commands are executed at any later time. An identity is nevertheless accepted again only
when nobody can verify the first request any more: the duration is measured from a second that is not
after the sample, and the execution is not before it.

## Main definitions

* `Dispatched`: what a command was prepared of
* `ConsumedBy`: the script has accepted a candidate for an invocation
* `ProtocolInvariant`: what the history says of the verifiers

## Main results

* `retention_of_accepted_again`: an identity is accepted again only after its retention
* `protocolInvariant_step`: one step keeps the invariant
* `verified_by_one_invocation`: **one invocation verifies a signed request**
-/

namespace AgentSig.Redis

open Commons Core Profiles StructuredFields

section Acceptances

variable {pre mid post calls : List ScriptCall} {keys : Keys} {first later : ScriptCall}

/-- Executions of adapters are executions. -/
theorem namespaceRun_of_sharedRun (h : SharedRun calls keys) :
    NamespaceRun (calls.map .executed) keys := by
  induction h with
  | init hkeys => exact .init hkeys
  | step _ hstep ih =>
    cases hstep with
    | execute t =>
      rw [List.map_append]
      exact ih.step (.execute _ t)

/-- An identity is accepted again only once its duration has passed: the deadline starts after the first
execution, and is observed before the later one. -/
theorem duration_of_accepted_again (h : SharedRun calls keys) (htime : NonRegressing calls)
    (hcalls : calls = pre ++ first :: (mid ++ later :: post)) (hfirst : first.reply = .accepted)
    (hlater : later.reply = .accepted) (hidentity : first.arguments.identity = later.arguments.identity) :
    ∃ duration, integer first.arguments.duration = some duration ∧
      first.time.instant + duration * 1000 ≤ later.time.instant := by
  have hevents : calls.map HistoryEvent.executed = pre.map .executed ++ .executed first ::
      (mid.map .executed ++ .executed later :: post.map .executed) := by simp [hcalls]
  obtain ⟨duration, hduration, hapart⟩ :=
    accepted_apart (namespaceRun_of_sharedRun h) hevents hfirst hlater hidentity
  refine ⟨duration, hduration, ?_⟩
  have hwrote : first.wrote := by simp [ScriptCall.wrote, hfirst]
  have hinner : ∀ call ∈ mid, call.started = false ∧ call.time.instant ≤ later.time.instant := by
    intro call hcall
    obtain ⟨mid₁, mid₂, rfl⟩ := List.append_of_mem hcall
    have hsplit : calls = pre ++ first :: (mid₁ ++ call :: (mid₂ ++ later :: post)) := by simp [hcalls]
    refine ⟨not_started_after h htime hsplit hwrote, ?_⟩
    rw [hcalls] at htime
    have htail := (List.pairwise_cons.mp (List.pairwise_append.mp htime).2.1).2
    exact (List.pairwise_append.mp htail).2.2 call hcall later List.mem_cons_self
  -- The deadline was seen by some execution that is not after the later one.
  obtain ⟨seen, hseen, hle⟩ : ∃ seen : ScriptCall,
      first.time.deadlineBase + duration ≤ seen.time.now ∧
        seen.time.instant ≤ later.time.instant := by
    rcases hapart with ⟨mid₁, q, mid₂, horizon, hmid, hq, -⟩ | ⟨-, hseen | ⟨call, hmem, hseen, -⟩⟩
    · have hmem : HistoryEvent.executed q ∈ mid.map HistoryEvent.executed := by simp [hmid]
      obtain ⟨call, hcall, heq⟩ := List.mem_map.mp hmem
      obtain rfl := HistoryEvent.executed.inj heq
      rw [(hinner call hcall).1] at hq
      simp at hq
    · exact ⟨later, hseen, le_rfl⟩
    · obtain ⟨call', hcall, heq⟩ := List.mem_map.mp hmem
      obtain rfl := HistoryEvent.executed.inj heq
      exact ⟨call', hseen, (hinner call' hcall).2⟩
  simp only [Time.instant, Time.now, Time.deadlineBase] at *
  omega

end Acceptances

/-! ## Commands -/

/-- A command was prepared of a group of one identity, at the second of its sample. -/
structure Dispatched (scope : Text) (command : Command) : Prop where
  group : ∃ outcomes group identity, (∀ m ∈ group, replayIdentity scope m.2 = some identity) ∧
    prepareGroup (second command.sampled) outcomes group = .ok command.preparation
  input : ∃ input record configuration bytes,
    preparedInput scope (second command.sampled) command.preparation = .ok input ∧
    prepareRedisConsume (untrustedInput input) = some record ∧ bytes.length = 16 ∧
    command.arguments = argumentsFor configuration "consume" (some record) bytes

section Commands

variable {scope : Text} {command : Command}

theorem Dispatched.sent (h : Dispatched scope command) :
    ∃ configuration, Sent configuration command.arguments := by
  obtain ⟨input, record, configuration, bytes, -, hrecord, hbytes, harguments⟩ := h.input
  exact ⟨configuration, harguments ▸ .consume hbytes hrecord⟩

/-- The fields of an object with the fields of an input. -/
theorem eq_of_read_untrustedInput {input i : ReplayConsumeInput}
    (h : (untrustedInput input).read = some i) : i = input := by
  have hsafe : ∀ z z', PropertyValue.integer? (.number (.integer z)) = some z' → z' = z := by
    intro z z' hz
    simp only [PropertyValue.integer?, Number.safeInteger?, Number.toInt?,
      Option.filter_eq_some_iff] at hz
    exact (Option.some.inj hz.1).symm
  simp only [UntrustedInput.read, untrustedInput, Option.bind_eq_bind, Option.bind_eq_some_iff,
    PropertyValue.text?, Option.some.injEq, Option.pure_def] at h
  obtain ⟨_, rfl, _, hscope, _, hthumbprint, _, hnonce, _, hnow, _, huntil, rfl⟩ := h
  obtain rfl := Option.some.inj hscope
  obtain rfl := Option.some.inj hthumbprint
  obtain rfl := Option.some.inj hnonce
  rw [hsafe _ _ hnow, hsafe _ _ huntil]

/-- What a command says of its group: each member that is ready has the identity that was sent and is
acceptable until the retention, and the duration is what is left until the retention at the second of
the sample. -/
theorem Dispatched.spec (h : Dispatched scope command) : ∃ input,
    MemoryReplayStore.validInput DEFAULT_PROFILE_LIMITS.replay input ∧
    command.arguments.identity = encodeIdentity input.identity ∧
    (∀ m ∈ command.preparation.ready, replayIdentity scope m.2 = some input.identity ∧
      ReadyUntil (second command.sampled) command.preparation.retainUntil m.2) ∧
    ∃ duration, integer command.arguments.duration = some duration ∧
      (duration : ℤ) = (command.preparation.retainUntil - second command.sampled) * 1000 := by
  obtain ⟨outcomes, group, identity, hidentity, hp⟩ := h.group
  obtain ⟨input, record, configuration, bytes, hinput, hrecord, -, harguments⟩ := h.input
  obtain ⟨i, hread, hprepared⟩ := prepareRedisConsume_eq_some hrecord
  obtain rfl := eq_of_read_untrustedInput hread
  have hspec := prepareGroup_spec hp
  have hready : ∀ m ∈ command.preparation.ready, replayIdentity scope m.2 = some identity :=
    fun m hm => hidentity m (hspec.mem m hm)
  obtain ⟨rfl, hnow, huntil⟩ := preparedInput_spec hready hinput
  refine ⟨i, hprepared.valid, ?_, fun m hm => ⟨hready m hm, hspec.ready m hm⟩,
    record.durationMilliseconds, ?_, ?_⟩
  · rw [harguments, ← hprepared.identity]
    rfl
  · rw [harguments]
    exact integer_decimal (Nat.cast_le.mp hprepared.safe)
  · rw [hprepared.duration, hnow, huntil]

end Commands

/-! ## What the history says -/

/-- The script has accepted a command of an invocation, for a group in which a candidate was ready. -/
def ConsumedBy (scope : Text) (offset : ℤ) (es : List ProtocolEvent) (i : ℕ)
    (m : Positioned) : Prop :=
  ∃ (call : ScriptCall) (command : Command), .executed (some i) call ∈ es ∧ call.reply = .accepted ∧
    call.arguments = command.arguments ∧ Dispatched scope command ∧ m ∈ command.preparation.ready ∧
    command.sampled + offset ≤ call.time.instant

/-- Whoever has the outcome `accepted` was consumed. -/
def AcceptedOf (scope : Text) (offset : ℤ) (es : List ProtocolEvent) (i : ℕ)
    (members : List Positioned) (outcomes : ReplayOutcomes) : Prop :=
  ∀ position, OrderedMap.lookup outcomes position = some .accepted →
    ∃ m ∈ members, m.1 = position ∧ ConsumedBy scope offset es i m

/-- The candidates of an invocation have different positions and one time policy. -/
structure MembersOf (time : TimePolicy) (members : List Positioned) : Prop where
  position : ∀ m ∈ members, ∀ m' ∈ members, m.1 = m'.1 → m = m'
  time : ∀ m ∈ members, m.2.time = time

/-- What the history says of an invocation. -/
def InvocationOf (scope : Text) (time : TimePolicy) (offset : ℤ) (es : List ProtocolEvent) (i : ℕ) :
    Invocation → Prop
  | .idle | .finished => True
  | .consuming members groups outcomes => MembersOf time members ∧ GroupsOf scope members groups ∧
    AcceptedOf scope offset es i members outcomes
  | .waiting members groups command => MembersOf time members ∧ GroupsOf scope members groups ∧
    AcceptedOf scope offset es i members command.preparation.outcomes ∧
    ∀ m ∈ command.preparation.ready, m ∈ members
  | .answered members groups p outcome => MembersOf time members ∧ GroupsOf scope members groups ∧
    AcceptedOf scope offset es i members p.outcomes ∧ (∀ m ∈ p.ready, m ∈ members) ∧
    (outcome = .accepted → ∀ m ∈ p.ready, ConsumedBy scope offset es i m)

/-- A candidate was verified at the second of an instant that is not before the acceptance of the
command for its group. -/
structure Verification (scope : Text) (time : TimePolicy) (offset : ℤ) (es : List ProtocolEvent)
    (i : ℕ) (candidate : EligibleCandidate) (call : ScriptCall) (command : Command) (checked : ℤ) :
    Prop where
  executed : .executed (some i) call ∈ es
  reply : call.reply = .accepted
  arguments : call.arguments = command.arguments
  dispatched : Dispatched scope command
  ready : ∃ position, (position, candidate) ∈ command.preparation.ready
  after : command.sampled + offset ≤ call.time.instant
  before : call.time.instant ≤ checked + offset
  policy : candidate.time = time
  accepts : time.Accepts candidate.metadata.created candidate.metadata.expires (second checked)

/-- A candidate was verified after its acceptance. -/
def VerifiedBy (scope : Text) (time : TimePolicy) (offset : ℤ) (es : List ProtocolEvent) (i : ℕ)
    (candidate : EligibleCandidate) : Prop :=
  ∃ call command checked, Verification scope time offset es i candidate call command checked

/-- What the history says of the verifiers. -/
structure ProtocolInvariant (scope : Text) (time : TimePolicy) (offset : ℤ)
    (es : List ProtocolEvent) (s : Fleet) : Prop where
  calls : SharedRun (scriptCalls es) s.keys
  nonRegressing : NonRegressing (scriptCalls es)
  past : ∀ call ∈ scriptCalls es, call.time.instant ≤ s.clock + offset
  flight : ∀ command ∈ s.flight, Dispatched scope command ∧ command.sampled ≤ s.clock
  invocations : ∀ i, InvocationOf scope time offset es i (s.invocations i)
  verified : ∀ i candidate, .verified i candidate ∈ es → candidate.metadata.nonce.isSome →
    VerifiedBy scope time offset es i candidate

section Histories

variable {scope : Text} {time : TimePolicy} {offset now : ℤ} {es fs : List ProtocolEvent} {i : ℕ}
  {m : Positioned} {members group : List Positioned} {outcomes outcomes' : ReplayOutcomes}
  {invocation invocation' : Invocation} {p : Preparation} {s s' : Fleet}

theorem ConsumedBy.mono (h : ConsumedBy scope offset es i m) :
    ConsumedBy scope offset (es ++ fs) i m := by
  obtain ⟨call, command, hmem, hrest⟩ := h
  exact ⟨call, command, List.mem_append_left _ hmem, hrest⟩

theorem AcceptedOf.mono (h : AcceptedOf scope offset es i members outcomes) :
    AcceptedOf scope offset (es ++ fs) i members outcomes := by
  intro position haccepted
  obtain ⟨m, hm, hposition, hconsumed⟩ := h position haccepted
  exact ⟨m, hm, hposition, hconsumed.mono⟩

theorem InvocationOf.mono (h : InvocationOf scope time offset es i invocation) :
    InvocationOf scope time offset (es ++ fs) i invocation := by
  cases invocation with
  | idle => trivial
  | finished => trivial
  | consuming =>
    obtain ⟨hmembers, hgroups, haccepted⟩ := h
    exact ⟨hmembers, hgroups, haccepted.mono⟩
  | waiting =>
    obtain ⟨hmembers, hgroups, haccepted, hready⟩ := h
    exact ⟨hmembers, hgroups, haccepted.mono, hready⟩
  | answered =>
    obtain ⟨hmembers, hgroups, haccepted, hready, hconsumed⟩ := h
    exact ⟨hmembers, hgroups, haccepted.mono, hready, fun h m hm => (hconsumed h m hm).mono⟩

theorem VerifiedBy.mono {candidate : EligibleCandidate}
    (h : VerifiedBy scope time offset es i candidate) :
    VerifiedBy scope time offset (es ++ fs) i candidate := by
  obtain ⟨call, command, checked, hverification⟩ := h
  exact ⟨call, command, checked,
    { hverification with executed := List.mem_append_left _ hverification.executed }⟩

/-- Preparing a group accepts nobody, and only its members are ready. -/
theorem AcceptedOf.prepare (h : AcceptedOf scope offset es i members outcomes)
    (hp : prepareGroup now outcomes group = .ok p) :
    AcceptedOf scope offset es i members p.outcomes :=
  fun position haccepted => h position ((prepareGroup_spec hp).outcomes position haccepted)

theorem mem_of_ready {groups : ReplayGroups} {identity : ReplayIdentity}
    (h : GroupsOf scope members ((identity, group) :: groups))
    (hp : prepareGroup now outcomes group = .ok p) : ∀ m ∈ p.ready, m ∈ members := fun m hm =>
  (h _ List.mem_cons_self m ((prepareGroup_spec hp).mem m hm)).2

theorem groupsOf_tail {groups : ReplayGroups} {g : ReplayIdentity × List Positioned}
    (h : GroupsOf scope members (g :: groups)) : GroupsOf scope members groups := fun g hg =>
  h g (List.mem_cons_of_mem _ hg)

/-- A step of an invocation on its own keeps what the history says of it. -/
theorem InvocationOf.step (h : InvocationOf scope time offset es i invocation)
    (hstep : LocalStep scope time now invocation invocation') :
    InvocationOf scope time offset es i invocation' := by
  cases hstep with
  | start evaluations htime =>
    obtain ⟨hgroups, hnone⟩ := groupCandidates_nil_spec scope (eligibleCandidates evaluations)
    refine ⟨⟨fun m hm m' hm' hposition => ?_, htime⟩, hgroups, fun position h =>
      absurd h (hnone position)⟩
    have hfirst := eligibleCandidates_spec.mp hm
    rw [hposition, eligibleCandidates_spec.mp hm'] at hfirst
    exact Prod.ext hposition (CandidateEvaluation.eligible.inj (Option.some.inj hfirst)).symm
  | skip hp =>
    obtain ⟨hmembers, hgroups, haccepted⟩ := h
    exact ⟨hmembers, groupsOf_tail hgroups, fun position h =>
      haccepted.prepare hp position (failGroup_accepted h)⟩
  | refuse hp =>
    obtain ⟨hmembers, hgroups, haccepted⟩ := h
    exact ⟨hmembers, groupsOf_tail hgroups, haccepted.prepare hp, mem_of_ready hgroups hp, by simp⟩
  | giveUp =>
    obtain ⟨hmembers, hgroups, haccepted, hready⟩ := h
    exact ⟨hmembers, hgroups, haccepted, hready, by simp⟩
  | settle hsettle =>
    obtain ⟨hmembers, hgroups, haccepted, hready, hconsumed⟩ := h
    refine ⟨hmembers, hgroups, fun position h => ?_⟩
    rcases settleGroup_accepted hsettle position h with h | ⟨houtcome, m, hm, hposition⟩
    · exact haccepted position h
    · exact ⟨m, hready m hm, hposition, hconsumed houtcome m hm⟩
  | fail => trivial

theorem scriptCalls_append : scriptCalls (es ++ fs) = scriptCalls es ++ scriptCalls fs :=
  List.filterMap_append

theorem mem_scriptCalls {who : Option ℕ} {call : ScriptCall} (h : .executed who call ∈ es) :
    call ∈ scriptCalls es :=
  List.mem_filterMap.mpr ⟨_, h, rfl⟩

/-- What an execution at the present instant of the clock keeps. -/
theorem ProtocolInvariant.execute {configuration : RedisReplayConfiguration} {a : Arguments} {t : Time}
    (h : ProtocolInvariant scope time offset es s) (hsent : Sent configuration a)
    (ht : t.instant = s.clock + offset) (who : Option ℕ) {flight : List Command}
    {invocations : ℕ → Invocation}
    (hflight : ∀ command ∈ flight, Dispatched scope command ∧ command.sampled ≤ s.clock)
    (hinvocations : ∀ i, InvocationOf scope time offset
      (es ++ [.executed who (scriptCall a t s.keys)]) i (invocations i)) :
    ProtocolInvariant scope time offset (es ++ [.executed who (scriptCall a t s.keys)])
      ⟨s.clock, (Redis.execute a t s.keys).keys, flight, invocations⟩ := by
  have hcalls : scriptCalls (es ++ [.executed who (scriptCall a t s.keys)]) =
      scriptCalls es ++ [scriptCall a t s.keys] := scriptCalls_append
  refine ⟨?_, ?_, fun call hcall => ?_, hflight, hinvocations, fun i candidate hmem hnonce => ?_⟩
  · rw [hcalls]
    exact h.calls.step (.execute t hsent)
  · rw [hcalls]
    refine List.pairwise_append.mpr ⟨h.nonRegressing, List.pairwise_singleton _ _, fun e he f hf => ?_⟩
    obtain rfl := List.mem_singleton.mp hf
    exact (h.past e he).trans ht.ge
  · rw [hcalls] at hcall
    rcases List.mem_append.mp hcall with hcall | hcall
    · exact h.past call hcall
    · obtain rfl := List.mem_singleton.mp hcall
      exact ht.le
  · rcases List.mem_append.mp hmem with hmem | hmem
    · exact (h.verified i candidate hmem hnonce).mono
    · simp at hmem

/-- What a step without an execution keeps. -/
theorem ProtocolInvariant.quiet {clock : ℤ} {flight : List Command} {invocations : ℕ → Invocation}
    (h : ProtocolInvariant scope time offset es s) (hclock : s.clock ≤ clock)
    (hflight : ∀ command ∈ flight, Dispatched scope command ∧ command.sampled ≤ clock)
    (hinvocations : ∀ i, InvocationOf scope time offset es i (invocations i)) :
    ProtocolInvariant scope time offset es ⟨clock, s.keys, flight, invocations⟩ :=
  ⟨h.calls, h.nonRegressing, fun call hcall => (h.past call hcall).trans (by simpa using hclock),
    hflight, hinvocations, h.verified⟩

/-- One invocation goes on. -/
theorem invocationOf_put (h : ∀ j, InvocationOf scope time offset es j (s.invocations j))
    (hi : InvocationOf scope time offset es i invocation) :
    ∀ j, InvocationOf scope time offset es j ((s.put i invocation).invocations j) := by
  intro j
  simp only [Fleet.put]
  by_cases hj : j = i
  · subst hj
    rwa [Function.update_self]
  · rw [Function.update_of_ne hj]
    exact h j

theorem storeOutcome_eq_accepted {reply : ScriptReply} (h : storeOutcome reply = .accepted) :
    reply = .accepted := by
  cases reply <;> simp_all [storeOutcome]

/-- A candidate that passes its last check was consumed. -/
theorem ProtocolInvariant.verifiedMembers (h : ProtocolInvariant scope time offset es s)
    (hi : s.invocations i = .consuming members [] outcomes)
    (hm : m ∈ verifiedMembers outcomes (second s.clock) members) (hnonce : m.2.metadata.nonce.isSome) :
    VerifiedBy scope time offset es i m.2 := by
  obtain ⟨hmember, hok⟩ := List.mem_filter.mp hm
  have hinvocation := h.invocations i
  rw [hi] at hinvocation
  obtain ⟨hmembers, -, haccepted⟩ := hinvocation
  cases hverify : verifyCandidate m.2 (OrderedMap.lookup outcomes m.1) (second s.clock) with
  | error e => simp [hverify, Except.isOk, Except.toBool] at hok
  | ok result =>
    have hverified := verifyCandidate_eq_ok hverify
    obtain ⟨m', hm', hposition, hconsumed⟩ := haccepted m.1
      (hverified.accepted (Option.isSome_iff_ne_none.mp hnonce))
    obtain rfl := hmembers.position m' hm' m hmember hposition
    obtain ⟨call, command, hmem, hreply, harguments, hdispatched, hready, hafter⟩ := hconsumed
    have htime := hmembers.time m' hmember
    exact ⟨call, command, s.clock, hmem, hreply, harguments, hdispatched, ⟨m'.1, hready⟩, hafter,
      h.past call (mem_scriptCalls hmem), htime, htime ▸ TimePolicy.check_eq_ok.mp hverified.check⟩

/-- One step keeps the invariant. -/
theorem protocolInvariant_step (h : ProtocolInvariant scope time offset es s)
    (hstep : ProtocolStep scope time offset s fs s') :
    ProtocolInvariant scope time offset (es ++ fs) s' := by
  cases hstep with
  | advance hclock =>
    rw [List.append_nil]
    refine h.quiet hclock (fun command hcommand => ?_) h.invocations
    obtain ⟨hdispatched, hsampled⟩ := h.flight command hcommand
    exact ⟨hdispatched, hsampled.trans hclock⟩
  | setup t hbytes ht =>
    exact h.execute (.setup hbytes) ht none h.flight fun i => (h.invocations i).mono
  | @proceed i invocation hlocal =>
    rw [List.append_nil]
    have hi := (h.invocations i).step hlocal
    exact h.quiet le_rfl h.flight (invocationOf_put h.invocations hi)
  | @dispatch i members group groups outcomes identity p input record configuration bytes hi hp hinput
      hrecord hbytes =>
    have hinvocation := h.invocations i
    rw [hi] at hinvocation
    obtain ⟨hmembers, hgroups, haccepted⟩ := hinvocation
    rw [List.append_nil]
    have hwaiting : InvocationOf scope time offset es i (.waiting members groups
        ⟨i, s.clock, p, argumentsFor configuration "consume" (some record) bytes⟩) :=
      ⟨hmembers, groupsOf_tail hgroups, haccepted.prepare hp, mem_of_ready hgroups hp⟩
    refine h.quiet le_rfl (fun command hcommand => ?_) (invocationOf_put h.invocations hwaiting)
    rcases List.mem_cons.mp hcommand with rfl | hcommand
    · have hidentity : ∀ m ∈ group, replayIdentity scope m.2 = some identity := fun m hm =>
        (hgroups _ List.mem_cons_self m hm).1
      exact ⟨⟨⟨outcomes, group, identity, hidentity, hp⟩,
        ⟨input, record, configuration, bytes, hinput, hrecord, hbytes, rfl⟩⟩, le_rfl⟩
    · exact h.flight command hcommand
  | @lose before after command t hflight ht =>
    obtain ⟨configuration, hsent⟩ := (h.flight command (by simp [hflight])).1.sent
    refine h.execute hsent ht _ (fun command hcommand => h.flight command ?_)
      fun i => (h.invocations i).mono
    rw [hflight]
    exact List.mem_append.mpr ((List.mem_append.mp hcommand).imp_right (List.mem_cons_of_mem _))
  | @deliver before after command members groups t hflight ht hi =>
    obtain ⟨hdispatched, hsampled⟩ := h.flight command (by simp [hflight])
    obtain ⟨configuration, hsent⟩ := hdispatched.sent
    have hinvocation := h.invocations command.invocation
    rw [hi] at hinvocation
    obtain ⟨hmembers, hgroups, haccepted, hready⟩ := hinvocation
    have hafter : command.sampled + offset ≤ t.instant := by omega
    have hanswered : InvocationOf scope time offset (es ++ [.executed (some command.invocation)
        (scriptCall command.arguments t s.keys)]) command.invocation (.answered members groups
          command.preparation (storeOutcome (execute command.arguments t s.keys).reply)) :=
      ⟨hmembers, hgroups, haccepted.mono, hready, fun houtcome m hm =>
        ⟨scriptCall command.arguments t s.keys, command, by simp, storeOutcome_eq_accepted houtcome,
          rfl, hdispatched, hm, hafter⟩⟩
    refine h.execute hsent ht _ (fun command hcommand => h.flight command ?_)
      (invocationOf_put (fun i => (h.invocations i).mono) hanswered)
    rw [hflight]
    exact List.mem_append.mpr ((List.mem_append.mp hcommand).imp_right (List.mem_cons_of_mem _))
  | @finish i members outcomes hi =>
    have hcalls : scriptCalls (es ++ (Redis.verifiedMembers outcomes (second s.clock) members).map
        fun m => .verified i m.2) = scriptCalls es := by
      rw [scriptCalls_append]
      simp [scriptCalls, ProtocolEvent.call?]
    refine ⟨hcalls ▸ h.calls, hcalls ▸ h.nonRegressing, hcalls ▸ h.past, h.flight,
      invocationOf_put (fun i => (h.invocations i).mono) trivial, fun j candidate hmem hnonce => ?_⟩
    rcases List.mem_append.mp hmem with hmem | hmem
    · exact (h.verified j candidate hmem hnonce).mono
    · obtain ⟨m, hm, heq⟩ := List.mem_map.mp hmem
      obtain ⟨rfl, rfl⟩ := ProtocolEvent.verified.inj heq
      exact (h.verifiedMembers hi hm hnonce).mono

/-- The invariant of every run. -/
theorem protocolInvariant_of_run (h : ProtocolRun scope time offset es s) :
    ProtocolInvariant scope time offset es s := by
  refine h.invariant (fun s hs => ?_) fun _ hinvariant hstep => protocolInvariant_step hinvariant hstep
  obtain ⟨hkeys, hflight, hidle⟩ := hs
  refine ⟨.init hkeys, .nil, by simp [scriptCalls], by simp [hflight], fun i => ?_, by simp⟩
  rw [hidle i]
  trivial

/-! ## Safety -/

variable {j : ℕ} {candidate candidate' : EligibleCandidate} {call call' : ScriptCall}
  {command command' : Command} {checked checked' : ℤ}

/-- Nobody verifies a request whose command was accepted after the command of the same request: the
retention of the first has passed, and with it the window of the request. -/
theorem Verification.not_before {pre mid post : List ScriptCall}
    (hinvariant : ProtocolInvariant scope time offset es s)
    (h : Verification scope time offset es i candidate call command checked)
    (h' : Verification scope time offset es j candidate' call' command' checked')
    (hidentity : replayIdentity scope candidate = replayIdentity scope candidate')
    (hcreated : candidate.metadata.created = candidate'.metadata.created)
    (hcalls : scriptCalls es = pre ++ call :: (mid ++ call' :: post)) : False := by
  obtain ⟨input, -, hencoded, hready, duration, hduration, hlength⟩ := h.dispatched.spec
  obtain ⟨input', -, hencoded', hready', -⟩ := h'.dispatched.spec
  obtain ⟨position, hposition⟩ := h.ready
  obtain ⟨position', hposition'⟩ := h'.ready
  obtain ⟨hcandidate, -, own, hown, hretain⟩ := hready _ hposition
  have hinput : input.identity = input'.identity :=
    Option.some.inj (hcandidate.symm.trans (hidentity.trans (hready' _ hposition').1))
  have harguments : call.arguments.identity = call'.arguments.identity := by
    rw [h.arguments, h'.arguments, hencoded, hencoded', hinput]
  obtain ⟨duration', hduration', hapart⟩ := duration_of_accepted_again hinvariant.calls
    hinvariant.nonRegressing hcalls h.reply h'.reply harguments
  rw [h.arguments, hduration] at hduration'
  obtain rfl := Option.some.inj hduration'
  rw [h.policy, hcreated] at hretain
  have hwindow : second checked' < own := TimePolicy.lt_retainUntil hretain h'.accepts
  have hafter := h.after
  have hbefore := h'.before
  simp only [second] at hwindow hlength
  omega

/-- Of two elements of a list that differ, one is before the other. -/
theorem exists_split_of_ne {e f : ProtocolEvent} (he : e ∈ es) (hf : f ∈ es) (hne : e ≠ f) :
    ∃ pre mid post, es = pre ++ e :: (mid ++ f :: post) ∨ es = pre ++ f :: (mid ++ e :: post) := by
  obtain ⟨pre, post, rfl⟩ := List.append_of_mem he
  rcases List.mem_append.mp hf with hf | hf
  · obtain ⟨pre, mid, rfl⟩ := List.append_of_mem hf
    exact ⟨pre, mid, post, .inr (by simp)⟩
  · rcases List.mem_cons.mp hf with rfl | hf
    · exact absurd rfl hne
    · obtain ⟨mid, post, rfl⟩ := List.append_of_mem hf
      exact ⟨pre, mid, post, .inl rfl⟩

end Histories

/-- In every run of verifiers that share a namespace, a scope, a time policy and an effective clock from
which `TIME` differs by a constant, at most one invocation verifies a signed request with a nonce. -/
theorem verified_by_one_invocation {scope : Text} {time : TimePolicy} {offset : ℤ}
    {es : List ProtocolEvent} {s : Fleet} (h : ProtocolRun scope time offset es s) {i j : ℕ}
    {thumbprint nonce : Text} {created expires : Number}
    (hi : VerifiesSigned es i thumbprint nonce created expires)
    (hj : VerifiesSigned es j thumbprint nonce created expires) : i = j := by
  obtain ⟨candidate, hmem, rfl, hnonce, rfl, rfl⟩ := hi
  obtain ⟨candidate', hmem', hthumbprint, hnonce', hcreated, -⟩ := hj
  have hinvariant := protocolInvariant_of_run h
  obtain ⟨call, command, checked, hverified⟩ := hinvariant.verified i candidate hmem (by simp [hnonce])
  obtain ⟨call', command', checked', hverified'⟩ :=
    hinvariant.verified j candidate' hmem' (by simp [hnonce'])
  have hidentity : replayIdentity scope candidate = replayIdentity scope candidate' := by
    simp only [replayIdentity, hnonce, hnonce', hthumbprint]
  by_contra hne
  have hdifferent : ProtocolEvent.executed (some i) call ≠ .executed (some j) call' := fun heq =>
    hne (Option.some.inj (ProtocolEvent.executed.inj heq).1)
  have hcalls : ∀ {es₁ es₂ es₃ : List ProtocolEvent} {k l : Option ℕ} {first later : ScriptCall},
      es = es₁ ++ .executed k first :: (es₂ ++ .executed l later :: es₃) →
      scriptCalls es = scriptCalls es₁ ++ first :: (scriptCalls es₂ ++ later :: scriptCalls es₃) := by
    rintro es₁ es₂ es₃ k l first later rfl
    simp [scriptCalls, ProtocolEvent.call?]
  obtain ⟨pre, mid, post, hsplit | hsplit⟩ :=
    exists_split_of_ne hverified.executed hverified'.executed hdifferent
  · exact hverified.not_before hinvariant hverified' hidentity hcreated.symm (hcalls hsplit)
  · exact hverified'.not_before hinvariant hverified hidentity.symm hcreated (hcalls hsplit)

/-- The members of a small group. -/
def exampleMembers : List Positioned := [(0, exampleCandidate (ascii "n"))]

/-- The group. -/
def exampleGroups : ReplayGroups := [((ascii "s", List.replicate 43 65, ascii "n"), exampleMembers)]

/-- The command of a small group. -/
def exampleCommand (sampled : ℤ) : Command := ⟨0, sampled, examplePreparation (ascii "n"), exampleConsume⟩

/-- Verifiers of which the first is at a point of its invocation. -/
def exampleFleet (clock : ℤ) (keys : Keys) (flight : List Command) (invocation : Invocation) : Fleet :=
  ⟨clock, keys, flight, Function.update (fun _ => .idle) 0 invocation⟩

/-- The steps of a small run. -/
abbrev ExampleStep (offset : ℤ) (s : Fleet) (es : List ProtocolEvent) (s' : Fleet) : Prop :=
  ProtocolStep (ascii "s") DEFAULT_TIME_POLICY offset s es s'

section ExampleSteps

variable {clock clock' sampled offset : ℤ} {keys keys' : Keys} {flight flight' : List Command}
  {invocation invocation' : Invocation}

theorem exampleFleet_invocation :
    (exampleFleet clock keys flight invocation).invocations 0 = invocation := by
  simp [exampleFleet]

theorem exampleFleet_step {s s' : Fleet} {es : List ProtocolEvent} (h : ExampleStep offset s es s')
    (heq : s' = exampleFleet clock keys flight invocation) :
    ExampleStep offset s es (exampleFleet clock keys flight invocation) :=
  heq ▸ h

/-- The clock goes on. -/
theorem exampleFleet_advance (h : clock ≤ clock') : ExampleStep offset (exampleFleet clock keys flight invocation)
    [] (exampleFleet clock' keys flight invocation) :=
  .advance h

/-- The invocation goes on. -/
theorem exampleFleet_proceed
    (h : LocalStep (ascii "s") DEFAULT_TIME_POLICY (second clock) invocation invocation') :
    ExampleStep offset (exampleFleet clock keys flight invocation) []
      (exampleFleet clock keys flight invocation') := by
  have hlocal : LocalStep (ascii "s") DEFAULT_TIME_POLICY (second clock)
      ((exampleFleet clock keys flight invocation).invocations 0) invocation' := by
    rwa [exampleFleet_invocation]
  refine exampleFleet_step (.proceed hlocal) ?_
  simp only [exampleFleet, Fleet.put, Function.update_idem]

/-- A group is prepared and sent. -/
theorem exampleFleet_dispatch (hsecond : second clock = 10) : ExampleStep offset
    (exampleFleet clock keys [] (.consuming exampleMembers exampleGroups [])) []
    (exampleFleet clock keys [exampleCommand clock] (.waiting exampleMembers [] (exampleCommand clock))) := by
  have hp : prepareGroup (second clock) [] exampleMembers = .ok (examplePreparation (ascii "n")) := by
    rw [hsecond]
    rfl
  have hinput : preparedInput (ascii "s") (second clock) (examplePreparation (ascii "n")) =
      .ok (exampleInput (ascii "n")) := by
    rw [hsecond]
    rfl
  have hprepare : prepareRedisConsume (untrustedInput (exampleInput (ascii "n"))) =
      some exampleRecord := by decide +kernel
  have hbytes : (List.replicate 16 (0 : UInt8)).length = 16 := List.length_replicate
  have hi : (exampleFleet clock keys [] (.consuming exampleMembers exampleGroups [])).invocations 0 =
      .consuming exampleMembers exampleGroups [] := exampleFleet_invocation
  refine exampleFleet_step (@ProtocolStep.dispatch _ _ _ _ _ _ _ _ _ _ _ _ _ exampleConfiguration _
    hi hp hinput hprepare hbytes) ?_
  simp only [exampleFleet, Fleet.put, Function.update_idem]
  rfl

/-- A command is executed, and the reply arrives. -/
theorem exampleFleet_deliver {command : Command} {members : List Positioned} {groups : ReplayGroups}
    {t : Time} (hcommand : command.invocation = 0) (htime : t.instant = clock + offset) :
    ExampleStep offset (exampleFleet clock keys [command] (.waiting members groups command))
      [.executed (some command.invocation) (scriptCall command.arguments t keys)]
      (exampleFleet clock (execute command.arguments t keys).keys [] (.answered members groups
        command.preparation (storeOutcome (execute command.arguments t keys).reply))) := by
  have hi : (exampleFleet clock keys [command] (.waiting members groups command)).invocations
      command.invocation = .waiting members groups command := by
    rw [hcommand]
    exact exampleFleet_invocation
  have hflight : [command] = [] ++ command :: [] := rfl
  refine exampleFleet_step (.deliver t hflight htime hi) ?_
  rw [hcommand]
  simp only [exampleFleet, Fleet.put, Function.update_idem]
  rfl

end ExampleSteps

/-- A run in which an invocation verifies a candidate. -/
theorem exampleFleet_run : ∃ es s, ProtocolRun (ascii "s") DEFAULT_TIME_POLICY (-9000000) es s ∧
    .verified 0 (exampleCandidate (ascii "n")) ∈ es := by
  have hunused : ProtocolRun (ascii "s") DEFAULT_TIME_POLICY (-9000000) []
      (exampleFleet 9000001 .empty [] .idle) := .init ⟨rfl, rfl, fun i => by simp [exampleFleet]⟩
  have htime : Time.instant ⟨0, 1⟩ = 9000001 + -9000000 := by decide
  have hsetup : ExampleStep (-9000000) (exampleFleet 9000001 .empty [] .idle)
      [.executed none (scriptCall exampleSetup ⟨0, 1⟩ .empty)]
      (exampleFleet 9000001 exampleSetupKeys [] .idle) := .setup ⟨0, 1⟩ List.length_replicate htime
  have hstart : LocalStep (ascii "s") DEFAULT_TIME_POLICY (second 10000000) .idle
      (.consuming exampleMembers exampleGroups []) :=
    .start [.eligible (exampleCandidate (ascii "n"))] (List.forall_mem_singleton.mpr rfl)
  have hsecond : second 10001000 = 10 := by decide
  have hreply : (execute exampleConsume ⟨1, 1000⟩ exampleSetupKeys).reply = .accepted := by
    decide +kernel
  have hsettle : LocalStep (ascii "s") DEFAULT_TIME_POLICY (second 10001000)
      (.answered exampleMembers [] (examplePreparation (ascii "n"))
        (storeOutcome (execute exampleConsume ⟨1, 1000⟩ exampleSetupKeys).reply))
      (.consuming exampleMembers [] [(0, .accepted)]) := by
    rw [hsecond, hreply]
    exact .settle rfl
  have hverified : .verified 0 (exampleCandidate (ascii "n")) ∈
      (verifiedMembers [(0, .accepted)] (second 10001000) exampleMembers).map
        fun m => ProtocolEvent.verified 0 m.2 := by
    rw [hsecond]
    exact List.mem_cons_self
  have hsent := (((hunused.step hsetup).step (exampleFleet_advance (by decide))).step
    (exampleFleet_proceed hstart)).step (exampleFleet_dispatch (by decide))
  have hwait : (10000000 : ℤ) ≤ 10001000 := by decide
  have harrives : Time.instant ⟨1, 1000⟩ = 10001000 + -9000000 := by decide
  have hanswered := (hsent.step (exampleFleet_advance hwait)).step (exampleFleet_deliver rfl harrives)
  have hrun := (hanswered.step (exampleFleet_proceed hsettle)).step (.finish exampleFleet_invocation)
  exact ⟨_, _, hrun, List.mem_append_right _ hverified⟩

theorem verified_by_one_invocation_example : ∃ es,
    VerifiesSigned es 0 (List.replicate 43 65) (ascii "n") (.integer 0) (.integer 60) ∧
      ∀ j, VerifiesSigned es j (List.replicate 43 65) (ascii "n") (.integer 0) (.integer 60) → j = 0 := by
  obtain ⟨es, s, hrun, hverified⟩ := exampleFleet_run
  have h : VerifiesSigned es 0 (List.replicate 43 65) (ascii "n") (.integer 0) (.integer 60) :=
    ⟨_, hverified, rfl, rfl, rfl, rfl⟩
  exact ⟨es, h, fun j hj => verified_by_one_invocation hrun hj h⟩

end AgentSig.Redis
