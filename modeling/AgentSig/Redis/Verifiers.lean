import AgentSig.Profiles.Engine
import AgentSig.Redis.Agreement
import Mathlib.Logic.Function.Basic

/-!
# Verifiers that share a namespace

Any number of invocations of verifiers consume the replay groups of their candidates at one script.
They share one effective clock, which does not regress and from which `TIME` differs by a constant.
An invocation prepares a group at the second of the clock and sends a command, which is executed at
any later time, or never; the invocation waits for the reply or gives up on it. It settles the group,
and at last checks its candidates, at seconds of the clock that may be as late.

## Main definitions

* `second`: the second of an instant of the clock
* `Command`, `Invocation`, `LocalStep`: an invocation, and the steps that it takes on its own
* `Fleet`, `ProtocolStep`, `ProtocolRun`: all invocations, the commands on their way and the keys
* `VerifiesSigned`: an invocation verifies a candidate with given signed values
-/

namespace AgentSig.Redis

open Commons Core Profiles StructuredFields

/-- The second of an instant of the clock, which is in microseconds. -/
def second (instant : ℤ) : ℤ := instant / 1000000

theorem second_mono {instant instant' : ℤ} (h : instant ≤ instant') :
    second instant ≤ second instant' :=
  Int.ediv_le_ediv (by decide) h

/-- A command on its way to the script: which invocation has sent it, the instant at which its group
was prepared, the preparation, and the arguments. -/
structure Command where
  invocation : ℕ
  sampled : ℤ
  preparation : Preparation
  arguments : Arguments

/-- Where an invocation is. -/
inductive Invocation
  | idle
  /-- Before the next replay group, or after the last. -/
  | consuming (members : List Positioned) (groups : ReplayGroups) (outcomes : ReplayOutcomes)
  /-- The adapter has sent a command for a group. -/
  | waiting (members : List Positioned) (groups : ReplayGroups) (command : Command)
  /-- The adapter has answered. -/
  | answered (members : List Positioned) (groups : ReplayGroups) (p : Preparation)
      (outcome : StoreOutcome)
  | finished

/-- What the history of the verifiers records: the executions of the script, of an invocation or of a
setup, and the candidates that an invocation has verified. -/
inductive ProtocolEvent
  | executed (invocation : Option ℕ) (call : ScriptCall)
  | verified (invocation : ℕ) (candidate : EligibleCandidate)

/-- The execution of an event. -/
def ProtocolEvent.call? : ProtocolEvent → Option ScriptCall
  | .executed _ call => some call
  | .verified _ _ => none

/-- The executions of a history. -/
def scriptCalls (es : List ProtocolEvent) : List ScriptCall := es.filterMap ProtocolEvent.call?

/-- The invocations, the commands that are not executed yet, the keys, and the clock. -/
structure Fleet where
  clock : ℤ
  keys : Keys
  flight : List Command
  invocations : ℕ → Invocation

/-- Nobody has done anything yet, and the namespace is unused. -/
def Fleet.Initial (s : Fleet) : Prop :=
  s.keys = .empty ∧ s.flight = [] ∧ ∀ i, s.invocations i = .idle

/-- The invocation `i` goes on. -/
def Fleet.put (s : Fleet) (i : ℕ) (invocation : Invocation) : Fleet :=
  { s with invocations := Function.update s.invocations i invocation }

/-- The steps of an invocation that neither send a command nor receive a reply, at a second. -/
inductive LocalStep (scope : Text) (time : TimePolicy) (now : ℤ) : Invocation → Invocation → Prop
  /-- A call groups its eligible candidates. -/
  | start (evaluations : List CandidateEvaluation) :
    (∀ m ∈ eligibleCandidates evaluations, m.2.time = time) →
    LocalStep scope time now .idle (.consuming (eligibleCandidates evaluations)
      (groupCandidates scope [] [] (eligibleCandidates evaluations)).1
      (groupCandidates scope [] [] (eligibleCandidates evaluations)).2)
  /-- Nobody of a group is ready. -/
  | skip {members group : List Positioned} {groups : ReplayGroups} {outcomes : ReplayOutcomes}
    {identity : ReplayIdentity} {p : Preparation} {e : ProfileError} {rejection : ProfileRejection} :
    prepareGroup now outcomes group = .ok p → preparedInput scope now p = .error e →
    e.rejection? = some rejection →
    LocalStep scope time now (.consuming members ((identity, group) :: groups) outcomes)
      (.consuming members groups (failGroup rejection p.outcomes group))
  /-- The adapter refuses the input of a group. -/
  | refuse {members group : List Positioned} {groups : ReplayGroups} {outcomes : ReplayOutcomes}
    {identity : ReplayIdentity} {p : Preparation} {input : ReplayConsumeInput} :
    prepareGroup now outcomes group = .ok p → preparedInput scope now p = .ok input →
    prepareRedisConsume (untrustedInput input) = none →
    LocalStep scope time now (.consuming members ((identity, group) :: groups) outcomes)
      (.answered members groups p .unavailable)
  /-- The adapter gives up on a reply. -/
  | giveUp {members : List Positioned} {groups : ReplayGroups} {command : Command} :
    LocalStep scope time now (.waiting members groups command)
      (.answered members groups command.preparation .unavailable)
  | settle {members : List Positioned} {groups : ReplayGroups} {p : Preparation}
    {outcome : StoreOutcome} {outcomes : ReplayOutcomes} :
    settleGroup outcome now p.outcomes p.ready = .ok outcomes →
    LocalStep scope time now (.answered members groups p outcome)
      (.consuming members groups outcomes)
  /-- The call fails as a whole, and verifies nothing. -/
  | fail {invocation : Invocation} : LocalStep scope time now invocation .finished

/-- The candidates that pass their last check, at a second. -/
def verifiedMembers (outcomes : ReplayOutcomes) (now : ℤ) (members : List Positioned) :
    List Positioned :=
  members.filter fun m => (verifyCandidate m.2 (OrderedMap.lookup outcomes m.1) now).isOk

/-- The steps of the verifiers that share a scope and a time policy. -/
inductive ProtocolStep (scope : Text) (time : TimePolicy) (offset : ℤ) :
    Fleet → List ProtocolEvent → Fleet → Prop
  | advance {s : Fleet} {clock : ℤ} : s.clock ≤ clock →
    ProtocolStep scope time offset s [] { s with clock }
  | setup {s : Fleet} {configuration : RedisReplayConfiguration} {bytes : List UInt8} (t : Time) :
    bytes.length = 16 → t.instant = s.clock + offset →
    ProtocolStep scope time offset s
      [.executed none (scriptCall (argumentsFor configuration "setup" none bytes) t s.keys)]
      { s with keys := (execute (argumentsFor configuration "setup" none bytes) t s.keys).keys }
  | proceed {s : Fleet} {i : ℕ} {invocation : Invocation} :
    LocalStep scope time (second s.clock) (s.invocations i) invocation →
    ProtocolStep scope time offset s [] (s.put i invocation)
  /-- A group is prepared, and its command is sent. -/
  | dispatch {s : Fleet} {i : ℕ} {members group : List Positioned} {groups : ReplayGroups}
    {outcomes : ReplayOutcomes} {identity : ReplayIdentity} {p : Preparation}
    {input : ReplayConsumeInput} {record : RedisConsumeRecord}
    {configuration : RedisReplayConfiguration} {bytes : List UInt8} :
    s.invocations i = .consuming members ((identity, group) :: groups) outcomes →
    prepareGroup (second s.clock) outcomes group = .ok p →
    preparedInput scope (second s.clock) p = .ok input →
    prepareRedisConsume (untrustedInput input) = some record → bytes.length = 16 →
    ProtocolStep scope time offset s []
      { s.put i (.waiting members groups
          ⟨i, s.clock, p, argumentsFor configuration "consume" (some record) bytes⟩) with
        flight := ⟨i, s.clock, p, argumentsFor configuration "consume" (some record) bytes⟩ ::
          s.flight }
  /-- A command is executed, and its reply is lost or nobody waits for it. -/
  | lose {s : Fleet} {before after : List Command} {command : Command} (t : Time) :
    s.flight = before ++ command :: after → t.instant = s.clock + offset →
    ProtocolStep scope time offset s
      [.executed (some command.invocation) (scriptCall command.arguments t s.keys)]
      { s with keys := (execute command.arguments t s.keys).keys, flight := before ++ after }
  /-- A command is executed, and its reply arrives. -/
  | deliver {s : Fleet} {before after : List Command} {command : Command} {members : List Positioned}
    {groups : ReplayGroups} (t : Time) :
    s.flight = before ++ command :: after → t.instant = s.clock + offset →
    s.invocations command.invocation = .waiting members groups command →
    ProtocolStep scope time offset s
      [.executed (some command.invocation) (scriptCall command.arguments t s.keys)]
      { s.put command.invocation (.answered members groups command.preparation
          (storeOutcome (execute command.arguments t s.keys).reply)) with
        keys := (execute command.arguments t s.keys).keys
        flight := before ++ after }
  /-- The candidates are checked a last time. -/
  | finish {s : Fleet} {i : ℕ} {members : List Positioned} {outcomes : ReplayOutcomes} :
    s.invocations i = .consuming members [] outcomes →
    ProtocolStep scope time offset s
      ((verifiedMembers outcomes (second s.clock) members).map fun m => .verified i m.2)
      (s.put i .finished)

/-- The runs of the verifiers from an unused namespace. -/
abbrev ProtocolRun (scope : Text) (time : TimePolicy) (offset : ℤ) (es : List ProtocolEvent)
    (s : Fleet) : Prop :=
  Run Fleet.Initial (ProtocolStep scope time offset) es s

/-- An invocation verifies a candidate with these signed values. -/
def VerifiesSigned (es : List ProtocolEvent) (i : ℕ) (thumbprint nonce : Text)
    (created expires : Number) : Prop :=
  ∃ candidate, .verified i candidate ∈ es ∧ candidate.thumbprint = thumbprint ∧
    candidate.metadata.nonce = some nonce ∧ candidate.metadata.created = created ∧
    candidate.metadata.expires = expires

end AgentSig.Redis
