import AgentSig.Commons.Pacing
import AgentSig.Commons.Runs
import AgentSig.Profiles.AgentOrigin
import AgentSig.Profiles.ClockTracker
import AgentSig.Profiles.ProfileLimits

/-!
# The fetch scheduler

One job fetches for all callers that ask for an origin at a time. Jobs wait in a queue for one of
sixteen slots, for a second with fewer than 32 starts, and for the cool-down of their origin. A job that
fails keeps its slot until its worker settles.

The code runs to completion between two awaits, except that the loop of `#pump` may call itself through a
worker that ends at once. So a step of the system is an event, or one round of the loop that follows it,
and the state counts the loops that wait for an inner one.

## Main definitions

* `Job`, `JobState`: the constant fields of a job, and the others
* `DirectoryFetchScheduler`: the state of a scheduler
* `run`, `round`, `execute`, `resume`: the operations, up to the next await or call of `#pump`
* `SchedulerSystem`, `schedulerStep`: a scheduler and its loops
* `SchedulerRun`: the runs from a new scheduler
-/

namespace AgentSig.Discovery

open Commons Core Profiles StructuredFields

/-- The reason of a `DirectoryAdmissionError`. -/
inductive DirectoryAdmissionReason
  | capacity
  | originRate
  | deadline
  | clock
  | fetchFailed
  deriving DecidableEq, Repr

/-- The constant fields of a `Job`, with a number that stands for the identity of the object. -/
structure Job where
  id : ℕ
  origin : Text
  started : ℚ
  deriving DecidableEq, Repr

/-- The other fields of a `Job`. The calls of `resolve` and of `reject` stand for `settled`, which is set
with each of them. -/
structure JobState (α : Type) where
  settlements : List (Except DirectoryAdmissionReason α)
  aborted : Bool
  timer : Option ℤ
  active : Bool
  /-- Whether `#execute` awaits the worker of the job. -/
  awaiting : Bool

/-- `settled`. -/
def JobState.settled {α : Type} (j : JobState α) : Bool := !j.settlements.isEmpty

/-- The fields of a new job. -/
def JobState.new {α : Type} : JobState α := ⟨[], false, none, false, false⟩

/-- The state of a `DirectoryFetchScheduler`. A timer that is not armed is none. A wake timer that a loop of
`#pump` arms after an inner loop has armed one is not cleared when it is replaced, so it is still to run. -/
structure DirectoryFetchScheduler (α : Type) where
  state : Job → JobState α
  created : ℕ
  jobs : List (Text × Job)
  queue : List Job
  originStarts : List (Text × ℚ)
  starts : List ℚ
  active : ℤ
  lastTime : ℚ
  healthy : Bool
  wake : Option ℤ
  strayWakes : ℕ

/-- What `run` returns: a promise that is rejected, or the promise of a job. -/
inductive RunResult
  | threw (error : ProfileError)
  | rejected (reason : DirectoryAdmissionReason)
  | promise (job : Job)
  deriving DecidableEq, Repr

/-- How the call of a worker ends: with a promise, or by throwing. -/
inductive WorkerCall
  | pending
  | threw
  deriving DecidableEq, Repr

/-- What `#pump` does after a round of its loop: it returns, goes on, or runs an inner loop first. -/
inductive Continuation
  | stop
  | loop
  | nested
  deriving DecidableEq, Repr

/-- What the history of a scheduler records. -/
inductive SchedulerEvent
  | answered (result : RunResult)
  | dispatched (job : Job) (time : ℚ)
  /-- The worker of a job is called with the time that remains. -/
  | called (job : Job) (remainingMilliseconds : ℤ)
  /-- The worker of a job has settled. -/
  | finished (job : Job)
  /-- A job gives up its slot and its origin. -/
  | released (job : Job)
  deriving DecidableEq, Repr

/-- Whether a time is less than a length before another. -/
def within (A : Rounding) (length : ℚ) (started now : ℚ) : Bool := A.round (now - started) < length

theorem within_shrinking (A : Rounding) (length : ℚ) : Shrinking (within A length) := by
  intro t t' u u' ht hu h
  simp only [within, decide_eq_true_eq] at h ⊢
  exact (A.monotone (by linarith)).trans_lt h

namespace DirectoryFetchScheduler

variable {α : Type}

/-- A new scheduler. -/
def create : DirectoryFetchScheduler α where
  state _ := .new
  created := 0
  jobs := []
  queue := []
  originStarts := []
  starts := []
  active := 0
  lastTime := 0
  healthy := true
  wake := none
  strayWakes := 0

/-- A job with other fields. -/
def update (s : DirectoryFetchScheduler α) (job : Job) (f : JobState α → JobState α) :
    DirectoryFetchScheduler α :=
  { s with state := Function.update s.state job (f (s.state job)) }

/-- `#fail`. -/
def fail (s : DirectoryFetchScheduler α) (job : Job) (reason : DirectoryAdmissionReason) :
    DirectoryFetchScheduler α :=
  if (s.state job).settled then s
  else
    let failed := s.update job fun j =>
      { j with settlements := j.settlements ++ [.error reason], timer := none, aborted := true }
    if (s.state job).active then failed
    else { failed with
      queue := s.queue.erase job
      jobs := s.jobs.filter (·.1 ≠ job.origin) }

/-- `#fail` of several jobs, one after the other. -/
def failAll (s : DirectoryFetchScheduler α) (jobs : List Job) (reason : DirectoryAdmissionReason) :
    DirectoryFetchScheduler α :=
  jobs.foldl (fun s job => s.fail job reason) s

/-- `#now`, when the clock shows a sample. -/
def now (s : DirectoryFetchScheduler α) (sample : Sample) : DirectoryFetchScheduler α × Option ℚ :=
  if s.healthy then
    match sample.filter fun now => s.lastTime ≤ now ∧ now ≤ maxSafeInteger - 30000 with
    | some now => ({ s with lastTime := now }, some now)
    | none =>
      ({ s with healthy := false, wake := none }.failAll (s.jobs.map Prod.snd) .clock, none)
  else (s, none)

section Operations

variable (O : OriginPlatform) (A : Rounding)

/-- `#prune`. -/
def prune (s : DirectoryFetchScheduler α) (now : ℚ) : DirectoryFetchScheduler α :=
  { s with
    starts := recent (within A 1000) now s.starts
    originStarts := s.originStarts.filter fun (e : Text × ℚ) => within A 30000 e.2 now }

/-- The part of `run` that creates a job, and whether `#pump` follows. -/
def enqueue (s : DirectoryFetchScheduler α) (origin : Text) (started now : ℚ) :
    DirectoryFetchScheduler α × RunResult × Bool :=
  if (OrderedMap.lookup s.originStarts origin).isSome then (s, .rejected .originRate, false)
  else if 1000 ≤ s.originStarts.length ∨
      (64 ≤ s.queue.length ∧ (16 ≤ s.active ∨ 32 ≤ s.starts.length)) then
    (s, .rejected .capacity, false)
  else
    let job : Job := ⟨s.created, origin, started⟩
    let timer := max 1 ⌈A.round (3000 - A.round (now - started))⌉
    ({ s.update job fun _ => { JobState.new with timer := some timer } with
      created := s.created + 1
      jobs := OrderedMap.set s.jobs origin job
      queue := s.queue ++ [job] }, .promise job, true)

/-- `run` up to its call of `#pump`, and whether it calls it. A start that is no finite number is none. -/
def run (s : DirectoryFetchScheduler α) (originInput : Text) (startedAt : Option Sample)
    (sample : Sample) : DirectoryFetchScheduler α × RunResult × Bool :=
  match configuredAgentOrigin O originInput DEFAULT_PROFILE_LIMITS.maxAgentUrlBytes with
  | .error e => (s, .threw e, false)
  | .ok origin =>
    match s.now sample with
    | (s, none) => (s, .rejected .clock, false)
    | (s, some now) =>
      match startedAt.getD (some now) with
      | none => (s, .rejected .clock, false)
      | some started =>
        if started < 0 ∨ now < started then (s, .rejected .clock, false)
        else if 3000 ≤ A.round (now - started) then (s, .rejected .deadline, false)
        else match OrderedMap.lookup s.jobs origin with
          | some existing =>
            if 3000 ≤ A.round (now - existing.started) then
              (s.fail existing .deadline, .promise existing, false)
            else (s, .promise existing, false)
          | none => (s.prune A now).enqueue A origin started now

/-- The end of `#execute`, up to its call of `#pump`. -/
def release (s : DirectoryFetchScheduler α) (job : Job) : DirectoryFetchScheduler α :=
  { s with
    active := s.active - 1
    jobs := s.jobs.filter (·.1 ≠ job.origin) }

/-- `#execute` up to its await, or to its end if it ends at once. -/
def execute (s : DirectoryFetchScheduler α) (job : Job) (sample : Sample) (worker : WorkerCall) :
    DirectoryFetchScheduler α × Continuation × List SchedulerEvent :=
  match s.now sample with
  | (s, none) => (s.release job, .nested, [.released job])
  | (s, some now) =>
    let remaining := ⌊A.round (3000 - A.round (now - job.started))⌋
    if (s.state job).settled then (s.release job, .nested, [.released job])
    else if remaining ≤ 0 then ((s.fail job .deadline).release job, .nested, [.released job])
    else match worker with
      | .pending =>
        (s.update job fun j => { j with awaiting := true }, .loop, [.called job remaining])
      | .threw => ((s.fail job .fetchFailed).release job, .nested,
          [.called job remaining, .finished job, .released job])

/-- `#execute` from the settlement of its worker on; a rejection has no value. -/
def resume (s : DirectoryFetchScheduler α) (job : Job) (answer : Option α) (sample : Sample) :
    DirectoryFetchScheduler α :=
  let s := s.update job fun j => { j with awaiting := false }
  match answer with
  | none => (s.fail job .fetchFailed).release job
  | some value =>
    match s.now sample with
    | (s, none) => (s.fail job .clock).release job
    | (s, some completed) =>
      if (s.state job).settled then s.release job
      else if 3000 ≤ A.round (completed - job.started) then (s.fail job .deadline).release job
      else (s.update job fun j =>
        { j with settlements := j.settlements ++ [.ok value], timer := none }).release job

/-- The jobs of the queue whose deadline has passed. -/
def late (s : DirectoryFetchScheduler α) (now : ℚ) : List Job :=
  s.queue.filter fun job => 3000 ≤ A.round (now - job.started)

/-- The first job of the queue takes a slot. -/
def dispatch (s : DirectoryFetchScheduler α) (job : Job) (rest : List Job) (now : ℚ) :
    DirectoryFetchScheduler α :=
  { s.update job fun j => { j with active := true } with
    queue := rest
    active := s.active + 1
    starts := s.starts ++ [now]
    originStarts := OrderedMap.set s.originStarts job.origin now }

/-- A round of the loop of `#pump`, with the sample it takes and the sample that `#execute` takes. -/
def round (s : DirectoryFetchScheduler α) (sample second : Sample) (worker : WorkerCall) :
    DirectoryFetchScheduler α × Continuation × List SchedulerEvent :=
  match s.now sample with
  | (s, none) => (s, .stop, [])
  | (s, some now) =>
    let s := s.prune A now
    let s := s.failAll (s.late A now) .deadline
    match s.queue with
    | [] => (s, .stop, [])
    | job :: rest =>
      if 16 ≤ s.active then (s, .stop, [])
      else if 32 ≤ s.starts.length then
        let delay := max 1 ⌈A.round (A.round (s.starts.headD 0 + 1000) - now)⌉
        ({ s with
          wake := some delay
          strayWakes := s.strayWakes + if s.wake.isSome then 1 else 0 }, .stop, [])
      else if 1000 ≤ s.originStarts.length then (s.fail job .capacity, .loop, [])
      else
        let executed := (s.dispatch job rest now).execute A job second worker
        (executed.1, executed.2.1, .dispatched job now :: executed.2.2)

end Operations

end DirectoryFetchScheduler

/-! ## The system -/

/-- A scheduler, and how many loops of `#pump` wait for an inner one while one runs. -/
structure SchedulerSystem (α : Type) where
  scheduler : DirectoryFetchScheduler α
  loops : Option ℕ

/-- A new scheduler. -/
def SchedulerSystem.create {α : Type} : SchedulerSystem α := ⟨.create, none⟩

/-- `#pump` is called, in so many loops. -/
def DirectoryFetchScheduler.pump {α : Type} (s : DirectoryFetchScheduler α) (loops : ℕ) :
    SchedulerSystem α :=
  ⟨{ s with wake := none }, some loops⟩

/-- What happens next: a call, a timer, the settlement of a worker, or a round of the loop of `#pump`. -/
inductive SchedulerAction (α : Type)
  | run (originInput : Text) (startedAt : Option Sample) (sample : Sample)
  | expire (job : Job)
  | wake
  | strayWake
  | settle (job : Job) (answer : Option α) (sample : Sample)
  | round (sample second : Sample) (worker : WorkerCall)

section System

variable {α : Type} (O : OriginPlatform) (A : Rounding)

/-- A round of the innermost loop, which may return to the one around it. -/
def roundStep (s : DirectoryFetchScheduler α) (loops : ℕ) (sample second : Sample)
    (worker : WorkerCall) : SchedulerSystem α × List SchedulerEvent :=
  match s.round A sample second worker with
  | (s, .stop, events) => (⟨s, if loops = 0 then none else some (loops - 1)⟩, events)
  | (s, .loop, events) => (⟨s, some loops⟩, events)
  | (s, .nested, events) => (s.pump (loops + 1), events)

/-- A step of the system, if the action is one of its state. -/
def schedulerStep (s : SchedulerSystem α) (action : SchedulerAction α) :
    Option (SchedulerSystem α × List SchedulerEvent) :=
  match s.loops, action with
  | none, .run originInput startedAt sample =>
    match s.scheduler.run O A originInput startedAt sample with
    | (t, result, true) => some (t.pump 0, [.answered result])
    | (t, result, false) => some (⟨t, none⟩, [.answered result])
  | none, .expire job =>
    if (s.scheduler.state job).timer.isSome then
      some ((s.scheduler.fail job .deadline).pump 0, [])
    else none
  | none, .wake => if s.scheduler.wake.isSome then some (s.scheduler.pump 0, []) else none
  | none, .strayWake =>
    if 0 < s.scheduler.strayWakes then
      some ({ s.scheduler with strayWakes := s.scheduler.strayWakes - 1 }.pump 0, [])
    else none
  | none, .settle job answer sample =>
    if (s.scheduler.state job).awaiting then
      some ((s.scheduler.resume A job answer sample).pump 0, [.finished job, .released job])
    else none
  | some loops, .round sample second worker =>
    some (roundStep A s.scheduler loops sample second worker)
  | _, _ => none

/-- The runs of a new scheduler. -/
abbrev SchedulerRun : List SchedulerEvent → SchedulerSystem α → Prop :=
  Run (· = .create) fun s events t => ∃ action, schedulerStep O A s action = some (t, events)

end System

end AgentSig.Discovery
