import AgentSig.Discovery.FetchScheduler

/-!
# Slots and origins

A job owns its origin from its creation on, and a slot from its dispatch on. It gives up both at once: when
it fails in the queue, or when `#execute` ends.

## Main definitions

* `Allowed`, `Lawful`: the order of the events of a job
* `Owned`: what the history says about the jobs of a scheduler
* `Tracked`: a job that `#fail` may be called with

## Main results

* `Owned.fail`, `Owned.dispatch`, `Owned.call`, `Owned.finish`, `Owned.release`: each operation keeps the
  jobs owned
* `Owned.now`: a failed clock empties the queue
* `Owned.holders`: the slots in use are those of the jobs that have not been released
-/

namespace AgentSig.Discovery

open Commons Core Profiles StructuredFields

/-! ## Histories -/

/-- An event may follow a history: a job is dispatched once, its worker is called once while the job holds
its slot, and the slot is released once, not while the worker runs. -/
def Allowed (es : List SchedulerEvent) : SchedulerEvent → Prop
  | .answered _ => True
  | .dispatched job _ => ∀ t, .dispatched job t ∉ es
  | .called job _ =>
    (∃ t, .dispatched job t ∈ es) ∧ .released job ∉ es ∧ ∀ r, .called job r ∉ es
  | .finished job => (∃ r, .called job r ∈ es) ∧ .finished job ∉ es
  | .released job => (∃ t, .dispatched job t ∈ es) ∧ .released job ∉ es ∧
    ∀ r, .called job r ∈ es → .finished job ∈ es

/-- Every event may follow those before it. -/
def Lawful (es : List SchedulerEvent) : Prop :=
  ∀ pre e post, es = pre ++ e :: post → Allowed pre e

theorem lawful_nil : Lawful [] := by
  intro pre e post h
  simp at h

theorem Lawful.snoc {es : List SchedulerEvent} {e : SchedulerEvent} (h : Lawful es)
    (he : Allowed es e) : Lawful (es ++ [e]) := by
  intro pre f post hes
  rcases append_singleton_eq_append_cons hes with ⟨post', rfl, -⟩ | ⟨rfl, rfl, -⟩
  · exact h pre f post' rfl
  · exact he

/-! ## Ownership -/

variable {α : Type}

/-- A job that is settled, or owns its origin. -/
def Tracked (s : DirectoryFetchScheduler α) (job : Job) : Prop :=
  (s.state job).settled ∨ (job.origin, job) ∈ s.jobs

/-- What the history says about the jobs of a scheduler. -/
structure Owned (es : List SchedulerEvent) (s : DirectoryFetchScheduler α) : Prop where
  keys : (s.jobs.map (·.1)).Nodup
  named : ∀ e ∈ s.jobs, e.2.origin = e.1
  known : ∀ e ∈ s.jobs, e.2.id < s.created
  active_known : ∀ job, (s.state job).active → job.id < s.created
  nodup : s.queue.Nodup
  /-- The queue holds the jobs that own an origin and no slot. -/
  queued : ∀ job, job ∈ s.queue ↔ (job.origin, job) ∈ s.jobs ∧ (s.state job).active = false
  pending : ∀ job ∈ s.queue, (s.state job).settled = false
  slots : s.active = s.jobs.countP fun e => (s.state e.2).active
  dispatched : ∀ job, (∃ t, .dispatched job t ∈ es) ↔ (s.state job).active
  released : ∀ job, .released job ∈ es ↔ (s.state job).active ∧ (job.origin, job) ∉ s.jobs
  called : ∀ job, (s.state job).awaiting ↔ (∃ r, .called job r ∈ es) ∧ .finished job ∉ es
  begun : ∀ job, ((∃ r, .called job r ∈ es) ∨ .finished job ∈ es) → (s.state job).active
  awaiting : ∀ job, (s.state job).awaiting → (job.origin, job) ∈ s.jobs
  armed : ∀ job, (s.state job).timer.isSome → Tracked s job
  lawful : Lawful es

variable {es : List SchedulerEvent} {s t : DirectoryFetchScheduler α} {job job' : Job}
  {reason : DirectoryAdmissionReason}

theorem owned_create : Owned [] (.create : DirectoryFetchScheduler α) := by
  constructor <;> simp [DirectoryFetchScheduler.create, JobState.new, lawful_nil]

/-- The times of a scheduler do not matter for its jobs. -/
theorem Owned.congr (h : Owned es s) (hstate : t.state = s.state) (hcreated : t.created = s.created)
    (hjobs : t.jobs = s.jobs) (hqueue : t.queue = s.queue) (hactive : t.active = s.active) :
    Owned es t := by
  constructor
  · rw [hjobs]; exact h.keys
  · rw [hjobs]; exact h.named
  · rw [hjobs, hcreated]; exact h.known
  · rw [hstate, hcreated]; exact h.active_known
  · rw [hqueue]; exact h.nodup
  · rw [hqueue, hjobs, hstate]; exact h.queued
  · rw [hqueue, hstate]; exact h.pending
  · rw [hactive, hjobs, hstate]; exact h.slots
  · rw [hstate]; exact h.dispatched
  · rw [hstate, hjobs]; exact h.released
  · rw [hstate]; exact h.called
  · rw [hstate]; exact h.begun
  · rw [hstate, hjobs]; exact h.awaiting
  · unfold Tracked; rw [hstate, hjobs]; exact h.armed
  · exact h.lawful

/-- A job owns its origin alone. -/
theorem Owned.unique (h : Owned es s) (hjob : (job.origin, job) ∈ s.jobs)
    (hjob' : (job'.origin, job') ∈ s.jobs) (horigin : job.origin = job'.origin) : job = job' := by
  have hlookup := OrderedMap.lookup_of_mem h.keys hjob
  have hlookup' := OrderedMap.lookup_of_mem h.keys hjob'
  rw [horigin, hlookup'] at hlookup
  exact (Option.some.inj hlookup).symm

/-- The jobs of the other origins are the other jobs. -/
theorem Owned.mem_filter (h : Owned es s) (hjob : (job.origin, job) ∈ s.jobs) :
    (job'.origin, job') ∈ s.jobs.filter (·.1 ≠ job.origin) ↔
      (job'.origin, job') ∈ s.jobs ∧ job' ≠ job := by
  rw [List.mem_filter]
  refine and_congr_right fun hjob' => ?_
  simp only [ne_eq, decide_not, Bool.not_eq_true', decide_eq_false_iff_not]
  constructor
  · rintro horigin rfl
    exact horigin rfl
  · intro hne horigin
    exact hne (h.unique hjob' hjob horigin)

/-- The slots, as those of a job and of the jobs of the other origins. -/
theorem Owned.slots_eq (h : Owned es s) (hjob : (job.origin, job) ∈ s.jobs) :
    s.active = (if (s.state job).active then 1 else 0) +
      (s.jobs.filter (·.1 ≠ job.origin)).countP fun e => (s.state e.2).active := by
  rw [h.slots, (OrderedMap.perm_cons_filter_ne h.keys hjob).countP_eq, List.countP_cons]
  push_cast
  split
  · ring
  · ring

/-! ## Failures -/

theorem state_update (f : JobState α → JobState α) :
    (s.update job f).state job' = if job' = job then f (s.state job) else s.state job' := by
  simp [DirectoryFetchScheduler.update, Function.update_apply]

/-- What a failure leaves alone of the other fields of the jobs. -/
theorem state_fail (s : DirectoryFetchScheduler α) (job job' : Job) (reason : DirectoryAdmissionReason) :
    ((s.fail job reason).state job').active = (s.state job').active ∧
    ((s.fail job reason).state job').awaiting = (s.state job').awaiting ∧
    ((s.fail job reason).state job').settled = ((s.state job').settled || job' = job) ∧
    (((s.fail job reason).state job').timer.isSome → (s.state job').timer.isSome) := by
  unfold DirectoryFetchScheduler.fail
  split
  · rename_i hsettled
    refine ⟨rfl, rfl, ?_, id⟩
    by_cases hjob : job' = job
    · simp [hjob, hsettled]
    · simp [hjob]
  · dsimp only
    split
    all_goals
      by_cases hjob : job' = job
      · subst hjob
        simp [JobState.settled, DirectoryFetchScheduler.update]
      · simp [hjob, JobState.settled, DirectoryFetchScheduler.update]

/-- A failure in the queue gives up the origin, and no other failure does. -/
theorem fail_of_active (reason : DirectoryAdmissionReason) (hsettled : (s.state job).settled = false)
    (hactive : (s.state job).active) : s.fail job reason = s.update job fun j =>
      { j with settlements := j.settlements ++ [.error reason], timer := none, aborted := true } := by
  rw [DirectoryFetchScheduler.fail, if_neg (by simp [hsettled])]
  dsimp only
  rw [if_pos hactive]

theorem fail_of_settled (h : (s.state job).settled) : s.fail job reason = s := by
  rw [DirectoryFetchScheduler.fail, if_pos h]

theorem fail_of_queued (reason : DirectoryAdmissionReason) (hsettled : (s.state job).settled = false)
    (hactive : (s.state job).active = false) :
    (s.fail job reason).jobs = s.jobs.filter (·.1 ≠ job.origin) ∧
      (s.fail job reason).queue = s.queue.erase job := by
  rw [DirectoryFetchScheduler.fail, if_neg (by simp [hsettled])]
  dsimp only
  rw [if_neg (by simp [hactive])]
  exact ⟨rfl, rfl⟩

/-- What a failure leaves alone: `t` is `s` after some jobs have failed. -/
structure Failed (s t : DirectoryFetchScheduler α) : Prop where
  created : t.created = s.created
  queue : t.queue.Sublist s.queue
  originStarts : t.originStarts = s.originStarts
  starts : t.starts = s.starts
  active : t.active = s.active
  lastTime : t.lastTime = s.lastTime
  healthy : t.healthy = s.healthy

theorem Failed.refl (s : DirectoryFetchScheduler α) : Failed s s :=
  ⟨rfl, List.Sublist.refl _, rfl, rfl, rfl, rfl, rfl⟩

theorem Failed.trans {u : DirectoryFetchScheduler α} (h : Failed s t) (h' : Failed t u) :
    Failed s u :=
  ⟨h'.created.trans h.created, h'.queue.trans h.queue, h'.originStarts.trans h.originStarts,
    h'.starts.trans h.starts, h'.active.trans h.active, h'.lastTime.trans h.lastTime,
    h'.healthy.trans h.healthy⟩

theorem failed_fail (s : DirectoryFetchScheduler α) (job : Job)
    (reason : DirectoryAdmissionReason) : Failed s (s.fail job reason) := by
  unfold DirectoryFetchScheduler.fail
  split
  · exact .refl s
  · dsimp only
    split
    · exact ⟨rfl, List.Sublist.refl _, rfl, rfl, rfl, rfl, rfl⟩
    · exact ⟨rfl, List.erase_sublist, rfl, rfl, rfl, rfl, rfl⟩

theorem failed_failAll (s : DirectoryFetchScheduler α) (jobs : List Job)
    (reason : DirectoryAdmissionReason) : Failed s (s.failAll jobs reason) := by
  induction jobs generalizing s with
  | nil => exact .refl s
  | cons job jobs ih => exact (failed_fail s job reason).trans (ih _)

theorem Tracked.fail (hjob : Tracked s job) (h : Owned es s) (hjob' : Tracked s job') :
    Tracked (s.fail job reason) job' := by
  have hstate := (state_fail s job job' reason).2.2.1
  by_cases heq : job' = job
  · exact .inl (by rw [hstate]; simp [heq])
  rcases hjob' with hsettled | howns
  · exact .inl (by rw [hstate, hsettled]; rfl)
  by_cases hsettled : (s.state job).settled
  · rw [fail_of_settled hsettled]
    exact .inr howns
  · refine .inr ?_
    by_cases hactive : (s.state job).active
    · rw [fail_of_active reason (by simpa using hsettled) hactive]
      exact howns
    · rw [(fail_of_queued reason (by simpa using hsettled) (by simpa using hactive)).1,
        h.mem_filter (hjob.resolve_left hsettled)]
      exact ⟨howns, heq⟩

/-- A job in its slot may settle at any time. -/
theorem Owned.settle {f : JobState α → JobState α} (h : Owned es s) (hactive : (s.state job).active)
    (hsame : (f (s.state job)).active = (s.state job).active ∧
      (f (s.state job)).awaiting = (s.state job).awaiting ∧ (f (s.state job)).timer = none) :
    Owned es (s.update job f) := by
  have hstate (job' : Job) : ((s.update job f).state job').active = (s.state job').active ∧
      ((s.update job f).state job').awaiting = (s.state job').awaiting := by
    rw [state_update]
    split
    · rename_i heq
      rw [heq]
      exact ⟨hsame.1, hsame.2.1⟩
    · exact ⟨rfl, rfl⟩
  have hactives : (fun e : Text × Job => ((s.update job f).state e.2).active) =
      fun e => (s.state e.2).active := funext fun e => (hstate e.2).1
  refine ⟨h.keys, h.named, h.known, ?_, h.nodup, ?_, ?_, ?_, ?_, ?_, ?_, ?_, ?_, ?_, h.lawful⟩
  · intro job'; rw [(hstate job').1]; exact h.active_known job'
  · intro job'; rw [(hstate job').1]; exact h.queued job'
  · intro job' hmem
    have hne : job' ≠ job := by
      rintro rfl
      have := ((h.queued job').mp hmem).2
      simp [hactive] at this
    rw [state_update, if_neg hne]
    exact h.pending job' hmem
  · rw [hactives]; exact h.slots
  · intro job'; rw [(hstate job').1]; exact h.dispatched job'
  · intro job'; rw [(hstate job').1]; exact h.released job'
  · intro job'; rw [(hstate job').2]; exact h.called job'
  · intro job'; rw [(hstate job').1]; exact h.begun job'
  · intro job'; rw [(hstate job').2]; exact h.awaiting job'
  · intro job' harmed
    unfold Tracked
    rw [state_update] at harmed ⊢
    split at harmed
    · rw [hsame.2.2] at harmed
      simp at harmed
    · rename_i hne
      rw [if_neg hne]
      exact h.armed job' harmed

/-- A failure keeps the jobs owned. -/
theorem Owned.fail (reason : DirectoryAdmissionReason) (h : Owned es s) (hjob : Tracked s job) :
    Owned es (s.fail job reason) := by
  by_cases hsettled : (s.state job).settled
  · rwa [fail_of_settled hsettled]
  have howns : (job.origin, job) ∈ s.jobs := hjob.resolve_left hsettled
  by_cases hactive : (s.state job).active
  · -- A job that fails in its slot keeps its slot and its origin.
    rw [fail_of_active reason (by simpa using hsettled) hactive]
    exact h.settle hactive ⟨rfl, rfl, rfl⟩
  · have hinactive : (s.state job).active = false := by simpa using hactive
    have hsame (job' : Job) := state_fail s job job' reason
    have hactives : (fun e : Text × Job => ((s.fail job reason).state e.2).active) =
        fun e => (s.state e.2).active := funext fun e => (hsame e.2).1
    have hfailed := failed_fail s job reason
    obtain ⟨hjobs, hqueue⟩ := fail_of_queued reason (by simpa using hsettled) hinactive
    have hsub : (s.fail job reason).jobs.Sublist s.jobs := hjobs ▸ List.filter_sublist
    have hmem (job' : Job) : (job'.origin, job') ∈ s.jobs.filter (·.1 ≠ job.origin) ↔
        (job'.origin, job') ∈ s.jobs ∧ job' ≠ job := h.mem_filter howns
    -- An active job is another one, so it keeps its origin.
    have hkept (job' : Job) (hactive' : (s.state job').active) :
        (job'.origin, job') ∈ (s.fail job reason).jobs ↔ (job'.origin, job') ∈ s.jobs := by
      rw [hjobs, hmem]
      refine and_iff_left ?_
      rintro rfl
      exact hactive hactive'
    refine ⟨h.keys.sublist (hsub.map _), ?_, ?_, ?_, ?_, ?_, ?_, ?_, ?_, ?_, ?_, ?_, ?_,
      fun job' harmed => hjob.fail h (h.armed job' ((hsame job').2.2.2 harmed)), h.lawful⟩
    · intro e he; exact h.named e (hsub.subset he)
    · intro e he; rw [hfailed.created]; exact h.known e (hsub.subset he)
    · intro job'
      rw [(hsame job').1, hfailed.created]
      exact h.active_known job'
    · rw [hqueue]; exact h.nodup.erase job
    · intro job'
      rw [hqueue, hjobs, (hsame job').1, h.nodup.mem_erase_iff, h.queued, hmem]
      tauto
    · intro job' hmem'
      rw [hqueue, h.nodup.mem_erase_iff] at hmem'
      rw [(hsame job').2.2.1, h.pending job' hmem'.2]
      simp [hmem'.1]
    · rw [hfailed.active, hjobs, hactives, h.slots_eq howns, hinactive]
      simp
    · intro job'; rw [(hsame job').1]; exact h.dispatched job'
    · intro job'
      rw [(hsame job').1, h.released]
      exact and_congr_right fun hactive' => not_congr (hkept job' hactive').symm
    · intro job'; rw [(hsame job').2.1]; exact h.called job'
    · intro job'; rw [(hsame job').1]; exact h.begun job'
    · intro job' hawaiting
      rw [(hsame job').2.1] at hawaiting
      have hbegun := h.begun job' (.inl ((h.called job').mp hawaiting).1)
      exact (hkept job' hbegun).mpr (h.awaiting job' hawaiting)

/-- A failure leaves a job its slot and its origin. -/
theorem Owned.mem_fail (reason : DirectoryAdmissionReason) (h : Owned es s)
    (hjob' : Tracked s job') (hactive : (s.state job).active)
    (hjob : (job.origin, job) ∈ s.jobs) : (job.origin, job) ∈ (s.fail job' reason).jobs := by
  by_cases hsettled : (s.state job').settled
  · rwa [fail_of_settled hsettled]
  by_cases hactive' : (s.state job').active
  · rw [fail_of_active reason (by simpa using hsettled) hactive']
    exact hjob
  · rw [(fail_of_queued reason (by simpa using hsettled) (by simpa using hactive')).1,
      h.mem_filter (hjob'.resolve_left hsettled)]
    refine ⟨hjob, ?_⟩
    rintro rfl
    exact hactive' hactive

/-- Several failures keep the jobs owned, leave each its slot and its origin, and settle all of these
jobs. -/
theorem Owned.failAll {jobs : List Job} (reason : DirectoryAdmissionReason) (h : Owned es s)
    (hjobs : ∀ job ∈ jobs, Tracked s job) :
    Owned es (s.failAll jobs reason) ∧
      (∀ job, (s.state job).active → (job.origin, job) ∈ s.jobs →
        (job.origin, job) ∈ (s.failAll jobs reason).jobs) ∧
      (∀ job, ((s.failAll jobs reason).state job).active = (s.state job).active ∧
        ((s.failAll jobs reason).state job).awaiting = (s.state job).awaiting) ∧
      (∀ job, (s.state job).settled → ((s.failAll jobs reason).state job).settled) ∧
      ∀ job ∈ jobs, ((s.failAll jobs reason).state job).settled := by
  induction jobs generalizing s with
  | nil => exact ⟨h, fun _ _ hjob => hjob, fun _ => ⟨rfl, rfl⟩, fun _ hsettled => hsettled, by simp⟩
  | cons job jobs ih =>
    have hjob := hjobs job List.mem_cons_self
    obtain ⟨howned, hheld, hsame, hkept, hsettled⟩ := ih (h.fail reason hjob)
      fun job' hmem => hjob.fail h (hjobs job' (List.mem_cons_of_mem _ hmem))
    have hstate (job' : Job) := state_fail s job job' reason
    refine ⟨howned, fun job' hactive hmem => ?_, fun job' => ?_, fun job' hsettled' => ?_,
      fun job' hmem => ?_⟩
    · exact hheld job' (by rw [(hstate job').1]; exact hactive) (h.mem_fail reason hjob hactive hmem)
    · exact ⟨(hsame job').1.trans (hstate job').1, (hsame job').2.trans (hstate job').2.1⟩
    · exact hkept job' (by rw [(hstate job').2.2.1, hsettled']; rfl)
    · rcases List.mem_cons.mp hmem with rfl | hmem
      · exact hkept job' (by rw [(hstate job').2.2.1]; simp)
      · exact hsettled job' hmem

/-! ## The clock -/

/-- What a sample leaves alone of the other fields of the jobs. -/
structure Ticked (s t : DirectoryFetchScheduler α) : Prop where
  created : t.created = s.created
  queue : t.queue.Sublist s.queue
  originStarts : t.originStarts = s.originStarts
  starts : t.starts = s.starts
  active : t.active = s.active
  lastTime : s.lastTime ≤ t.lastTime

theorem Failed.ticked (h : Failed s t) : Ticked s t :=
  ⟨h.created, h.queue, h.originStarts, h.starts, h.active, h.lastTime.ge⟩

/-- What a sample does: it becomes the last time, or it ends the jobs in the queue. -/
theorem Owned.now (h : Owned es s) (hstopped : s.healthy = false → s.queue = []) (sample : Sample) :
    Owned es (s.now sample).1 ∧ Ticked s (s.now sample).1 ∧
      ((∃ now, s.now sample = ({ s with lastTime := now }, some now) ∧ s.lastTime ≤ now ∧ s.healthy) ∨
        (s.now sample).2 = none ∧ (s.now sample).1.healthy = false ∧ (s.now sample).1.queue = [] ∧
          ∀ job, (s.state job).active → (job.origin, job) ∈ s.jobs →
            (job.origin, job) ∈ (s.now sample).1.jobs ∧ ((s.now sample).1.state job).active ∧
              ((s.now sample).1.state job).awaiting = (s.state job).awaiting ∧
                (s.healthy → ((s.now sample).1.state job).settled)) := by
  unfold DirectoryFetchScheduler.now
  split
  · rename_i hhealthy
    split
    · rename_i now hsample
      have hle : s.lastTime ≤ now := by
        have := (Option.filter_eq_some_iff.mp hsample).2
        simp only [Bool.decide_and, Bool.and_eq_true, decide_eq_true_eq] at this
        exact this.1
      exact ⟨h.congr rfl rfl rfl rfl rfl, ⟨rfl, List.Sublist.refl _, rfl, rfl, rfl, hle⟩,
        .inl ⟨now, rfl, hle, hhealthy⟩⟩
    · dsimp only
      have hstopped' : Owned es { s with healthy := false, wake := none } :=
        h.congr rfl rfl rfl rfl rfl
      have htracked : ∀ job ∈ s.jobs.map Prod.snd,
          Tracked { s with healthy := false, wake := none } job := by
        intro job hjob
        obtain ⟨e, he, rfl⟩ := List.mem_map.mp hjob
        exact .inr (by rw [h.named e he]; exact he)
      obtain ⟨howned, hheld, hsame, -, hsettled⟩ := hstopped'.failAll .clock htracked
      have hfailed := failed_failAll { s with healthy := false, wake := none }
        (s.jobs.map Prod.snd) .clock
      refine ⟨howned, ⟨hfailed.created, hfailed.queue, hfailed.originStarts, hfailed.starts,
        hfailed.active, hfailed.lastTime.ge⟩, .inr ⟨rfl, hfailed.healthy, ?_, fun job hactive hjob => ?_⟩⟩
      · refine List.eq_nil_iff_forall_not_mem.mpr fun job hjob => ?_
        -- A job that is still queued was in the map, so it has been settled.
        have hmem := ((h.queued job).mp (hfailed.queue.subset hjob)).1
        have hpending := howned.pending job hjob
        rw [hsettled job (List.mem_map_of_mem (f := Prod.snd) hmem)] at hpending
        exact absurd hpending (by simp)
      · exact ⟨hheld job hactive hjob, (hsame job).1.trans hactive, (hsame job).2, fun _ =>
          hsettled job (List.mem_map_of_mem (f := Prod.snd) hjob)⟩
  · rename_i hunhealthy
    have hunhealthy : s.healthy = false := by simpa using hunhealthy
    exact ⟨h, (Failed.refl s).ticked, .inr ⟨rfl, hunhealthy, hstopped hunhealthy,
      fun job hactive hjob => ⟨hjob, hactive, rfl, fun hhealthy => by simp [hunhealthy] at hhealthy⟩⟩⟩

/-! ## Dispatches and releases -/

/-- A new job owns its origin. -/
theorem Owned.enqueue {origin : Text} (A : Rounding) (h : Owned es s)
    (hnone : OrderedMap.lookup s.jobs origin = none) (started now : ℚ) :
    Owned es (s.enqueue A origin started now).1 := by
  unfold DirectoryFetchScheduler.enqueue
  split
  · exact h
  · split
    · exact h
    · dsimp only
      generalize hjob : (⟨s.created, origin, started⟩ : Job) = job
      have hid : job.id = s.created := by rw [← hjob]
      have horigin : job.origin = origin := by rw [← hjob]
      have hfresh : ∀ e ∈ s.jobs, e.2 ≠ job := by
        rintro e he rfl
        exact absurd (h.known e he) (by omega)
      have hinactive : (s.state job).active = false := by
        by_contra hactive
        exact absurd (h.active_known job (by simpa using hactive)) (by omega)
      have hkey : origin ∉ s.jobs.map (·.1) := by
        rw [← OrderedMap.lookup_isSome, hnone]
        simp
      have hunqueued : job ∉ s.queue := fun hmem => hfresh _ ((h.queued job).mp hmem).1 rfl
      have hmem (job' : Job) : (job'.origin, job') ∈ s.jobs ++ [(origin, job)] ↔
          (job'.origin, job') ∈ s.jobs ∨ job' = job := by
        rw [List.mem_append, List.mem_singleton, Prod.mk.injEq]
        refine or_congr_right ⟨fun heq => heq.2, fun heq => ⟨heq ▸ horigin, heq⟩⟩
      have hkeys := OrderedMap.nodup_keys_set h.keys origin job
      rw [OrderedMap.set_of_notMem hkey] at hkeys ⊢
      generalize hnew : ({ JobState.new with
        timer := some (max 1 ⌈A.round (3000 - A.round (now - started))⌉) } : JobState α) = new
      have hstate (job' : Job) :
          (s.update job fun _ => new).state job' = if job' = job then new else s.state job' :=
        state_update _
      have hactives (job' : Job) :
          ((s.update job fun _ => new).state job').active = (s.state job').active := by
        rw [hstate]
        split
        · rename_i heq
          rw [heq, hinactive, ← hnew]
          rfl
        · rfl
      have hunbegun : ¬ ((∃ r, .called job r ∈ es) ∨ .finished job ∈ es) := fun hbegun => by
        have := h.begun job hbegun
        simp [hinactive] at this
      have hawaitings (job' : Job) :
          ((s.update job fun _ => new).state job').awaiting = (s.state job').awaiting := by
        rw [hstate]
        split
        · rename_i heq
          have hidle : (s.state job').awaiting = false := by
            by_contra hawaiting
            exact hunbegun (.inl (heq ▸ ((h.called job').mp (by simpa using hawaiting)).1))
          rw [hidle, ← hnew]
          rfl
        · rfl
      refine ⟨hkeys, ?_, ?_, ?_, ?_, ?_, ?_, ?_, ?_, ?_, ?_, ?_, ?_, ?_, h.lawful⟩
      · intro e he
        rcases List.mem_append.mp he with he | he
        · exact h.named e he
        · obtain rfl := List.mem_singleton.mp he
          exact horigin
      · intro e he
        rcases List.mem_append.mp he with he | he
        · exact (h.known e he).trans (Nat.lt_succ_self _)
        · obtain rfl := List.mem_singleton.mp he
          exact hid ▸ Nat.lt_succ_self _
      · intro job' hactive
        rw [hactives] at hactive
        exact (h.active_known job' hactive).trans (Nat.lt_succ_self _)
      · refine h.nodup.append (List.nodup_singleton job) ?_
        simpa using hunqueued
      · intro job'
        rw [List.mem_append, List.mem_singleton, hmem, hactives, h.queued]
        constructor
        · rintro (⟨hjob', hinactive'⟩ | rfl)
          · exact ⟨.inl hjob', hinactive'⟩
          · exact ⟨.inr rfl, hinactive⟩
        · rintro ⟨hjob' | rfl, hinactive'⟩
          · exact .inl ⟨hjob', hinactive'⟩
          · exact .inr rfl
      · intro job' hjob'
        rw [hstate]
        split
        · rw [← hnew]
          rfl
        · rename_i hne
          exact h.pending job' ((List.mem_append.mp hjob').resolve_right (by simpa using hne))
      · have hcount : (fun e : Text × Job => ((s.update job fun _ => new).state e.2).active) =
            fun e => (s.state e.2).active := funext fun e => hactives e.2
        dsimp only
        rw [hcount, List.countP_append, List.countP_singleton, hinactive]
        exact h.slots
      · intro job'; rw [hactives]; exact h.dispatched job'
      · intro job'
        rw [hactives, hmem, h.released]
        refine and_congr_right fun hactive => ?_
        have hne : job' ≠ job := by
          rintro rfl
          simp [hinactive] at hactive
        simp [hne]
      · intro job'; rw [hawaitings]; exact h.called job'
      · intro job'; rw [hactives]; exact h.begun job'
      · intro job' hawaiting
        rw [hawaitings] at hawaiting
        exact (hmem job').mpr (.inl (h.awaiting job' hawaiting))
      · intro job' harmed
        unfold Tracked
        rw [hmem]
        rw [hstate] at harmed ⊢
        split at harmed
        · rename_i heq
          exact .inr (.inr heq)
        · rename_i hne
          rw [if_neg hne]
          exact (h.armed job' harmed).imp_right .inl

/-- The first job of the queue takes a slot. -/
theorem Owned.dispatch {rest : List Job} {now : ℚ} (h : Owned es s) (hqueue : s.queue = job :: rest) :
    Owned (es ++ [.dispatched job now]) (s.dispatch job rest now) := by
  obtain ⟨hjob, hinactive⟩ := (h.queued job).mp (by simp [hqueue])
  have hnodup := h.nodup
  rw [hqueue, List.nodup_cons] at hnodup
  have hstate (job' : Job) : ((s.dispatch job rest now).state job') =
      if job' = job then { s.state job with active := true } else s.state job' :=
    state_update (s := s) fun j => { j with active := true }
  have hsettled (job' : Job) : ((s.dispatch job rest now).state job').settled =
      (s.state job').settled := by
    rw [hstate]
    split
    · rename_i heq
      rw [heq]
      rfl
    · rfl
  have hawaitings (job' : Job) : ((s.dispatch job rest now).state job').awaiting =
      (s.state job').awaiting := by
    rw [hstate]
    split
    · rename_i heq
      rw [heq]
    · rfl
  have hactives (job' : Job) : ((s.dispatch job rest now).state job').active ↔
      (s.state job').active ∨ job' = job := by
    rw [hstate]
    split
    · rename_i heq
      simp [heq]
    · rename_i hne
      simp [hne]
  refine ⟨h.keys, h.named, h.known, ?_, hnodup.2, ?_, ?_, ?_, ?_, ?_, ?_, ?_, ?_, ?_, ?_⟩
  · intro job' hactive
    rcases (hactives job').mp hactive with hactive | rfl
    · exact h.active_known job' hactive
    · exact h.known _ hjob
  · intro job'
    have hqueued := h.queued job'
    rw [hqueue, List.mem_cons] at hqueued
    have hactive := hactives job'
    rw [← Bool.not_eq_true, hactive]
    rw [← Bool.not_eq_true] at hqueued
    constructor
    · intro hmem
      obtain ⟨hjob', hinactive'⟩ := hqueued.mp (.inr hmem)
      refine ⟨hjob', ?_⟩
      rintro (hactive' | rfl)
      · exact hinactive' hactive'
      · exact hnodup.1 hmem
    · rintro ⟨hjob', hnot⟩
      exact (hqueued.mpr ⟨hjob', fun hactive' => hnot (.inl hactive')⟩).resolve_left fun heq =>
        hnot (.inr heq)
  · intro job' hmem
    rw [hsettled]
    exact h.pending job' (by rw [hqueue]; exact List.mem_cons_of_mem _ hmem)
  · -- The jobs of the other origins keep their slots, and the job has one more.
    have hothers : (s.jobs.filter (·.1 ≠ job.origin)).countP
          (fun e => ((s.dispatch job rest now).state e.2).active) =
        (s.jobs.filter (·.1 ≠ job.origin)).countP fun e => (s.state e.2).active := by
      refine List.countP_congr fun e he => ?_
      obtain ⟨he, hne⟩ := List.mem_filter.mp he
      rw [hactives]
      refine or_iff_left ?_
      rintro heq
      rw [← h.named e he, heq] at hne
      simp at hne
    have hslots := h.slots_eq hjob
    rw [hinactive] at hslots
    change s.active + 1 = ((s.jobs.countP fun e =>
      ((s.dispatch job rest now).state e.2).active : ℕ) : ℤ)
    rw [(OrderedMap.perm_cons_filter_ne h.keys hjob).countP_eq, List.countP_cons,
      if_pos ((hactives job).mpr (.inr rfl)), hothers, hslots]
    simp
  · intro job'
    rw [hactives, ← h.dispatched]
    constructor
    · rintro ⟨t, ht⟩
      rcases List.mem_append.mp ht with ht | ht
      · exact .inl ⟨t, ht⟩
      · exact .inr (SchedulerEvent.dispatched.inj (List.mem_singleton.mp ht)).1
    · rintro (⟨t, ht⟩ | rfl)
      · exact ⟨t, List.mem_append_left _ ht⟩
      · exact ⟨now, List.mem_append_right _ (List.mem_singleton_self _)⟩
  · intro job'
    rw [hactives, show (s.dispatch job rest now).jobs = s.jobs from rfl]
    have hreleased := h.released job'
    simp only [List.mem_append, List.mem_singleton, reduceCtorEq, or_false, hreleased]
    constructor
    · rintro ⟨hactive, hnot⟩
      exact ⟨.inl hactive, hnot⟩
    · rintro ⟨hactive | rfl, hnot⟩
      · exact ⟨hactive, hnot⟩
      · exact absurd hjob hnot
  · intro job'
    rw [hawaitings, h.called]
    simp
  · intro job' hbegun
    simp only [List.mem_append, List.mem_singleton, reduceCtorEq, or_false] at hbegun
    exact (hactives job').mpr (.inl (h.begun job' hbegun))
  · intro job' hawaiting
    rw [hawaitings] at hawaiting
    exact h.awaiting job' hawaiting
  · intro job' harmed
    unfold Tracked
    rw [hsettled]
    refine h.armed job' ?_
    rw [hstate] at harmed
    split at harmed
    · rename_i heq
      rwa [heq]
    · exact harmed
  · refine h.lawful.snoc fun t ht => ?_
    have := (h.dispatched job).mp ⟨t, ht⟩
    simp [hinactive] at this

/-- What an await leaves alone of the other fields of the jobs. -/
theorem state_await (s : DirectoryFetchScheduler α) (job : Job) (awaiting : Bool) (job' : Job) :
    ((s.update job fun j => { j with awaiting }).state job').active = (s.state job').active ∧
      ((s.update job fun j => { j with awaiting }).state job').settled = (s.state job').settled ∧
      ((s.update job fun j => { j with awaiting }).state job').timer = (s.state job').timer := by
  rw [state_update]
  split
  · rename_i heq
    rw [heq]
    exact ⟨rfl, rfl, rfl⟩
  · exact ⟨rfl, rfl, rfl⟩

/-- A worker is called. -/
theorem Owned.call (h : Owned es s) (hactive : (s.state job).active)
    (hjob : (job.origin, job) ∈ s.jobs) (hnew : ∀ r, .called job r ∉ es)
    (hunfinished : .finished job ∉ es) (remaining : ℤ) :
    Owned (es ++ [.called job remaining]) (s.update job fun j => { j with awaiting := true }) := by
  have hstate (job' : Job) : ((s.update job fun j => { j with awaiting := true }).state job') =
      if job' = job then { s.state job with awaiting := true } else s.state job' :=
    state_update (s := s) fun j => { j with awaiting := true }
  have hsame := state_await s job true
  refine ⟨h.keys, h.named, h.known, ?_, h.nodup, ?_, ?_, ?_, ?_, ?_, ?_, ?_, ?_, ?_, ?_⟩
  · intro job'; rw [(hsame job').1]; exact h.active_known job'
  · intro job'; rw [(hsame job').1]; exact h.queued job'
  · intro job'; rw [(hsame job').2.1]; exact h.pending job'
  · have hcount : (fun e : Text × Job =>
        ((s.update job fun j => { j with awaiting := true }).state e.2).active) =
          fun e => (s.state e.2).active := funext fun e => (hsame e.2).1
    rw [hcount]
    exact h.slots
  · intro job'
    rw [(hsame job').1, ← h.dispatched]
    simp
  · intro job'
    rw [(hsame job').1, List.mem_append, List.mem_singleton]
    simp only [reduceCtorEq, or_false]
    exact h.released job'
  · intro job'
    rw [hstate]
    by_cases heq : job' = job
    · subst heq
      simp [hunfinished]
    · rw [if_neg heq, h.called]
      simp only [List.mem_append, List.mem_singleton, SchedulerEvent.called.injEq, heq, false_and,
        or_false, reduceCtorEq]
  · intro job' hbegun
    rw [(hsame job').1]
    by_cases heq : job' = job
    · rwa [heq]
    · simp only [List.mem_append, List.mem_singleton, SchedulerEvent.called.injEq, heq, false_and,
        or_false, reduceCtorEq] at hbegun
      exact h.begun job' hbegun
  · intro job' hawaiting
    rw [hstate] at hawaiting
    split at hawaiting
    · rename_i heq
      rwa [heq]
    · exact h.awaiting job' hawaiting
  · intro job' harmed
    rw [(hsame job').2.2] at harmed
    unfold Tracked
    rw [(hsame job').2.1]
    exact h.armed job' harmed
  · refine h.lawful.snoc ⟨(h.dispatched job).mpr hactive, fun hreleased => ?_, hnew⟩
    exact ((h.released job).mp hreleased).2 hjob

/-- A worker settles. -/
theorem Owned.finish (h : Owned es s) (hawaiting : (s.state job).awaiting) :
    Owned (es ++ [.finished job]) (s.update job fun j => { j with awaiting := false }) := by
  have hstate (job' : Job) : ((s.update job fun j => { j with awaiting := false }).state job') =
      if job' = job then { s.state job with awaiting := false } else s.state job' :=
    state_update (s := s) fun j => { j with awaiting := false }
  have hsame := state_await s job false
  obtain ⟨hcalled, hunfinished⟩ := (h.called job).mp hawaiting
  refine ⟨h.keys, h.named, h.known, ?_, h.nodup, ?_, ?_, ?_, ?_, ?_, ?_, ?_, ?_, ?_, ?_⟩
  · intro job'; rw [(hsame job').1]; exact h.active_known job'
  · intro job'; rw [(hsame job').1]; exact h.queued job'
  · intro job'; rw [(hsame job').2.1]; exact h.pending job'
  · have hcount : (fun e : Text × Job =>
        ((s.update job fun j => { j with awaiting := false }).state e.2).active) =
          fun e => (s.state e.2).active := funext fun e => (hsame e.2).1
    rw [hcount]
    exact h.slots
  · intro job'
    rw [(hsame job').1, ← h.dispatched]
    simp
  · intro job'
    rw [(hsame job').1, List.mem_append, List.mem_singleton]
    simp only [reduceCtorEq, or_false]
    exact h.released job'
  · intro job'
    rw [hstate]
    by_cases heq : job' = job
    · subst heq
      simp
    · rw [if_neg heq, h.called]
      simp only [List.mem_append, List.mem_singleton, SchedulerEvent.finished.injEq, heq, or_false,
        reduceCtorEq]
  · intro job' hbegun
    rw [(hsame job').1]
    by_cases heq : job' = job
    · rw [heq]
      exact h.begun job (.inl hcalled)
    · simp only [List.mem_append, List.mem_singleton, SchedulerEvent.finished.injEq, heq, or_false,
        reduceCtorEq] at hbegun
      exact h.begun job' hbegun
  · intro job' hawaiting'
    rw [hstate] at hawaiting'
    split at hawaiting'
    · exact absurd hawaiting' Bool.false_ne_true
    · exact h.awaiting job' hawaiting'
  · intro job' harmed
    rw [(hsame job').2.2] at harmed
    unfold Tracked
    rw [(hsame job').2.1]
    exact h.armed job' harmed
  · exact h.lawful.snoc ⟨hcalled, hunfinished⟩

/-- A job gives up its slot and its origin. -/
theorem Owned.release (h : Owned es s) (hactive : (s.state job).active)
    (hjob : (job.origin, job) ∈ s.jobs) (hidle : (s.state job).awaiting = false)
    (hsettled : (s.state job).settled) :
    Owned (es ++ [.released job]) (s.release job) := by
  have hmem (job' : Job) : (job'.origin, job') ∈ (s.release job).jobs ↔
      (job'.origin, job') ∈ s.jobs ∧ job' ≠ job := h.mem_filter hjob
  have hsub : (s.release job).jobs.Sublist s.jobs := List.filter_sublist
  refine ⟨h.keys.sublist (hsub.map _), fun e he => h.named e (hsub.subset he),
    fun e he => h.known e (hsub.subset he), h.active_known, h.nodup, ?_, h.pending, ?_, ?_, ?_, ?_, ?_,
    ?_, ?_, ?_⟩
  · intro job'
    rw [hmem, and_right_comm]
    refine (h.queued job').trans (and_iff_left_of_imp ?_).symm
    rintro ⟨-, hinactive⟩ rfl
    rw [hactive] at hinactive
    simp at hinactive
  · have hslots := h.slots_eq hjob
    rw [if_pos hactive] at hslots
    change s.active - 1 = _
    rw [hslots]
    exact add_sub_cancel_left _ _
  · intro job'
    rw [show (s.release job).state job' = s.state job' from rfl, ← h.dispatched]
    simp
  · intro job'
    rw [hmem, List.mem_append, List.mem_singleton, SchedulerEvent.released.injEq, h.released]
    change _ ↔ (s.state job').active ∧ _
    constructor
    · rintro (⟨hactive', hnot⟩ | rfl)
      · exact ⟨hactive', fun hin => hnot hin.1⟩
      · exact ⟨hactive, fun hin => hin.2 rfl⟩
    · rintro ⟨hactive', hnot⟩
      by_cases heq : job' = job
      · exact .inr heq
      · exact .inl ⟨hactive', fun hin => hnot ⟨hin, heq⟩⟩
  · intro job'
    refine (h.called job').trans ?_
    simp
  · intro job' hbegun
    simp only [List.mem_append, List.mem_singleton, reduceCtorEq, or_false] at hbegun
    exact h.begun job' hbegun
  · intro job' hawaiting
    refine (hmem job').mpr ⟨h.awaiting job' hawaiting, ?_⟩
    rintro rfl
    rw [show (s.release job').state job' = s.state job' from rfl, hidle] at hawaiting
    exact absurd hawaiting Bool.false_ne_true
  · intro job' harmed
    by_cases heq : job' = job
    · exact .inl (heq ▸ hsettled)
    · exact (h.armed job' harmed).imp_right fun hin => (hmem job').mpr ⟨hin, heq⟩
  · refine h.lawful.snoc ⟨(h.dispatched job).mpr hactive, fun hreleased => ?_, fun r hcalled => ?_⟩
    · exact ((h.released job).mp hreleased).2 hjob
    · by_contra hunfinished
      have := (h.called job).mpr ⟨⟨r, hcalled⟩, hunfinished⟩
      rw [hidle] at this
      exact absurd this Bool.false_ne_true

end AgentSig.Discovery
