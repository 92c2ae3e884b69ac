import AgentSig.Discovery.Promises

/-!
# Settlement

A promise that a call has returned is settled once, in time or with an error. Until then its job is registered,
its timer runs, and it is queued or holds a slot; when a clock has failed, nothing is left to settle.

## Main definitions

* `Promised`: what the history says about the promises of a scheduler
* `Woken`: the wake timer is armed where it is needed
* `Settlement`, `StepSettlement`: the promises of a run, and of a step

## Main results

* `run_cases`: a call joins a job or creates one
* `promised_step`, `woken_step`: every step keeps what the history says
* `scheduler_settlement`: **the promises of every run**
-/

namespace AgentSig.Discovery

open Commons Core Profiles StructuredFields

variable {α : Type} {allowed : Job → α → Prop} {A : Rounding} {es fs : List SchedulerEvent}
  {s t u : DirectoryFetchScheduler α} {job job' : Job}

/-! ## Calls -/

/-- A scheduler that is healthy is as ready to go on as it was: it has its timer, its slots, and no more jobs
in its queue. -/
def KeepsWake (s t : DirectoryFetchScheduler α) : Prop :=
  t.healthy → s.healthy ∧ t.wake = s.wake ∧ t.active = s.active ∧ t.queue.Sublist s.queue

theorem KeepsWake.trans (h : KeepsWake s t) (h' : KeepsWake t u) : KeepsWake s u := by
  intro hhealthy
  obtain ⟨hhealthy, hwake, hactive, hqueue⟩ := h' hhealthy
  obtain ⟨hhealthy, hwake', hactive', hqueue'⟩ := h hhealthy
  exact ⟨hhealthy, hwake.trans hwake', hactive.trans hactive', hqueue.trans hqueue'⟩

theorem keepsWake_fail (s : DirectoryFetchScheduler α) (job : Job) (reason : DirectoryAdmissionReason) :
    KeepsWake s (s.fail job reason) := by
  have hfailed := failed_fail s job reason
  intro hhealthy
  refine ⟨hfailed.healthy ▸ hhealthy, ?_, hfailed.active, hfailed.queue⟩
  unfold DirectoryFetchScheduler.fail
  split
  · rfl
  · dsimp only
    split
    · rfl
    · rfl

theorem keepsWake_now (h : Sound A es s) (sample : Sample) : KeepsWake s (s.now sample).1 := by
  obtain ⟨-, -, hcases⟩ := h.owned.now h.stopped sample
  intro hhealthy
  rcases hcases with ⟨now, heq, -, hbefore⟩ | ⟨-, hstopped, -⟩
  · rw [heq]
    exact ⟨hbefore, rfl, rfl, List.Sublist.refl _⟩
  · rw [hstopped] at hhealthy
    simp at hhealthy

/-- A call that creates no job: it keeps all jobs, and returns the promise of one at most. -/
structure Joins (s t : DirectoryFetchScheduler α) (result : RunResult) : Prop where
  keeps : ∀ allowed, Keeps allowed s t
  joined : ∀ job, result = .promise job → (job.origin, job) ∈ s.jobs
  wake : KeepsWake s t

/-- A call that creates a job, whose promise it returns. -/
structure Creates (s t : DirectoryFetchScheduler α) (job : Job) : Prop where
  fresh : job.id = s.created
  created : t.created = s.created + 1
  others : ∀ job', job' ≠ job → t.state job' = s.state job'
  pending : (t.state job).settlements = []
  timer : (t.state job).timer.isSome
  jobs : t.jobs = s.jobs ++ [(job.origin, job)]
  healthy : s.healthy ∧ t.healthy

/-- A new job is registered with its timer. -/
theorem creates_enqueue {origin : Text} (hhealthy : s.healthy) (hnone : OrderedMap.lookup s.jobs origin = none)
    (started now : ℚ) :
    ((s.enqueue A origin started now).1 = s ∧ (s.enqueue A origin started now).2.2 = false ∧
      ∀ job, (s.enqueue A origin started now).2.1 ≠ .promise job) ∨
    ∃ job, Creates s (s.enqueue A origin started now).1 job ∧
      (s.enqueue A origin started now).2 = (.promise job, true) := by
  have hkey : origin ∉ s.jobs.map (·.1) := by
    rw [← OrderedMap.lookup_isSome, hnone]
    simp
  unfold DirectoryFetchScheduler.enqueue
  split
  · exact .inl ⟨rfl, rfl, by simp⟩
  · split
    · exact .inl ⟨rfl, rfl, by simp⟩
    · right
      refine ⟨⟨s.created, origin, started⟩, ⟨rfl, rfl, fun job' hne => ?_, ?_, ?_, ?_, hhealthy, hhealthy⟩, rfl⟩
      · simp [DirectoryFetchScheduler.update, hne]
      · simp [DirectoryFetchScheduler.update, JobState.new]
      · simp [DirectoryFetchScheduler.update]
      · exact OrderedMap.set_of_notMem hkey _

/-- A call joins a job or is refused, or it creates a job. -/
theorem run_cases (O : OriginPlatform) (h : Sound A es s) (originInput : Text) (startedAt : Option Sample)
    (sample : Sample) :
    (Joins s (s.run O A originInput startedAt sample).1 (s.run O A originInput startedAt sample).2.1 ∧
      (s.run O A originInput startedAt sample).2.2 = false) ∨
    ∃ u job, (∀ allowed, Keeps allowed s u) ∧ Creates u (s.run O A originInput startedAt sample).1 job ∧
      (s.run O A originInput startedAt sample).2 = (.promise job, true) := by
  unfold DirectoryFetchScheduler.run
  split
  · refine .inl ⟨⟨fun _ => keeps_of_eq rfl rfl rfl rfl, by simp, fun hhealthy => ?_⟩, rfl⟩
    exact ⟨hhealthy, rfl, rfl, List.Sublist.refl _⟩
  · rename_i origin _
    have hsampled := (h.now sample).1
    have hkeeps (allowed : Job → α → Prop) := keeps_now allowed h.owned sample
    have hwake := keepsWake_now h sample
    have htime := now_eq_some s sample
    generalize s.now sample = sampled at *
    obtain ⟨t, now⟩ := sampled
    dsimp only at *
    have hrejected (reason : DirectoryAdmissionReason) : Joins s t (.rejected reason) :=
      ⟨hkeeps, by simp, hwake⟩
    split
    · rename_i heq
      obtain ⟨rfl, rfl⟩ := Prod.mk.inj heq
      exact .inl ⟨hrejected _, rfl⟩
    · rename_i _ time heq
      obtain ⟨rfl, rfl⟩ := Prod.mk.inj heq
      obtain ⟨-, -, hhealthy⟩ := htime time rfl
      split
      · exact .inl ⟨hrejected _, rfl⟩
      · split
        · exact .inl ⟨hrejected _, rfl⟩
        · split
          · exact .inl ⟨hrejected _, rfl⟩
          · split
            · -- The call joins a job, which fails if its own deadline has passed.
              rename_i existing hexisting
              have hmem := OrderedMap.mem_of_lookup hexisting
              have hjob : (existing.origin, existing) ∈ t.jobs := by
                rw [hsampled.owned.named _ hmem]
                exact hmem
              have hjoined : ∀ job, RunResult.promise existing = .promise job → (job.origin, job) ∈ s.jobs := by
                intro job heq
                obtain rfl := RunResult.promise.inj heq
                exact (hkeeps fun _ _ => False).sub _ hjob
              split
              · exact .inl ⟨⟨fun allowed => (hkeeps allowed).trans (keeps_fail _ _ hsampled.owned (.inr hjob)),
                  hjoined, hwake.trans (keepsWake_fail _ _ _)⟩, rfl⟩
              · exact .inl ⟨⟨hkeeps, hjoined, hwake⟩, rfl⟩
            · rename_i hnone
              have hprune (allowed : Job → α → Prop) : Keeps allowed s (t.prune A time) :=
                (hkeeps allowed).trans (keeps_of_eq rfl rfl rfl rfl)
              rcases creates_enqueue (s := t.prune A time) hhealthy hnone _ time with
                ⟨hsame, hpumps, hresult⟩ | ⟨job, hcreates, hresult⟩
              · refine .inl ⟨⟨?_, fun job hjob => absurd hjob (hresult job), ?_⟩, hpumps⟩
                · rw [hsame]
                  exact hprune
                · rw [hsame]
                  exact hwake
              · exact .inr ⟨_, job, hprune, hcreates, hresult⟩

/-! ## Steps -/

/-- What the history says about the promises of a scheduler. -/
structure Promised (es : List SchedulerEvent) (s : DirectoryFetchScheduler α) : Prop where
  known : ∀ job, .answered (.promise job) ∈ es → job.id < s.created
  once : ∀ job, (s.state job).settlements.length ≤ 1
  registered : ∀ job, (job.origin, job) ∈ s.jobs → .answered (.promise job) ∈ es
  live : ∀ job, .answered (.promise job) ∈ es → (s.state job).settled ∨
    ((job.origin, job) ∈ s.jobs ∧ (s.state job).timer.isSome)
  stopped : s.healthy = false → ∀ job, .answered (.promise job) ∈ es → (s.state job).settled

theorem promised_create : Promised [] (.create : DirectoryFetchScheduler α) := by
  constructor <;> simp [DirectoryFetchScheduler.create, JobState.new]

/-- An operation keeps what the history says. -/
theorem Promised.keeps (h : Promised es s) (hkeeps : Keeps allowed s t) : Promised es t where
  known job hjob := hkeeps.created ▸ h.known job hjob
  once job := (hkeeps.progress job).length_le (h.once job)
  registered job hjob := h.registered job (hkeeps.sub _ hjob)
  live job hjob := by
    by_cases hsettled : (t.state job).settled
    · exact .inl hsettled
    · right
      have hpending : (t.state job).settled = false := by simpa using hsettled
      have hbefore : ¬ (s.state job).settled := fun hbefore => hsettled ((hkeeps.progress job).settled hbefore)
      obtain ⟨howns, harmed⟩ := (h.live job hjob).resolve_left hbefore
      refine ⟨(hkeeps.jobs job howns).resolve_left hsettled, ?_⟩
      rw [(hkeeps.progress job).timer hpending]
      exact harmed
  stopped hstopped job hjob := by
    rcases hkeeps.stopped hstopped with hbefore | hsettled
    · exact (hkeeps.progress job).settled (h.stopped hbefore job hjob)
    · rcases h.live job hjob with hbefore | ⟨howns, -⟩
      · exact (hkeeps.progress job).settled hbefore
      · exact hsettled job howns

/-- Events that promise nothing new do not matter. -/
theorem Promised.silent (h : Promised es s)
    (hfs : ∀ job, .answered (.promise job) ∈ fs → .answered (.promise job) ∈ es) : Promised (es ++ fs) s := by
  have hmem (job : Job) : .answered (.promise job) ∈ es ++ fs ↔ .answered (.promise job) ∈ es := by
    rw [List.mem_append]
    exact or_iff_left_of_imp (hfs job)
  refine ⟨fun job hjob => h.known job ((hmem job).mp hjob), h.once,
    fun job hjob => (hmem job).mpr (h.registered job hjob), fun job hjob => h.live job ((hmem job).mp hjob),
    fun hstopped job hjob => h.stopped hstopped job ((hmem job).mp hjob)⟩

/-- A new job is promised. -/
theorem Promised.creates (h : Promised es s) (hcreates : Creates s t job) :
    Promised (es ++ [.answered (.promise job)]) t := by
  have hfresh {job' : Job} (hjob' : .answered (.promise job') ∈ es) : job' ≠ job := by
    rintro rfl
    exact absurd (h.known job' hjob') (hcreates.fresh ▸ lt_irrefl _)
  have hcases {job' : Job} (hjob' : .answered (.promise job') ∈ es ++ [.answered (.promise job)]) :
      .answered (.promise job') ∈ es ∨ job' = job := by
    simpa using hjob'
  refine ⟨fun job' hjob' => ?_, fun job' => ?_, fun job' hjob' => ?_, fun job' hjob' => ?_, fun hstopped => ?_⟩
  · rw [hcreates.created]
    rcases hcases hjob' with hjob' | rfl
    · exact (h.known job' hjob').trans (Nat.lt_succ_self _)
    · exact hcreates.fresh ▸ Nat.lt_succ_self _
  · by_cases heq : job' = job
    · rw [heq, hcreates.pending]
      exact Nat.zero_le 1
    · rw [hcreates.others job' heq]
      exact h.once job'
  · rw [hcreates.jobs] at hjob'
    rcases List.mem_append.mp hjob' with hjob' | hjob'
    · exact List.mem_append_left _ (h.registered job' hjob')
    · obtain ⟨-, rfl⟩ := Prod.mk.inj (List.mem_singleton.mp hjob')
      exact List.mem_append_right _ (List.mem_singleton_self _)
  · rw [hcreates.jobs]
    rcases hcases hjob' with hjob' | rfl
    · rw [hcreates.others job' (hfresh hjob')]
      exact (h.live job' hjob').imp_right fun hlive => ⟨List.mem_append_left _ hlive.1, hlive.2⟩
    · exact .inr ⟨List.mem_append_right _ (List.mem_singleton_self _), hcreates.timer⟩
  · rw [hcreates.healthy.2] at hstopped
    simp at hstopped

/-- What a step does to the promises: it keeps all jobs, or it creates one. -/
inductive PromiseStep (s t : SchedulerSystem α) (action : SchedulerAction α)
    (fs : List SchedulerEvent) : Prop
  | keeps {allowed : Job → α → Prop} : Keeps allowed s.scheduler t.scheduler →
      (∀ job value, allowed job value → ∃ answer sample, action = .settle job answer sample ∧
        (s.scheduler.state job).awaiting ∧ InTime s.scheduler t.scheduler answer sample job value) →
      (∀ job, .answered (.promise job) ∈ fs → (job.origin, job) ∈ s.scheduler.jobs) →
      PromiseStep s t action fs
  | creates {u : DirectoryFetchScheduler α} {job : Job} : (∀ allowed, Keeps allowed s.scheduler u) →
      Creates u t.scheduler job → fs = [.answered (.promise job)] → PromiseStep s t action fs

theorem keeps_pump (allowed : Job → α → Prop) (s : DirectoryFetchScheduler α) (loops : ℕ) :
    Keeps allowed s (s.pump loops).scheduler := keeps_of_eq rfl rfl rfl rfl

theorem Creates.pump (h : Creates s t job) (loops : ℕ) : Creates s (t.pump loops).scheduler job :=
  ⟨h.fresh, h.created, h.others, h.pending, h.timer, h.jobs, h.healthy⟩

/-- The events of a round promise nothing. -/
theorem round_silent (s : DirectoryFetchScheduler α) (sample second : Sample) (worker : WorkerCall)
    (result : RunResult) : .answered result ∉ (s.round A sample second worker).2.2 := by
  unfold DirectoryFetchScheduler.round DirectoryFetchScheduler.execute
  dsimp only
  repeat' split
  all_goals simp

theorem promiseStep_of_step {O : OriginPlatform} {s t : SchedulerSystem α} {action : SchedulerAction α}
    (h : Admitted A es s) (hstep : schedulerStep O A s action = some (t, fs)) :
    PromiseStep s t action fs := by
  obtain ⟨s, loops⟩ := s
  have hsound := h.sound
  dsimp only at hsound
  unfold schedulerStep at hstep
  split at hstep
  · rename_i originInput startedAt sample hloops
    have hcases := run_cases O hsound originInput startedAt sample
    dsimp only at hstep
    generalize s.run O A originInput startedAt sample = called at *
    obtain ⟨u, result, pumps⟩ := called
    dsimp only at hcases hstep
    rcases hcases with ⟨hjoins, rfl⟩ | ⟨v, job, hkeeps, hcreates, hresult⟩
    · obtain ⟨rfl, rfl⟩ := Prod.mk.inj (Option.some.inj hstep)
      refine .keeps (hjoins.keeps fun _ _ => False) (by simp) fun job hjob => hjoins.joined job ?_
      exact (SchedulerEvent.answered.inj (List.mem_singleton.mp hjob)).symm
    · obtain ⟨rfl, rfl⟩ := Prod.mk.inj hresult
      obtain ⟨rfl, rfl⟩ := Prod.mk.inj (Option.some.inj hstep)
      exact .creates hkeeps (hcreates.pump 0) rfl
  · rename_i job hloops
    split at hstep
    · rename_i harmed
      obtain ⟨rfl, rfl⟩ := Prod.mk.inj (Option.some.inj hstep)
      exact .keeps ((keeps_fail (fun _ _ => False) .deadline hsound.owned (hsound.owned.armed job harmed)).trans
        (keeps_pump _ _ 0)) (by simp) (by simp)
    · simp at hstep
  · split at hstep
    · obtain ⟨rfl, rfl⟩ := Prod.mk.inj (Option.some.inj hstep)
      exact .keeps (keeps_pump (fun _ _ => False) s 0) (by simp) (by simp)
    · simp at hstep
  · split at hstep
    · obtain ⟨rfl, rfl⟩ := Prod.mk.inj (Option.some.inj hstep)
      have hkeeps : Keeps (fun _ _ => False) s s := keeps_of_eq rfl rfl rfl rfl
      exact .keeps (hkeeps.trans (keeps_of_eq rfl rfl rfl rfl)) (by simp) (by simp)
    · simp at hstep
  · rename_i job answer sample hloops
    split at hstep
    · rename_i hawaiting
      obtain ⟨rfl, rfl⟩ := Prod.mk.inj (Option.some.inj hstep)
      obtain ⟨allowed, hkeeps, hallowed⟩ := keeps_resume hsound hawaiting answer sample
      refine .keeps (hkeeps.trans (keeps_pump _ _ 0)) (fun job' value hvalue => ?_) (by simp)
      obtain ⟨rfl, hintime⟩ := hallowed job' value hvalue
      exact ⟨answer, sample, rfl, hawaiting, hintime⟩
    · simp at hstep
  · rename_i loops' sample second worker hloops
    have hkeeps := keeps_round (fun _ _ => False) hsound sample second worker
    have hsilent := round_silent (A := A) s sample second worker
    unfold roundStep at hstep
    dsimp only at hstep
    generalize s.round A sample second worker = result at *
    obtain ⟨u, continuation, events⟩ := result
    cases continuation with
    | stop =>
      obtain ⟨rfl, rfl⟩ := Prod.mk.inj (Option.some.inj hstep)
      exact .keeps hkeeps (by simp) fun job hjob => absurd hjob (hsilent _)
    | loop =>
      obtain ⟨rfl, rfl⟩ := Prod.mk.inj (Option.some.inj hstep)
      exact .keeps hkeeps (by simp) fun job hjob => absurd hjob (hsilent _)
    | nested =>
      obtain ⟨rfl, rfl⟩ := Prod.mk.inj (Option.some.inj hstep)
      exact .keeps (hkeeps.trans (keeps_pump _ _ _)) (by simp) fun job hjob => absurd hjob (hsilent _)
  · simp at hstep

theorem promised_step {O : OriginPlatform} {s t : SchedulerSystem α} {action : SchedulerAction α}
    (h : Promised es s.scheduler) (hadmitted : Admitted A es s)
    (hstep : schedulerStep O A s action = some (t, fs)) : Promised (es ++ fs) t.scheduler := by
  cases promiseStep_of_step hadmitted hstep with
  | keeps hkeeps hallowed hjoined =>
    exact (h.keeps hkeeps).silent fun job hjob => h.registered job (hjoined job hjob)
  | creates hkeeps hcreates hfs =>
    subst hfs
    exact (h.keeps (hkeeps fun _ _ => False)).creates hcreates

/-! ## Wake-ups -/

/-- A scheduler that is healthy and has a queued job and a free slot has its wake timer armed. -/
def Woken (s : DirectoryFetchScheduler α) : Prop :=
  s.healthy → s.queue ≠ [] → s.active < 16 → s.wake.isSome

theorem Woken.keeps (h : Woken s) (hkeeps : KeepsWake s t) : Woken t := by
  intro hhealthy hqueue hactive
  obtain ⟨hhealthy, hwake, hsame, hsub⟩ := hkeeps hhealthy
  rw [hwake]
  refine h hhealthy ?_ (hsame ▸ hactive)
  rintro hempty
  rw [hempty] at hsub
  exact hqueue (List.sublist_nil.mp hsub)

/-- A loop that ends has nothing to do, or has armed the wake timer. -/
theorem woken_round (h : Sound A es s) (sample second : Sample) (worker : WorkerCall)
    (hstop : (s.round A sample second worker).2.1 = .stop) : Woken (s.round A sample second worker).1 := by
  obtain ⟨-, -, hcases⟩ := h.owned.now h.stopped sample
  revert hstop
  unfold DirectoryFetchScheduler.round
  generalize s.now sample = sampled at *
  obtain ⟨t, now⟩ := sampled
  dsimp only at *
  split
  · rename_i heq
    obtain ⟨rfl, rfl⟩ := Prod.mk.inj heq
    rcases hcases with ⟨now, heq, -, -⟩ | ⟨-, hstopped, -⟩
    · simp at heq
    · intro _ hhealthy
      rw [hstopped] at hhealthy
      simp at hhealthy
  · split
    · rename_i hqueue
      exact fun _ _ hne => absurd hqueue hne
    · split
      · rename_i hslots
        intro _ _ _ hactive
        exact absurd hactive (not_lt.mpr hslots)
      · split
        · exact fun _ _ _ _ => rfl
        · split
          · intro hloop
            simp at hloop
          · -- A job that is dispatched is followed by another round.
            intro hexecuted
            dsimp only at hexecuted
            unfold DirectoryFetchScheduler.execute at hexecuted
            dsimp only at hexecuted
            repeat' split at hexecuted
            all_goals simp at hexecuted

theorem woken_step {O : OriginPlatform} {s t : SchedulerSystem α} {action : SchedulerAction α}
    (h : s.loops = none → Woken s.scheduler) (hadmitted : Admitted A es s)
    (hstep : schedulerStep O A s action = some (t, fs)) (hidle : t.loops = none) : Woken t.scheduler := by
  obtain ⟨s, loops⟩ := s
  have hsound := hadmitted.sound
  dsimp only at h hsound
  unfold schedulerStep at hstep
  split at hstep
  · rename_i originInput startedAt sample hloops
    have hcases := run_cases O hsound originInput startedAt sample
    dsimp only at hstep
    generalize s.run O A originInput startedAt sample = called at *
    obtain ⟨u, result, pumps⟩ := called
    dsimp only at hcases hstep
    rcases hcases with ⟨hjoins, rfl⟩ | ⟨v, job, hkeeps, hcreates, hresult⟩
    · obtain ⟨rfl, rfl⟩ := Prod.mk.inj (Option.some.inj hstep)
      exact (h hloops).keeps hjoins.wake
    · obtain ⟨rfl, rfl⟩ := Prod.mk.inj hresult
      obtain ⟨rfl, rfl⟩ := Prod.mk.inj (Option.some.inj hstep)
      simp [DirectoryFetchScheduler.pump] at hidle
  · split at hstep
    · obtain ⟨rfl, rfl⟩ := Prod.mk.inj (Option.some.inj hstep)
      simp [DirectoryFetchScheduler.pump] at hidle
    · simp at hstep
  · split at hstep
    · obtain ⟨rfl, rfl⟩ := Prod.mk.inj (Option.some.inj hstep)
      simp [DirectoryFetchScheduler.pump] at hidle
    · simp at hstep
  · split at hstep
    · obtain ⟨rfl, rfl⟩ := Prod.mk.inj (Option.some.inj hstep)
      simp [DirectoryFetchScheduler.pump] at hidle
    · simp at hstep
  · split at hstep
    · obtain ⟨rfl, rfl⟩ := Prod.mk.inj (Option.some.inj hstep)
      simp [DirectoryFetchScheduler.pump] at hidle
    · simp at hstep
  · rename_i loops' sample second worker hloops
    have hwoken := woken_round hsound sample second worker
    unfold roundStep at hstep
    dsimp only at hstep
    generalize s.round A sample second worker = result at *
    obtain ⟨u, continuation, events⟩ := result
    cases continuation with
    | stop =>
      obtain ⟨rfl, rfl⟩ := Prod.mk.inj (Option.some.inj hstep)
      exact hwoken rfl
    | loop =>
      obtain ⟨rfl, rfl⟩ := Prod.mk.inj (Option.some.inj hstep)
      simp at hidle
    | nested =>
      obtain ⟨rfl, rfl⟩ := Prod.mk.inj (Option.some.inj hstep)
      simp [DirectoryFetchScheduler.pump] at hidle
  · simp at hstep

/-- A scheduler that has stopped dispatches nothing. -/
theorem stopped_step {O : OriginPlatform} {s t : SchedulerSystem α} {action : SchedulerAction α}
    (hstopped : s.scheduler.healthy = false) (hstep : schedulerStep O A s action = some (t, fs)) :
    (∀ job time, .dispatched job time ∉ fs) ∧ ∀ job remaining, .called job remaining ∉ fs := by
  unfold schedulerStep at hstep
  split at hstep
  · split at hstep
    · obtain ⟨rfl, rfl⟩ := Prod.mk.inj (Option.some.inj hstep)
      simp
    · obtain ⟨rfl, rfl⟩ := Prod.mk.inj (Option.some.inj hstep)
      simp
  · split at hstep
    · obtain ⟨rfl, rfl⟩ := Prod.mk.inj (Option.some.inj hstep)
      simp
    · simp at hstep
  · split at hstep
    · obtain ⟨rfl, rfl⟩ := Prod.mk.inj (Option.some.inj hstep)
      simp
    · simp at hstep
  · split at hstep
    · obtain ⟨rfl, rfl⟩ := Prod.mk.inj (Option.some.inj hstep)
      simp
    · simp at hstep
  · split at hstep
    · obtain ⟨rfl, rfl⟩ := Prod.mk.inj (Option.some.inj hstep)
      simp
    · simp at hstep
  · rename_i loops sample second worker hloops
    have hnow : s.scheduler.now sample = (s.scheduler, none) := by
      unfold DirectoryFetchScheduler.now
      rw [if_neg (by simp [hstopped])]
    unfold roundStep DirectoryFetchScheduler.round at hstep
    rw [hnow] at hstep
    obtain ⟨rfl, rfl⟩ := Prod.mk.inj (Option.some.inj hstep)
    simp
  · simp at hstep

/-! ## Every run -/

/-- The promises of a scheduler. -/
structure Settlement (es : List SchedulerEvent) (s : SchedulerSystem α) : Prop where
  once : ∀ job, (s.scheduler.state job).settlements.length ≤ 1
  /-- A job that is not settled owns its origin, has its timer armed, and is queued or holds a slot. -/
  placed : ∀ job, .answered (.promise job) ∈ es → (s.scheduler.state job).settled = false →
    OrderedMap.lookup s.scheduler.jobs job.origin = some job ∧ (s.scheduler.state job).timer.isSome ∧
      (job ∈ s.scheduler.queue ↔ ¬ Holds es job)
  /-- Between two events, a queued job and a free slot wait for the wake timer only. -/
  woken : s.loops = none → s.scheduler.healthy → s.scheduler.queue ≠ [] → s.scheduler.active < 16 →
    s.scheduler.wake.isSome
  stopped : s.scheduler.healthy = false → ∀ job, .answered (.promise job) ∈ es →
    (s.scheduler.state job).settled

/-- What a step does to the promises. -/
structure StepSettlement (es : List SchedulerEvent) (s t : SchedulerSystem α) (action : SchedulerAction α)
    (fs : List SchedulerEvent) : Prop where
  kept : ∀ job, .answered (.promise job) ∈ es → (s.scheduler.state job).settled →
    (t.scheduler.state job).settlements = (s.scheduler.state job).settlements
  /-- A promise is fulfilled with the value of its own worker, in time. -/
  fulfilled : ∀ job value, .ok value ∈ (t.scheduler.state job).settlements →
    .ok value ∈ (s.scheduler.state job).settlements ∨ ∃ completed,
      action = .settle job (some value) (some completed) ∧ Unfinished es job ∧
        s.scheduler.lastTime ≤ completed ∧ completed - job.started < 3000
  /-- No call and no other step arms the timer of a job again. -/
  deadline : ∀ job, .answered (.promise job) ∈ es → (t.scheduler.state job).settled = false →
    (t.scheduler.state job).timer = (s.scheduler.state job).timer
  /-- A clock that fails rejects what is not settled. -/
  fault : s.scheduler.healthy → t.scheduler.healthy = false → ∀ job, .answered (.promise job) ∈ es →
    (s.scheduler.state job).settled = false → ∃ reason, (t.scheduler.state job).settlements = [.error reason]
  /-- Nothing is dispatched after that. -/
  silent : s.scheduler.healthy = false → t.scheduler.healthy = false ∧
    (∀ job time, .dispatched job time ∉ fs) ∧ ∀ job remaining, .called job remaining ∉ fs

theorem Creates.ne (h : Creates s t job) (hpromised : Promised es s) (hjob' : .answered (.promise job') ∈ es) :
    job' ≠ job := by
  rintro rfl
  exact absurd (hpromised.known job' hjob') (h.fresh ▸ lt_irrefl _)

theorem stepSettlement_of_step {O : OriginPlatform} {s t : SchedulerSystem α} {action : SchedulerAction α}
    (h : Promised es s.scheduler) (hadmitted : Admitted A es s)
    (hstep : schedulerStep O A s action = some (t, fs)) : StepSettlement es s t action fs := by
  have howned := hadmitted.sound.owned
  cases promiseStep_of_step hadmitted hstep with
  | @keeps allowed hkeeps hallowed hjoined =>
    refine ⟨fun job _ hsettled => ?_, fun job value hvalue => ?_, fun job _ hpending =>
      (hkeeps.progress job).timer hpending, fun hhealthy hstopped job hjob hpending => ?_, fun hstopped =>
      ⟨hkeeps.healthy hstopped, stopped_step hstopped hstep⟩⟩
    · rcases hkeeps.progress job with ⟨hsame, -⟩ | ⟨hnil, -⟩
      · exact hsame
      · exact absurd hnil (settled_iff.mp hsettled)
    · rcases hkeeps.progress job with ⟨hsame, -⟩ | ⟨-, -, result, hresult, hfulfils⟩
      · exact .inl (hsame ▸ hvalue)
      · right
        rw [hresult, List.mem_singleton] at hvalue
        obtain ⟨answer, sample, rfl, hawaiting, rfl, -, completed, rfl, hle, hlt⟩ :=
          hallowed job value (hfulfils value hvalue.symm)
        exact ⟨completed, rfl, (howned.called job).mp hawaiting, hle, hlt⟩
    · have hregistered := ((h.live job hjob).resolve_left (by simp [hpending])).1
      have hsettled := (hkeeps.stopped hstopped).resolve_left (by simp [hhealthy]) job hregistered
      rcases hkeeps.progress job with ⟨hsame, -⟩ | ⟨-, -, result, hresult, hfulfils⟩
      · rw [settled_iff, hsame, ← settled_iff, hpending] at hsettled
        simp at hsettled
      · cases result with
        | error reason => exact ⟨reason, hresult⟩
        | ok value =>
          -- No value is observed in time by a clock that fails.
          obtain ⟨answer, sample, -, -, -, hhealthy', -⟩ := hallowed job value (hfulfils value rfl)
          rw [hstopped] at hhealthy'
          simp at hhealthy'
  | @creates u job hkeeps hcreates hfs =>
    have hkept := hkeeps fun _ _ => False
    have hothers {job' : Job} (hjob' : .answered (.promise job') ∈ es) :
        t.scheduler.state job' = u.state job' := hcreates.others job' (hcreates.ne (h.keeps hkept) hjob')
    refine ⟨fun job' hjob' hsettled => ?_, fun job' value hvalue => ?_, fun job' hjob' hpending => ?_,
      fun _ hstopped => ?_, fun hstopped => ?_⟩
    · rw [hothers hjob']
      rcases hkept.progress job' with ⟨hsame, -⟩ | ⟨hnil, -⟩
      · exact hsame
      · exact absurd hnil (settled_iff.mp hsettled)
    · by_cases heq : job' = job
      · rw [heq, hcreates.pending] at hvalue
        simp at hvalue
      · rw [hcreates.others job' heq] at hvalue
        rcases hkept.progress job' with ⟨hsame, -⟩ | ⟨-, -, result, hresult, hfulfils⟩
        · exact .inl (hsame ▸ hvalue)
        · rw [hresult, List.mem_singleton] at hvalue
          exact absurd (hfulfils value hvalue.symm) id
    · rw [hothers hjob'] at hpending ⊢
      exact (hkept.progress job').timer hpending
    · rw [hcreates.healthy.2] at hstopped
      simp at hstopped
    · have hstopped' := hkept.healthy hstopped
      rw [hcreates.healthy.1] at hstopped'
      simp at hstopped'

/-- What the history of a run says about its promises. -/
theorem promised_run {O : OriginPlatform} {s : SchedulerSystem α} (h : SchedulerRun O A es s) :
    Promised es s.scheduler ∧ (s.loops = none → Woken s.scheduler) := by
  induction h with
  | init hinit =>
    subst hinit
    exact ⟨promised_create, fun _ _ hqueue => absurd rfl hqueue⟩
  | step hrun hstep ih =>
    obtain ⟨action, hstep⟩ := hstep
    have hadmitted := admitted_run hrun
    exact ⟨promised_step ih.1 hadmitted hstep, woken_step ih.2 hadmitted hstep⟩

/-- **In every run of a scheduler, each promise is settled once and in time, no job is lost, no wake-up is
lost, and nothing happens after a fault of the clock.** -/
theorem scheduler_settlement (O : OriginPlatform) (A : Rounding) {es : List SchedulerEvent}
    {s : SchedulerSystem α} (hrun : SchedulerRun O A es s) :
    Settlement es s ∧ ∀ (action : SchedulerAction α) (t : SchedulerSystem α) (fs : List SchedulerEvent),
      schedulerStep O A s action = some (t, fs) → StepSettlement es s t action fs := by
  have hadmitted := admitted_run hrun
  have howned := hadmitted.sound.owned
  obtain ⟨hpromised, hwoken⟩ := promised_run hrun
  refine ⟨⟨hpromised.once, fun job hjob hpending => ?_, hwoken, hpromised.stopped⟩,
    fun action t fs hstep => stepSettlement_of_step hpromised hadmitted hstep⟩
  obtain ⟨howns, harmed⟩ := (hpromised.live job hjob).resolve_left (by simp [hpending])
  refine ⟨OrderedMap.lookup_of_mem howned.keys howns, harmed, ?_⟩
  unfold Holds
  rw [howned.queued, howned.dispatched, howned.released]
  simp [howns]

/-- A call whose worker answers in time, and the loops of `#pump` between its events. -/
def fetchActions : List (SchedulerAction ℕ) :=
  [.run (ascii "https://a.example") none (some 0), .round (some 0) (some 1) .pending, .round (some 1) none .pending,
    .settle ⟨0, ascii "https://a.example", 0⟩ (some 7) (some 2999), .round (some 2999) none .pending]

theorem scheduler_settlement_fetchActions : ∃ (es : List SchedulerEvent) (s : SchedulerSystem ℕ),
    (s.scheduler.state ⟨0, ascii "https://a.example", 0⟩).settlements.any Except.isOk ∧ s.loops = none ∧
      Settlement es s := by
  have hrun : (runAll (schedulerStep spelledOrigins .exact) fetchActions .create []).any fun r =>
      (r.1.scheduler.state ⟨0, ascii "https://a.example", 0⟩).settlements.any Except.isOk &&
        r.1.loops = none := by
    decide +kernel
  obtain ⟨⟨s, es⟩, hsome, hfulfilled⟩ := (Option.any_eq_true _ _).mp hrun
  obtain ⟨hfulfilled, hidle⟩ := Bool.and_eq_true_iff.mp hfulfilled
  exact ⟨es, s, hfulfilled, of_decide_eq_true hidle,
    (scheduler_settlement spelledOrigins .exact (Run.runAll (.init rfl) hsome)).1⟩

end AgentSig.Discovery
