import AgentSig.Discovery.Admission

/-!
# Promises of jobs

A job fails in five places and ends well in one, and the loop of `#pump` may call itself between them. Every
operation settles a promise at most once, and clears its timer when it does; until then the job keeps its
origin and its timer.

## Main definitions

* `Progress`: what an operation does to the promise of a job
* `Keeps`: what an operation does to all jobs
* `InTime`: a value is observed in time

## Main results

* `Keeps.trans`: operations compose
* `keeps_now`: a clock that fails settles all jobs
* `keeps_round`, `keeps_resume`: a round of the loop, and the end of a worker
-/

namespace AgentSig.Discovery

open Commons Core Profiles StructuredFields

variable {α : Type}

/-! ## Promises -/

/-- The promise of a job and its timer stay, or the promise is settled and the timer cleared. A promise is
fulfilled only with a value that is allowed. -/
def Progress (allowed : α → Prop) (j j' : JobState α) : Prop :=
  (j'.settlements = j.settlements ∧ j'.timer = j.timer) ∨
    (j.settlements = [] ∧ j'.timer = none ∧ ∃ result, j'.settlements = [result] ∧
      ∀ value, result = .ok value → allowed value)

section Progress

variable {allowed : α → Prop} {j j' j'' : JobState α}

theorem settled_iff : j.settled ↔ j.settlements ≠ [] := by simp [JobState.settled]

theorem Progress.refl (allowed : α → Prop) (j : JobState α) : Progress allowed j j := .inl ⟨rfl, rfl⟩

theorem Progress.trans (h : Progress allowed j j') (h' : Progress allowed j' j'') : Progress allowed j j'' := by
  rcases h with ⟨hsettlements, htimer⟩ | ⟨hpending, htimer, result, hresult, hallowed⟩
  · rcases h' with ⟨hsettlements', htimer'⟩ | ⟨hpending', htimer', hresult'⟩
    · exact .inl ⟨hsettlements'.trans hsettlements, htimer'.trans htimer⟩
    · exact .inr ⟨hsettlements ▸ hpending', htimer', hresult'⟩
  · -- A promise that is settled stays as it is.
    rcases h' with ⟨hsettlements', htimer'⟩ | ⟨hpending', -⟩
    · exact .inr ⟨hpending, htimer'.trans htimer, result, hsettlements'.trans hresult, hallowed⟩
    · rw [hresult] at hpending'
      simp at hpending'

theorem Progress.settled (h : Progress allowed j j') (hsettled : j.settled) : j'.settled := by
  rw [settled_iff] at hsettled ⊢
  rcases h with ⟨hsettlements, -⟩ | ⟨hpending, -⟩
  · rwa [hsettlements]
  · exact absurd hpending hsettled

theorem Progress.length_le (h : Progress allowed j j') (hle : j.settlements.length ≤ 1) :
    j'.settlements.length ≤ 1 := by
  rcases h with ⟨hsettlements, -⟩ | ⟨-, -, result, hresult, -⟩
  · rwa [hsettlements]
  · rw [hresult, List.length_singleton]

/-- A job that is not settled has the timer that it had. -/
theorem Progress.timer (h : Progress allowed j j') (hpending : j'.settled = false) : j'.timer = j.timer := by
  rcases h with ⟨-, htimer⟩ | ⟨-, -, result, hresult, -⟩
  · exact htimer
  · simp [JobState.settled, hresult] at hpending

end Progress

/-- What an operation does to all jobs: `t` is `s` after some promises have been settled. -/
structure Keeps (allowed : Job → α → Prop) (s t : DirectoryFetchScheduler α) : Prop where
  created : t.created = s.created
  progress : ∀ job, Progress (allowed job) (s.state job) (t.state job)
  sub : ∀ e ∈ t.jobs, e ∈ s.jobs
  /-- A job gives up its origin only when it is settled. -/
  jobs : ∀ job, (job.origin, job) ∈ s.jobs → (t.state job).settled ∨ (job.origin, job) ∈ t.jobs
  healthy : s.healthy = false → t.healthy = false
  /-- A clock that fails settles all jobs. -/
  stopped : t.healthy = false → s.healthy = false ∨ ∀ job, (job.origin, job) ∈ s.jobs → (t.state job).settled

variable {allowed : Job → α → Prop} {A : Rounding} {es fs : List SchedulerEvent}
  {s t u : DirectoryFetchScheduler α} {job job' : Job} {reason : DirectoryAdmissionReason}

/-- The queue, the slots and the times do not matter for the promises. -/
theorem keeps_of_eq (hcreated : t.created = s.created) (hstate : t.state = s.state) (hjobs : t.jobs = s.jobs)
    (hhealthy : t.healthy = s.healthy) : Keeps allowed s t where
  created := hcreated
  progress _ := hstate ▸ Progress.refl _ _
  sub _ he := hjobs ▸ he
  jobs _ hjob := .inr (hjobs ▸ hjob)
  healthy h := hhealthy.trans h
  stopped h := .inl (hhealthy ▸ h)

theorem Keeps.trans (h : Keeps allowed s t) (h' : Keeps allowed t u) : Keeps allowed s u where
  created := h'.created.trans h.created
  progress job := (h.progress job).trans (h'.progress job)
  sub e he := h.sub e (h'.sub e he)
  jobs job hjob := by
    rcases h.jobs job hjob with hsettled | hjob
    · exact .inl ((h'.progress job).settled hsettled)
    · exact h'.jobs job hjob
  healthy hstopped := h'.healthy (h.healthy hstopped)
  stopped hstopped := by
    rcases h'.stopped hstopped with hstopped | hsettled
    · exact (h.stopped hstopped).imp_right fun hsettled job hjob =>
        (h'.progress job).settled (hsettled job hjob)
    · refine .inr fun job hjob => ?_
      rcases h.jobs job hjob with hjob | hjob
      · exact (h'.progress job).settled hjob
      · exact hsettled job hjob

/-- An update of a job that is no settlement, or the settlement of a job that is not settled. -/
theorem keeps_update (f : JobState α → JobState α)
    (hf : Progress (allowed job) (s.state job) (f (s.state job))) : Keeps allowed s (s.update job f) where
  created := rfl
  progress job' := by
    rw [state_update]
    split
    · rename_i heq
      exact heq ▸ hf
    · exact .refl _ _
  sub _ he := he
  jobs _ hjob := .inr hjob
  healthy h := h
  stopped h := .inl h

/-- A job that is settled gives up its origin. -/
theorem keeps_filter (h : Owned es s) (hsettled : (t.state job).settled)
    (hcreated : t.created = s.created)
    (hprogress : ∀ job', Progress (allowed job') (s.state job') (t.state job'))
    (howns : (job.origin, job) ∈ s.jobs) (hjobs : t.jobs = s.jobs.filter (·.1 ≠ job.origin))
    (hhealthy : t.healthy = s.healthy) : Keeps allowed s t where
  created := hcreated
  progress := hprogress
  sub e he := (List.mem_filter.mp (hjobs ▸ he)).1
  jobs job' hjob' := by
    by_cases heq : job' = job
    · exact .inl (heq ▸ hsettled)
    · exact .inr (hjobs ▸ (h.mem_filter howns).mpr ⟨hjob', heq⟩)
  healthy h := hhealthy.trans h
  stopped h := .inl (hhealthy ▸ h)

/-! ## Operations -/

/-- A failure rejects the promise of its job. -/
theorem progress_reject (reason : DirectoryAdmissionReason) {j : JobState α} (allowed : α → Prop) (hpending : j.settled = false) :
    Progress allowed j { j with
      settlements := j.settlements ++ [.error reason], timer := none, aborted := true } := by
  have hnil : j.settlements = [] := by
    by_contra hne
    rw [settled_iff.mpr hne] at hpending
    simp at hpending
  exact .inr ⟨hnil, rfl, .error reason, by rw [hnil, List.nil_append], by simp⟩

theorem keeps_fail (allowed : Job → α → Prop) (reason : DirectoryAdmissionReason) (h : Owned es s)
    (hjob : Tracked s job) : Keeps allowed s (s.fail job reason) := by
  by_cases hsettled : (s.state job).settled
  · rw [fail_of_settled hsettled]
    exact keeps_of_eq rfl rfl rfl rfl
  have hpending : (s.state job).settled = false := by simpa using hsettled
  have hreject := progress_reject reason (allowed job) hpending
  by_cases hactive : (s.state job).active
  · rw [fail_of_active reason hpending hactive]
    exact keeps_update _ hreject
  · -- A job that fails in the queue gives up its origin.
    have hupdate : Keeps allowed s (s.update job fun j => { j with
        settlements := j.settlements ++ [.error reason], timer := none, aborted := true }) :=
      keeps_update _ hreject
    have hfailed := failed_fail s job reason
    have hsettles := (state_fail s job job reason).2.2.1
    have hinactive : (s.state job).active = false := by simpa using hactive
    refine keeps_filter h (by rw [hsettles]; simp) hfailed.created (fun job' => ?_)
      (hjob.resolve_left hsettled) (fail_of_queued reason hpending hinactive).1 hfailed.healthy
    rw [show (s.fail job reason).state = (s.update job fun j => { j with
        settlements := j.settlements ++ [.error reason], timer := none, aborted := true }).state by
      rw [DirectoryFetchScheduler.fail, if_neg hsettled]
      dsimp only
      rw [if_neg hactive]]
    exact hupdate.progress job'

theorem keeps_failAll (allowed : Job → α → Prop) {jobs : List Job} (reason : DirectoryAdmissionReason)
    (h : Owned es s) (hjobs : ∀ job ∈ jobs, Tracked s job) : Keeps allowed s (s.failAll jobs reason) := by
  induction jobs generalizing s with
  | nil => exact keeps_of_eq rfl rfl rfl rfl
  | cons job jobs ih =>
    have hjob := hjobs job List.mem_cons_self
    refine (keeps_fail allowed reason h hjob).trans (ih (h.fail reason hjob) fun job' hmem => ?_)
    exact hjob.fail h (hjobs job' (List.mem_cons_of_mem _ hmem))

/-- A sample leaves the jobs alone, or it is no time and settles all of them. -/
theorem keeps_now (allowed : Job → α → Prop) (h : Owned es s) (sample : Sample) :
    Keeps allowed s (s.now sample).1 := by
  unfold DirectoryFetchScheduler.now
  split
  · split
    · exact keeps_of_eq rfl rfl rfl rfl
    · have hstopped : Owned es { s with healthy := false, wake := none } := h.congr rfl rfl rfl rfl rfl
      have htracked : ∀ job ∈ s.jobs.map Prod.snd,
          Tracked { s with healthy := false, wake := none } job := by
        intro job hjob
        obtain ⟨e, he, rfl⟩ := List.mem_map.mp hjob
        exact .inr (by rw [h.named e he]; exact he)
      obtain ⟨-, -, -, -, hsettled⟩ := hstopped.failAll .clock htracked
      obtain ⟨hcreated, hprogress, hsub, hjobs, hhealthy, -⟩ :=
        keeps_failAll allowed .clock hstopped htracked
      exact ⟨hcreated, hprogress, hsub, hjobs, fun _ => hhealthy rfl, fun _ => .inr fun job hjob =>
        hsettled job (List.mem_map_of_mem (f := Prod.snd) hjob)⟩
  · exact keeps_of_eq rfl rfl rfl rfl

/-- A job that is settled gives up its slot. -/
theorem keeps_release (allowed : Job → α → Prop) (h : Owned es s) (hjob : (job.origin, job) ∈ s.jobs)
    (hsettled : (s.state job).settled) : Keeps allowed s (s.release job) :=
  keeps_filter h hsettled rfl (fun _ => .refl _ _) hjob rfl rfl

/-- A job that fails in its slot gives it up. -/
theorem keeps_failRelease (allowed : Job → α → Prop) (reason : DirectoryAdmissionReason) (h : Owned es s)
    (hactive : (s.state job).active) (hjob : (job.origin, job) ∈ s.jobs) :
    Keeps allowed s ((s.fail job reason).release job) := by
  have htracked : Tracked s job := .inr hjob
  refine (keeps_fail allowed reason h htracked).trans (keeps_release allowed (h.fail reason htracked) ?_ ?_)
  · exact h.mem_fail reason htracked hactive hjob
  · rw [(state_fail s job job reason).2.2.1]
    simp

/-- The start of `#execute` settles promises only by failures. -/
theorem keeps_execute (allowed : Job → α → Prop) (h : Sound A es s) (hhealthy : s.healthy)
    (hactive : (s.state job).active) (hjob : (job.origin, job) ∈ s.jobs) (sample : Sample)
    (worker : WorkerCall) : Keeps allowed s (s.execute A job sample worker).1 := by
  have hsampled := (h.now sample).1
  have hkeeps := keeps_now allowed h.owned sample
  obtain ⟨hactive', hjob', -, hsettles⟩ := h.now_held hactive hjob sample
  unfold DirectoryFetchScheduler.execute
  generalize s.now sample = sampled at *
  obtain ⟨t, now⟩ := sampled
  dsimp only at *
  split
  · rename_i heq
    obtain ⟨rfl, rfl⟩ := Prod.mk.inj heq
    exact hkeeps.trans (keeps_release allowed hsampled.owned hjob' (hsettles rfl hhealthy))
  · rename_i _ time heq
    obtain ⟨rfl, rfl⟩ := Prod.mk.inj heq
    split
    · rename_i hsettled
      exact hkeeps.trans (keeps_release allowed hsampled.owned hjob' hsettled)
    · split
      · exact hkeeps.trans (keeps_failRelease allowed _ hsampled.owned hactive' hjob')
      · cases worker with
        | pending =>
          exact hkeeps.trans (keeps_update (fun j => { j with awaiting := true }) (.inl ⟨rfl, rfl⟩))
        | threw => exact hkeeps.trans (keeps_failRelease allowed _ hsampled.owned hactive' hjob')

/-- A round of the loop settles promises only by failures. -/
theorem keeps_round (allowed : Job → α → Prop) (h : Sound A es s) (sample second : Sample)
    (worker : WorkerCall) : Keeps allowed s (s.round A sample second worker).1 := by
  have hsampled := (h.now sample).1
  have hkeeps := keeps_now allowed h.owned sample
  obtain ⟨-, -, hcases⟩ := h.owned.now h.stopped sample
  unfold DirectoryFetchScheduler.round
  generalize s.now sample = sampled at *
  obtain ⟨t, now⟩ := sampled
  dsimp only at *
  split
  · rename_i heq
    obtain ⟨rfl, rfl⟩ := Prod.mk.inj heq
    exact hkeeps
  · rename_i _ time heq
    obtain ⟨rfl, rfl⟩ := Prod.mk.inj heq
    obtain ⟨rfl, hhealthy⟩ : t = { s with lastTime := time } ∧ s.healthy = true := by
      rcases hcases with ⟨now, heq, -, hhealthy⟩ | ⟨hnone, -⟩
      · obtain ⟨rfl, hnow⟩ := Prod.mk.inj heq
        obtain rfl := Option.some.inj hnow
        exact ⟨rfl, hhealthy⟩
      · simp at hnone
    have hpruned := hsampled.prune
    have hprunes : Keeps allowed { s with lastTime := time }
        (DirectoryFetchScheduler.prune A { s with lastTime := time } time) := keeps_of_eq rfl rfl rfl rfl
    dsimp only at hpruned
    generalize hu : DirectoryFetchScheduler.prune A { s with lastTime := time } time = u at *
    have hlate : ∀ job ∈ u.late A time, Tracked u job := fun job hjob =>
      .inr ((hpruned.owned.queued job).mp (List.mem_of_mem_filter hjob)).1
    have hshrunk := hpruned.failAll .deadline hlate
    have hfailed := failed_failAll u (u.late A time) .deadline
    have hkept := (hkeeps.trans hprunes).trans (keeps_failAll allowed .deadline hpruned.owned hlate)
    have huhealthy : u.healthy = true := by rw [← hu]; exact hhealthy
    have hulast : u.lastTime = time := by rw [← hu]; rfl
    generalize u.failAll (u.late A time) .deadline = v at *
    split
    · exact hkept
    · rename_i job rest hqueue
      obtain ⟨hjob, hinactive⟩ := (hshrunk.owned.queued job).mp (by simp [hqueue])
      split
      · exact hkept
      · rename_i hslots
        split
        · exact hkept.trans (keeps_of_eq rfl rfl rfl rfl)
        · rename_i hstarts
          split
          · exact hkept.trans (keeps_fail allowed .capacity hshrunk.owned (.inr hjob))
          · rename_i hrecords
            have hdispatched := hshrunk.dispatch hqueue (by omega) (by omega) (by omega)
            rw [hfailed.lastTime.trans hulast] at hdispatched
            have hdispatches : Keeps allowed v (v.dispatch job rest time) :=
              (keeps_update (fun j => { j with active := true }) (.inl ⟨rfl, rfl⟩)).trans
                (keeps_of_eq rfl rfl rfl rfl)
            refine (hkept.trans hdispatches).trans (keeps_execute allowed hdispatched
              (hfailed.healthy.trans huhealthy) ?_ hjob second worker)
            simp [DirectoryFetchScheduler.dispatch, DirectoryFetchScheduler.update]

/-- The value of a worker is observed in time: it is that of the answer, at a sampled time less than three
seconds after the job has started, and the clock is healthy. -/
def InTime (s t : DirectoryFetchScheduler α) (answer : Option α) (sample : Sample) (job : Job) (value : α) :
    Prop :=
  answer = some value ∧ t.healthy ∧
    ∃ completed, sample = some completed ∧ s.lastTime ≤ completed ∧ completed - job.started < 3000

/-- A sample that is a time. -/
theorem now_eq_some (s : DirectoryFetchScheduler α) (sample : Sample) (now : ℚ) (h : (s.now sample).2 = some now) :
    sample = some now ∧ s.lastTime ≤ now ∧ (s.now sample).1.healthy := by
  unfold DirectoryFetchScheduler.now at h ⊢
  split at h
  · rename_i hhealthy
    rw [if_pos hhealthy]
    split at h
    · rename_i time hfilter
      obtain rfl := Option.some.inj h
      obtain ⟨hsample, hbounds⟩ := Option.filter_eq_some_iff.mp hfilter
      exact ⟨hsample, (of_decide_eq_true hbounds).1, hhealthy⟩
    · simp at h
  · simp at h

/-- A rounded difference below three seconds is a difference below three seconds. -/
theorem lt_of_round_lt (A : Rounding) {x : ℚ} (h : ¬ 3000 ≤ A.round x) : x < 3000 := by
  by_contra hle
  have hround : A.round 3000 = 3000 := by exact_mod_cast A.integer 3000 (by decide)
  exact h (hround ▸ A.monotone (not_lt.mp hle))

/-- The end of `#execute` settles promises by failures, or fulfils its own one in time. -/
theorem keeps_resume (h : Sound A es s) (hawaiting : (s.state job).awaiting) (answer : Option α)
    (sample : Sample) :
    ∃ allowed : Job → α → Prop, Keeps allowed s (s.resume A job answer sample) ∧
      ∀ job' value, allowed job' value →
        job' = job ∧ InTime s (s.resume A job answer sample) answer sample job value := by
  have hjob := h.owned.awaiting job hawaiting
  have hactive := h.owned.begun job (.inl ((h.owned.called job).mp hawaiting).1)
  have hupdate (allowed : Job → α → Prop) : Keeps allowed s (s.update job fun j => { j with awaiting := false }) :=
    keeps_update (fun j => { j with awaiting := false }) (.inl ⟨rfl, rfl⟩)
  have hlast : (s.update job fun j => { j with awaiting := false }).lastTime = s.lastTime := rfl
  unfold DirectoryFetchScheduler.resume
  generalize hu : (s.update job fun j => { j with awaiting := false }) = u at *
  have hsound : Sound A (es ++ [.finished job]) u := by
    have hpaced := h.paced
    rw [← hu]
    exact ⟨h.owned.finish hawaiting, Paced.silent ⟨hpaced.window, hpaced.cooled, hpaced.idle,
      hpaced.records, hpaced.slots⟩ rfl, h.stopped⟩
  have hactive : (u.state job).active := by rw [← hu, (state_await s job false job).1]; exact hactive
  have hjob : (job.origin, job) ∈ u.jobs := hu ▸ hjob
  dsimp only
  split
  · exact ⟨fun _ _ => False, (hupdate _).trans (keeps_failRelease _ _ hsound.owned hactive hjob), by simp⟩
  · rename_i value
    have hsampled := (hsound.now sample).1
    have hkeeps (allowed : Job → α → Prop) := (hupdate allowed).trans (keeps_now allowed hsound.owned sample)
    obtain ⟨hactive', hjob', -, -⟩ := hsound.now_held hactive hjob sample
    have htime := now_eq_some u sample
    generalize u.now sample = sampled at *
    obtain ⟨t, now⟩ := sampled
    dsimp only at *
    split
    · rename_i heq
      obtain ⟨rfl, rfl⟩ := Prod.mk.inj heq
      exact ⟨fun _ _ => False, (hkeeps _).trans (keeps_failRelease _ _ hsampled.owned hactive' hjob'), by simp⟩
    · rename_i _ completed heq
      obtain ⟨rfl, rfl⟩ := Prod.mk.inj heq
      obtain ⟨hsample, hle, hhealthy⟩ := htime completed rfl
      split
      · rename_i hsettled
        exact ⟨fun _ _ => False, (hkeeps _).trans (keeps_release _ hsampled.owned hjob' hsettled), by simp⟩
      · rename_i hpending
        split
        · exact ⟨fun _ _ => False, (hkeeps _).trans (keeps_failRelease _ _ hsampled.owned hactive' hjob'),
            by simp⟩
        · -- The value is observed in time, and the job releases its slot.
          rename_i hearly
          have hnil : (t.state job).settlements = [] := by
            by_contra hne
            exact hpending (settled_iff.mpr hne)
          have hfulfils : Keeps (fun job' value' => job' = job ∧ value' = value) t (t.update job fun j =>
              { j with settlements := j.settlements ++ [.ok value], timer := none }) :=
            keeps_update _ (.inr ⟨hnil, rfl, .ok value, by rw [hnil, List.nil_append],
              fun value' hvalue => ⟨rfl, (Except.ok.inj hvalue).symm⟩⟩)
          refine ⟨_, (hkeeps _).trans (hfulfils.trans (keeps_release _
            (hsampled.owned.settle hactive' ⟨rfl, rfl, rfl⟩) hjob' ?_)), ?_⟩
          · rw [state_update, if_pos rfl]
            simp [JobState.settled]
          · rintro job' value' ⟨rfl, rfl⟩
            exact ⟨rfl, rfl, hhealthy, completed, hsample, hlast ▸ hle, lt_of_round_lt A hearly⟩

end AgentSig.Discovery
