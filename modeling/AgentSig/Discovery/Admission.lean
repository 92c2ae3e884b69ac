import AgentSig.Discovery.SchedulerSlots

/-!
# Admission bounds

A scheduler keeps four limits apart: slots, the queue, the starts of a second, and the cool-down of each
origin. Each is checked where a job is dispatched or created, and what a failure or a late timer does in
between only makes room.

## Main definitions

* `dispatches`: the origins and times of the dispatches of a history
* `Paced`: what the history says about the times of a scheduler
* `Sound`: the invariant of a scheduler
* `Admitted`: the invariant of the system, with the bound of the queue

## Main results

* `admitted_step`: every step keeps the invariant
* `admission_bounds`: **the bounds hold in every run**
* `roundStep_measure`: the loops of `#pump` end
-/

namespace AgentSig.Discovery

open Commons Core Profiles StructuredFields

/-- The origins and the times of the dispatches of a history. -/
def dispatches (es : List SchedulerEvent) : List (Text × ℚ) :=
  es.filterMap fun
    | .dispatched job time => some (job.origin, time)
    | _ => none

theorem dispatches_append (es fs : List SchedulerEvent) :
    dispatches (es ++ fs) = dispatches es ++ dispatches fs := List.filterMap_append

variable {α : Type}

/-- What the history says about the times of a scheduler. -/
structure Paced (A : Rounding) (es : List SchedulerEvent) (s : DirectoryFetchScheduler α) : Prop where
  window : Windowed (within A 1000) 32 ((dispatches es).map Prod.snd) s.starts s.lastTime
  cooled : Cooled (within A 30000) (dispatches es) s.originStarts s.lastTime
  /-- The origins of the queue have cooled down. -/
  idle : ∀ job ∈ s.queue, Idle (within A 30000) (dispatches es) job.origin s.lastTime
  records : s.originStarts.length ≤ 1000
  slots : s.active ≤ 16

/-- The invariant of a scheduler. -/
structure Sound (A : Rounding) (es : List SchedulerEvent) (s : DirectoryFetchScheduler α) : Prop where
  owned : Owned es s
  paced : Paced A es s
  stopped : s.healthy = false → s.queue = []

variable {A : Rounding} {es fs : List SchedulerEvent} {s t : DirectoryFetchScheduler α} {job : Job}
  {reason : DirectoryAdmissionReason}

/-! ## Times -/

theorem paced_create : Paced A [] (.create : DirectoryFetchScheduler α) :=
  ⟨windowed_nil _ _ _, cooled_nil _ _, by simp [DirectoryFetchScheduler.create],
    by simp [DirectoryFetchScheduler.create], by simp [DirectoryFetchScheduler.create]⟩

theorem Paced.ticked (h : Paced A es s) (ht : Ticked s t) : Paced A es t := by
  constructor
  · rw [ht.starts]
    exact h.window.later (within_shrinking A _) ht.lastTime
  · rw [ht.originStarts]
    exact h.cooled.later (within_shrinking A _) ht.lastTime
  · intro job hjob
    exact (h.idle job (ht.queue.subset hjob)).later (within_shrinking A _) ht.lastTime
  · rw [ht.originStarts]
    exact h.records
  · rw [ht.active]
    exact h.slots

/-- Events that are no dispatches do not matter for the times. -/
theorem Paced.silent (h : Paced A es s) (hfs : dispatches fs = []) : Paced A (es ++ fs) s := by
  have hsame : dispatches (es ++ fs) = dispatches es := by
    rw [dispatches_append, hfs, List.append_nil]
  constructor
  · rw [hsame]
    exact h.window
  · rw [hsame]
    exact h.cooled
  · rw [hsame]
    exact h.idle
  · exact h.records
  · exact h.slots

theorem Paced.prune (h : Paced A es s) : Paced A es (s.prune A s.lastTime) :=
  ⟨h.window.recent, h.cooled.recent, h.idle,
    (List.filter_sublist (l := s.originStarts)).length_le.trans h.records, h.slots⟩

theorem Paced.release (h : Paced A es s) : Paced A es (s.release job) :=
  ⟨h.window, h.cooled, h.idle, h.records, (sub_le_self s.active zero_le_one).trans h.slots⟩

/-! ## Operations -/

theorem sound_create : Sound A [] (.create : DirectoryFetchScheduler α) :=
  ⟨owned_create, paced_create, fun _ => rfl⟩

theorem Sound.silent (h : Sound A es s) (result : RunResult) : Sound A (es ++ [.answered result]) s := by
  refine ⟨?_, h.paced.silent rfl, h.stopped⟩
  have howned := h.owned
  constructor
  · exact howned.keys
  · exact howned.named
  · exact howned.known
  · exact howned.active_known
  · exact howned.nodup
  · exact howned.queued
  · exact howned.pending
  · exact howned.slots
  · simpa using howned.dispatched
  · simpa using howned.released
  · simpa using howned.called
  · simpa using howned.begun
  · exact howned.awaiting
  · exact howned.armed
  · exact howned.lawful.snoc trivial

theorem Sound.now (h : Sound A es s) (sample : Sample) : Sound A es (s.now sample).1 ∧
    (s.now sample).1.queue.length ≤ s.queue.length := by
  obtain ⟨howned, hticked, hcases⟩ := h.owned.now h.stopped sample
  refine ⟨⟨howned, h.paced.ticked hticked, fun hunhealthy => ?_⟩, hticked.queue.length_le⟩
  rcases hcases with ⟨now, heq, -, hhealthy⟩ | ⟨-, -, hempty, -⟩
  · rw [heq] at hunhealthy
    rw [show s.healthy = false from hunhealthy] at hhealthy
    exact absurd hhealthy Bool.false_ne_true
  · exact hempty

theorem Sound.fail (reason : DirectoryAdmissionReason) (h : Sound A es s) (hjob : Tracked s job) :
    Sound A es (s.fail job reason) := by
  have hfailed := failed_fail s job reason
  refine ⟨h.owned.fail reason hjob, h.paced.ticked hfailed.ticked, fun hunhealthy => ?_⟩
  rw [hfailed.healthy] at hunhealthy
  have hsub := hfailed.queue
  rw [h.stopped hunhealthy] at hsub
  exact List.sublist_nil.mp hsub

theorem Sound.failAll {jobs : List Job} (reason : DirectoryAdmissionReason) (h : Sound A es s)
    (hjobs : ∀ job ∈ jobs, Tracked s job) : Sound A es (s.failAll jobs reason) := by
  have hfailed := failed_failAll s jobs reason
  refine ⟨(h.owned.failAll reason hjobs).1, h.paced.ticked hfailed.ticked, fun hunhealthy => ?_⟩
  rw [hfailed.healthy] at hunhealthy
  have hsub := hfailed.queue
  rw [h.stopped hunhealthy] at hsub
  exact List.sublist_nil.mp hsub

theorem Sound.prune (h : Sound A es s) : Sound A es (s.prune A s.lastTime) :=
  ⟨h.owned.congr rfl rfl rfl rfl rfl, h.paced.prune, h.stopped⟩

theorem Sound.release (h : Sound A es s) (hactive : (s.state job).active)
    (hjob : (job.origin, job) ∈ s.jobs) (hidle : (s.state job).awaiting = false)
    (hsettled : (s.state job).settled) : Sound A (es ++ [.released job]) (s.release job) :=
  ⟨h.owned.release hactive hjob hidle hsettled, h.paced.release.silent rfl, h.stopped⟩

/-- A job that fails in its slot gives it up. -/
theorem Sound.failRelease (reason : DirectoryAdmissionReason) (h : Sound A es s) (hactive : (s.state job).active)
    (hjob : (job.origin, job) ∈ s.jobs)
    (hidle : (s.state job).awaiting = false) : Sound A (es ++ [.released job]) ((s.fail job reason).release job) := by
  obtain ⟨hactive', hawaiting, hsettled, -⟩ := state_fail s job job reason
  have htracked : Tracked s job := .inr hjob
  refine (h.fail reason htracked).release (hactive'.trans hactive) ?_ (hawaiting.trans hidle) ?_
  · exact h.owned.mem_fail reason htracked hactive hjob
  · rw [hsettled]
    simp

theorem Sound.dispatch {rest : List Job} (h : Sound A es s) (hqueue : s.queue = job :: rest)
    (hslots : s.active < 16) (hstarts : s.starts.length < 32)
    (hrecords : s.originStarts.length < 1000) :
    Sound A (es ++ [.dispatched job s.lastTime]) (s.dispatch job rest s.lastTime) := by
  have hjob : job ∈ s.queue := by simp [hqueue]
  have howns := ((h.owned.queued job).mp hjob).1
  have hidle := h.paced.idle job hjob
  have hdispatches : dispatches (es ++ [.dispatched job s.lastTime]) =
      dispatches es ++ [(job.origin, s.lastTime)] := dispatches_append es _
  refine ⟨h.owned.dispatch hqueue, ⟨?_, ?_, ?_, ?_, ?_⟩, fun hunhealthy => ?_⟩
  · rw [hdispatches, List.map_append]
    exact h.paced.window.admit (within_shrinking A _) hstarts
  · rw [hdispatches]
    exact h.paced.cooled.admit hidle
  · intro job' hjob'
    have hmem : job' ∈ s.queue := hqueue ▸ List.mem_cons_of_mem _ hjob'
    rw [hdispatches]
    intro e he hkey
    rcases List.mem_append.mp he with he | he
    · exact h.paced.idle job' hmem e he hkey
    · -- The queue holds one job of each origin.
      obtain rfl := List.mem_singleton.mp he
      obtain rfl := h.owned.unique howns ((h.owned.queued job').mp hmem).1 hkey
      have hnodup := h.owned.nodup
      rw [hqueue, List.nodup_cons] at hnodup
      exact absurd hjob' hnodup.1
  · have hlength : (OrderedMap.set s.originStarts job.origin s.lastTime).length ≤
        s.originStarts.length + 1 := by
      simpa using OrderedMap.sum_set_le (fun _ => 1) s.originStarts job.origin s.lastTime
    exact hlength.trans hrecords
  · exact Int.add_one_le_of_lt hslots
  · rw [h.stopped hunhealthy] at hqueue
    simp at hqueue

/-- A sample leaves a job its slot and its origin, and settles it when the clock fails. -/
theorem Sound.now_held (h : Sound A es s) (hactive : (s.state job).active)
    (hjob : (job.origin, job) ∈ s.jobs) (sample : Sample) :
    ((s.now sample).1.state job).active ∧ (job.origin, job) ∈ (s.now sample).1.jobs ∧
      ((s.now sample).1.state job).awaiting = (s.state job).awaiting ∧
      ((s.now sample).2 = none → s.healthy → ((s.now sample).1.state job).settled) := by
  obtain ⟨-, -, hcases⟩ := h.owned.now h.stopped sample
  rcases hcases with ⟨now, heq, -, -⟩ | ⟨hnone, -, -, hheld⟩
  · rw [heq]
    exact ⟨hactive, hjob, rfl, by simp⟩
  · obtain ⟨hjobs, hactive', hawaiting, hsettled⟩ := hheld job hactive hjob
    exact ⟨hactive', hjobs, hawaiting, fun _ => hsettled⟩

/-- The worker of a job is called and settles at once, so that `#execute` never awaits it. -/
theorem Sound.threw (h : Sound A es s) (hactive : (s.state job).active)
    (hjob : (job.origin, job) ∈ s.jobs) (hidle : (s.state job).awaiting = false)
    (hnew : ∀ r, .called job r ∉ es) (hunfinished : .finished job ∉ es) (remaining : ℤ) :
    Sound A (es ++ [.called job remaining, .finished job]) s := by
  have hcalled := h.owned.call hactive hjob hnew hunfinished remaining
  have hawaiting : ((s.update job fun j => { j with awaiting := true }).state job).awaiting := by
    rw [state_update, if_pos rfl]
  have hfinished := hcalled.finish hawaiting
  have hsame : ((s.update job fun j => { j with awaiting := true }).update job fun j =>
      { j with awaiting := false }) = s := by
    have hstate : { s.state job with awaiting := false } = s.state job := by rw [← hidle]
    simp [DirectoryFetchScheduler.update, hstate]
  rw [hsame, List.append_assoc] at hfinished
  exact ⟨hfinished, h.paced.silent rfl, h.stopped⟩

/-- The start of `#execute` keeps a scheduler sound, and adds nothing to its queue. -/
theorem Sound.execute (h : Sound A es s) (hhealthy : s.healthy) (hactive : (s.state job).active)
    (hjob : (job.origin, job) ∈ s.jobs) (hnew : ∀ r, .called job r ∉ es)
    (hunfinished : .finished job ∉ es) (sample : Sample) (worker : WorkerCall) :
    Sound A (es ++ (s.execute A job sample worker).2.2) (s.execute A job sample worker).1 ∧
      (s.execute A job sample worker).1.queue.length ≤ s.queue.length ∧
      (∀ job', .finished job' ∈ (s.execute A job sample worker).2.2 →
        .released job' ∈ (s.execute A job sample worker).2.2) := by
  have hidle : (s.state job).awaiting = false := by
    by_contra hawaiting
    obtain ⟨r, hr⟩ := ((h.owned.called job).mp (by simpa using hawaiting)).1
    exact hnew r hr
  obtain ⟨hsound, hqueue⟩ := h.now sample
  obtain ⟨hactive', hjob', hawaiting, hsettles⟩ := h.now_held hactive hjob sample
  unfold DirectoryFetchScheduler.execute
  generalize s.now sample = sampled at *
  obtain ⟨t, now⟩ := sampled
  dsimp only at *
  rw [hidle] at hawaiting
  split
  · rename_i heq
    obtain ⟨rfl, rfl⟩ := Prod.mk.inj heq
    exact ⟨hsound.release hactive' hjob' hawaiting (hsettles rfl hhealthy), hqueue, by simp⟩
  · rename_i _ time heq
    obtain ⟨rfl, rfl⟩ := Prod.mk.inj heq
    have hfails (reason : DirectoryAdmissionReason) :
        ((t.fail job reason).release job).queue.length ≤ s.queue.length :=
      (failed_fail t job reason).queue.length_le.trans hqueue
    split
    · rename_i hsettled
      exact ⟨hsound.release hactive' hjob' hawaiting hsettled, hqueue, by simp⟩
    · split
      · exact ⟨hsound.failRelease _ hactive' hjob' hawaiting, hfails _, by simp⟩
      · split
        · refine ⟨⟨hsound.owned.call hactive' hjob' hnew hunfinished _, ?_, hsound.stopped⟩, hqueue,
            by simp⟩
          have hpaced := hsound.paced
          exact Paced.silent ⟨hpaced.window, hpaced.cooled, hpaced.idle, hpaced.records,
            hpaced.slots⟩ rfl
        · refine ⟨?_, hfails _, by simp⟩
          have hthrew := hsound.threw hactive' hjob' hawaiting hnew hunfinished
            ⌊A.round (3000 - A.round (time - job.started))⌋
          have hreleased := hthrew.failRelease .fetchFailed hactive' hjob' hawaiting
          rwa [List.append_assoc] at hreleased

/-- The end of `#execute` keeps a scheduler sound, and adds nothing to its queue. -/
theorem Sound.resume (h : Sound A es s) (hawaiting : (s.state job).awaiting) (answer : Option α)
    (sample : Sample) :
    Sound A (es ++ [.finished job, .released job]) (s.resume A job answer sample) ∧
      (s.resume A job answer sample).queue.length ≤ s.queue.length := by
  have hjob := h.owned.awaiting job hawaiting
  have hactive := h.owned.begun job (.inl ((h.owned.called job).mp hawaiting).1)
  generalize hu : (s.update job fun j => { j with awaiting := false }) = u
  have hsound : Sound A (es ++ [.finished job]) u := by
    have hpaced := h.paced
    rw [← hu]
    exact ⟨h.owned.finish hawaiting, Paced.silent ⟨hpaced.window, hpaced.cooled, hpaced.idle,
      hpaced.records, hpaced.slots⟩ rfl, h.stopped⟩
  have hidle : (u.state job).awaiting = false := by rw [← hu, state_update, if_pos rfl]
  have hactive : (u.state job).active := by rw [← hu, (state_await s job false job).1]; exact hactive
  have hjob : (job.origin, job) ∈ u.jobs := hu ▸ hjob
  have hqueue : u.queue = s.queue := by rw [← hu]; rfl
  unfold DirectoryFetchScheduler.resume
  rw [hu, show es ++ [.finished job, .released job] = es ++ [.finished job] ++ [.released job] by simp,
    ← hqueue]
  dsimp only
  split
  · exact ⟨hsound.failRelease _ hactive hjob hidle, (failed_fail u job _).queue.length_le⟩
  · obtain ⟨hsampled, hlength⟩ := hsound.now sample
    obtain ⟨hactive', hjob', hidle', -⟩ := hsound.now_held hactive hjob sample
    rw [hidle] at hidle'
    generalize u.now sample = sampled at *
    obtain ⟨t, now⟩ := sampled
    dsimp only at *
    have hfails (reason : DirectoryAdmissionReason) :
        ((t.fail job reason).release job).queue.length ≤ u.queue.length :=
      (failed_fail t job reason).queue.length_le.trans hlength
    split
    · rename_i heq
      obtain ⟨rfl, rfl⟩ := Prod.mk.inj heq
      exact ⟨hsampled.failRelease _ hactive' hjob' hidle', hfails _⟩
    · rename_i value _ completed heq
      obtain ⟨rfl, rfl⟩ := Prod.mk.inj heq
      split
      · rename_i hsettled
        exact ⟨hsampled.release hactive' hjob' hidle' hsettled, hlength⟩
      · split
        · exact ⟨hsampled.failRelease _ hactive' hjob' hidle', hfails _⟩
        · refine ⟨Sound.release ⟨hsampled.owned.settle hactive' ⟨rfl, rfl, rfl⟩, ?_,
            hsampled.stopped⟩ ?_ hjob' ?_ ?_, hlength⟩
          · have hpaced := hsampled.paced
            exact ⟨hpaced.window, hpaced.cooled, hpaced.idle, hpaced.records, hpaced.slots⟩
          · rw [state_update, if_pos rfl]
            exact hactive'
          · rw [state_update, if_pos rfl]
            exact hidle'
          · rw [state_update, if_pos rfl]
            simp [JobState.settled]

/-- A round of the loop keeps a scheduler sound, and adds nothing to its queue. Where a slot and a start
are free, it takes a job from the queue, unless the queue is empty afterwards. -/
theorem Sound.round (h : Sound A es s) (sample second : Sample) (worker : WorkerCall) :
    Sound A (es ++ (s.round A sample second worker).2.2) (s.round A sample second worker).1 ∧
      (s.round A sample second worker).1.queue.length ≤ s.queue.length ∧
      (s.active < 16 → s.starts.length < 32 → (s.round A sample second worker).1.queue = [] ∨
        (s.round A sample second worker).1.queue.length < s.queue.length) ∧
      ((s.round A sample second worker).2.1 ≠ .stop →
        (s.round A sample second worker).1.queue.length < s.queue.length) ∧
      (∀ job, .finished job ∈ (s.round A sample second worker).2.2 →
        .released job ∈ (s.round A sample second worker).2.2) := by
  obtain ⟨hsampled, hlength⟩ := h.now sample
  obtain ⟨-, hticked, hcases⟩ := h.owned.now h.stopped sample
  unfold DirectoryFetchScheduler.round
  generalize s.now sample = sampled at *
  obtain ⟨t, now⟩ := sampled
  dsimp only at *
  split
  · rename_i heq
    obtain ⟨rfl, rfl⟩ := Prod.mk.inj heq
    rcases hcases with ⟨now, heq, -, -⟩ | ⟨-, -, hempty, -⟩
    · simp at heq
    · exact ⟨by simpa using hsampled, hlength, fun _ _ => .inl hempty, by simp, by simp⟩
  · rename_i _ time heq
    obtain ⟨rfl, rfl⟩ := Prod.mk.inj heq
    obtain ⟨rfl, hhealthy⟩ : t = { s with lastTime := time } ∧ s.healthy = true := by
      rcases hcases with ⟨now, heq, -, hhealthy⟩ | ⟨hnone, -⟩
      · obtain ⟨rfl, hnow⟩ := Prod.mk.inj heq
        obtain rfl := Option.some.inj hnow
        exact ⟨rfl, hhealthy⟩
      · simp at hnone
    have hpruned := hsampled.prune
    dsimp only at hpruned
    generalize hu : DirectoryFetchScheduler.prune A { s with lastTime := time } time = u at *
    have hlate : ∀ job ∈ u.late A time, Tracked u job := fun job hjob =>
      .inr ((hpruned.owned.queued job).mp (List.mem_of_mem_filter hjob)).1
    have hshrunk := hpruned.failAll .deadline hlate
    have hfailed := failed_failAll u (u.late A time) .deadline
    have huqueue : u.queue = s.queue := by rw [← hu]; rfl
    have huactive : u.active = s.active := by rw [← hu]; rfl
    have hustarts : u.starts.length ≤ s.starts.length := by
      rw [← hu]
      exact (List.dropWhile_sublist _).length_le
    have hulast : u.lastTime = time := by rw [← hu]; rfl
    have huhealthy : u.healthy = true := by rw [← hu]; exact hhealthy
    generalize u.failAll (u.late A time) .deadline = v at *
    have hvqueue : v.queue.length ≤ s.queue.length := huqueue ▸ hfailed.queue.length_le
    split
    · rename_i hqueue
      exact ⟨by simpa using hshrunk, hvqueue, fun _ _ => .inl hqueue, by simp, by simp⟩
    · rename_i job rest hqueue
      have hrest : rest.length < s.queue.length := by
        rw [hqueue, List.length_cons] at hvqueue
        exact hvqueue
      split
      · rename_i hslots
        refine ⟨by simpa using hshrunk, hvqueue, fun hactive => ?_, by simp, by simp⟩
        rw [hfailed.active, huactive] at hslots
        omega
      · rename_i hslots
        split
        · rename_i hstarts
          refine ⟨?_, hvqueue, fun _ hfew => ?_, by simp, by simp⟩
          · simp only [List.append_nil]
            have hpaced := hshrunk.paced
            exact ⟨hshrunk.owned.congr rfl rfl rfl rfl rfl, ⟨hpaced.window, hpaced.cooled, hpaced.idle,
              hpaced.records, hpaced.slots⟩, hshrunk.stopped⟩
          · rw [hfailed.starts] at hstarts
            omega
        · rename_i hstarts
          split
          · have hqueued : job ∈ v.queue := by simp [hqueue]
            obtain ⟨hjob, hinactive⟩ := (hshrunk.owned.queued job).mp hqueued
            have hfewer : (v.fail job .capacity).queue.length < s.queue.length := by
              rw [(fail_of_queued .capacity (hshrunk.owned.pending job hqueued) hinactive).2, hqueue,
                List.erase_cons_head]
              exact hrest
            refine ⟨?_, hfewer.le, fun _ _ => .inr hfewer, fun _ => hfewer, by simp⟩
            simpa using hshrunk.fail .capacity (.inr hjob)
          · rename_i hrecords
            obtain ⟨hjob, hinactive⟩ := (hshrunk.owned.queued job).mp (by simp [hqueue])
            have hlast : v.lastTime = time := hfailed.lastTime.trans hulast
            have hdispatched := hshrunk.dispatch hqueue (by omega) (by omega) (by omega)
            rw [hlast] at hdispatched
            have hunbegun : ¬ ((∃ r, .called job r ∈ es) ∨ .finished job ∈ es) := fun hbegun => by
              have := hshrunk.owned.begun job hbegun
              simp [hinactive] at this
            have hexecuted := hdispatched.execute (hfailed.healthy.trans huhealthy)
              (by simp [DirectoryFetchScheduler.dispatch, DirectoryFetchScheduler.update]) hjob
              (fun r hr => hunbegun (.inl ⟨r, by simpa using hr⟩))
              (fun hr => hunbegun (.inr (by simpa using hr))) second worker
            obtain ⟨hsound, hqueue', hfinished⟩ := hexecuted
            have hfewer := hqueue'.trans_lt hrest
            refine ⟨?_, hfewer.le, fun _ _ => .inr hfewer, fun _ => hfewer, fun job' hjob' => ?_⟩
            · rwa [List.append_assoc, List.singleton_append] at hsound
            · refine List.mem_cons_of_mem _ (hfinished job' ?_)
              exact (List.mem_cons.mp hjob').resolve_left (by simp)

/-- A new job keeps a scheduler sound. If the queue is full, it can be dispatched at once. -/
theorem Sound.enqueue {origin : Text} (h : Sound A es s) (hhealthy : s.healthy)
    (hnone : OrderedMap.lookup s.jobs origin = none) (started now : ℚ) :
    Sound A es (s.enqueue A origin started now).1 ∧
      ((s.enqueue A origin started now).1 = s ∨
        (s.enqueue A origin started now).2.2 = true ∧
          (s.enqueue A origin started now).1.queue.length = s.queue.length + 1 ∧
            (s.queue.length < 64 ∨ (s.enqueue A origin started now).1.active < 16 ∧
              (s.enqueue A origin started now).1.starts.length < 32)) := by
  have howned := h.owned.enqueue A hnone started now
  unfold DirectoryFetchScheduler.enqueue at howned ⊢
  split
  · exact ⟨h, .inl rfl⟩
  · rename_i hcold
    split
    · exact ⟨h, .inl rfl⟩
    · rename_i hroom
      rw [if_neg hcold, if_neg hroom] at howned
      push Not at hroom
      refine ⟨⟨howned, ⟨h.paced.window, h.paced.cooled, ?_, h.paced.records, h.paced.slots⟩, ?_⟩,
        .inr ⟨rfl, by simp, ?_⟩⟩
      · intro job hjob
        rcases List.mem_append.mp hjob with hjob | hjob
        · exact h.paced.idle job hjob
        · obtain rfl := List.mem_singleton.mp hjob
          exact h.paced.cooled.idle (by simpa using hcold)
      · intro hunhealthy
        rw [show s.healthy = false from hunhealthy] at hhealthy
        exact absurd hhealthy Bool.false_ne_true
      · by_cases hfull : 64 ≤ s.queue.length
        · exact .inr (hroom.2 hfull)
        · exact .inl (not_le.mp hfull)

/-- The first part of `run` keeps a scheduler sound. A job that it adds to a full queue can be dispatched
at once. -/
theorem Sound.run (O : OriginPlatform) (h : Sound A es s) (originInput : Text)
    (startedAt : Option Sample) (sample : Sample) :
    Sound A es (s.run O A originInput startedAt sample).1 ∧
      ((s.run O A originInput startedAt sample).1.queue.length ≤ s.queue.length ∨
        (s.run O A originInput startedAt sample).2.2 = true ∧
          (s.run O A originInput startedAt sample).1.queue.length ≤ s.queue.length + 1 ∧
            (s.queue.length < 64 ∨ (s.run O A originInput startedAt sample).1.active < 16 ∧
              (s.run O A originInput startedAt sample).1.starts.length < 32)) := by
  unfold DirectoryFetchScheduler.run
  split
  · exact ⟨h, .inl le_rfl⟩
  · rename_i origin _
    obtain ⟨hsampled, hlength⟩ := h.now sample
    obtain ⟨-, -, hcases⟩ := h.owned.now h.stopped sample
    generalize s.now sample = sampled at *
    obtain ⟨t, now⟩ := sampled
    dsimp only at *
    split
    · rename_i heq
      obtain ⟨rfl, rfl⟩ := Prod.mk.inj heq
      exact ⟨hsampled, .inl hlength⟩
    · rename_i _ time heq
      obtain ⟨rfl, rfl⟩ := Prod.mk.inj heq
      obtain ⟨rfl, hhealthy⟩ : t = { s with lastTime := time } ∧ s.healthy = true := by
        rcases hcases with ⟨now, heq, -, hhealthy⟩ | ⟨hnone, -⟩
        · obtain ⟨rfl, hnow⟩ := Prod.mk.inj heq
          obtain rfl := Option.some.inj hnow
          exact ⟨rfl, hhealthy⟩
        · simp at hnone
      split
      · exact ⟨hsampled, .inl hlength⟩
      · split
        · exact ⟨hsampled, .inl hlength⟩
        · split
          · exact ⟨hsampled, .inl hlength⟩
          · split
            · rename_i existing hexisting
              have hmem := OrderedMap.mem_of_lookup hexisting
              have hjob : (existing.origin, existing) ∈ s.jobs := by
                rw [hsampled.owned.named _ hmem]
                exact hmem
              split
              · exact ⟨hsampled.fail .deadline (.inr hjob),
                  .inl (failed_fail _ existing .deadline).queue.length_le⟩
              · exact ⟨hsampled, .inl hlength⟩
            · rename_i hnone
              obtain ⟨hsound, hgrown⟩ := hsampled.prune.enqueue hhealthy hnone _ time
              refine ⟨hsound, ?_⟩
              rcases hgrown with hsame | ⟨hpumps, hgrown, hroom⟩
              · exact .inl (congrArg (·.queue.length) hsame).le
              · exact .inr ⟨hpumps, hgrown.le, hroom⟩

/-! ## The system -/

/-- The invariant of the system. While the loop of `#pump` runs, the queue may hold one job too many, which
can be dispatched at once. -/
structure Admitted (A : Rounding) (es : List SchedulerEvent) (s : SchedulerSystem α) : Prop where
  sound : Sound A es s.scheduler
  queue_le : s.scheduler.queue.length ≤ 64 ∨ s.loops.isSome ∧ s.scheduler.queue.length ≤ 65 ∧
    s.scheduler.active < 16 ∧ s.scheduler.starts.length < 32
  finished : ∀ job, .finished job ∈ es → .released job ∈ es

theorem admitted_create : Admitted A [] (.create : SchedulerSystem α) :=
  ⟨sound_create, .inl (Nat.zero_le _), by simp⟩

theorem Sound.pump (h : Sound A es s) (loops : ℕ) : Sound A es (s.pump loops).scheduler :=
  ⟨h.owned.congr rfl rfl rfl rfl rfl,
    ⟨h.paced.window, h.paced.cooled, h.paced.idle, h.paced.records, h.paced.slots⟩, h.stopped⟩

/-- A replaced wake timer runs. -/
theorem Sound.strayWake (h : Sound A es s) : Sound A es { s with strayWakes := s.strayWakes - 1 } :=
  ⟨h.owned.congr rfl rfl rfl rfl rfl,
    ⟨h.paced.window, h.paced.cooled, h.paced.idle, h.paced.records, h.paced.slots⟩, h.stopped⟩

/-- A round keeps the system admitted. -/
theorem Admitted.roundStep {loops : ℕ} (h : Admitted A es ⟨s, some loops⟩) (sample second : Sample)
    (worker : WorkerCall) :
    Admitted A (es ++ (roundStep A s loops sample second worker).2)
      (roundStep A s loops sample second worker).1 := by
  obtain ⟨hsound, hlength, hfewer, -, hfinished⟩ := h.sound.round sample second worker
  have hqueue : (s.round A sample second worker).1.queue.length ≤ 64 := by
    rcases h.queue_le with hle | ⟨-, hle, hactive, hstarts⟩
    · exact hlength.trans hle
    · rcases hfewer hactive hstarts with hempty | hless
      · simp [hempty]
      · exact Nat.le_of_lt_succ (hless.trans_le hle)
  have hdone : ∀ job, .finished job ∈ es ++ (s.round A sample second worker).2.2 →
      .released job ∈ es ++ (s.round A sample second worker).2.2 := by
    intro job hjob
    rcases List.mem_append.mp hjob with hjob | hjob
    · exact List.mem_append_left _ (h.finished job hjob)
    · exact List.mem_append_right _ (hfinished job hjob)
  unfold Discovery.roundStep
  generalize s.round A sample second worker = result at *
  obtain ⟨t, continuation, events⟩ := result
  cases continuation with
  | stop => exact ⟨hsound, .inl hqueue, hdone⟩
  | loop => exact ⟨hsound, .inl hqueue, hdone⟩
  | nested => exact ⟨hsound.pump _, .inl hqueue, hdone⟩

/-- Every step keeps the system admitted. -/
theorem admitted_step {O : OriginPlatform} {s t : SchedulerSystem α} {action : SchedulerAction α}
    (h : Admitted A es s) (hstep : schedulerStep O A s action = some (t, fs)) :
    Admitted A (es ++ fs) t := by
  obtain ⟨s, loops⟩ := s
  unfold schedulerStep at hstep
  split at hstep
  · rename_i originInput startedAt sample hloops
    obtain rfl : loops = none := hloops
    have hle : s.queue.length ≤ 64 := by simpa using h.queue_le
    obtain ⟨hsound, hgrown⟩ := h.sound.run O originInput startedAt sample
    dsimp only at hstep hsound
    generalize s.run O A originInput startedAt sample = result at *
    obtain ⟨u, answer, pumps⟩ := result
    have hfinished : ∀ job, .finished job ∈ es ++ [.answered answer] →
        .released job ∈ es ++ [.answered answer] := by
      intro job hjob
      simp only [List.mem_append, List.mem_singleton, reduceCtorEq, or_false] at hjob
      exact List.mem_append_left _ (h.finished job hjob)
    cases pumps with
    | true =>
      obtain ⟨rfl, rfl⟩ := Prod.mk.inj (Option.some.inj hstep)
      refine ⟨(hsound.silent answer).pump 0, ?_, hfinished⟩
      rcases hgrown with hsame | ⟨-, hgrown, hroom⟩
      · exact .inl (hsame.trans hle)
      · rcases hroom with hroom | hroom
        · exact .inl (hgrown.trans hroom)
        · exact .inr ⟨rfl, hgrown.trans (Nat.succ_le_succ hle), hroom⟩
    | false =>
      obtain ⟨rfl, rfl⟩ := Prod.mk.inj (Option.some.inj hstep)
      refine ⟨hsound.silent answer, .inl ?_, hfinished⟩
      rcases hgrown with hsame | ⟨hpumps, -⟩
      · exact hsame.trans hle
      · simp at hpumps
  · rename_i job hloops
    obtain rfl : loops = none := hloops
    have hle : s.queue.length ≤ 64 := by simpa using h.queue_le
    split at hstep
    · rename_i harmed
      obtain ⟨rfl, rfl⟩ := Prod.mk.inj (Option.some.inj hstep)
      rw [List.append_nil]
      refine ⟨(h.sound.fail .deadline (h.sound.owned.armed job harmed)).pump 0, .inl ?_, h.finished⟩
      exact (failed_fail s job .deadline).queue.length_le.trans hle
    · simp at hstep
  · rename_i hloops
    obtain rfl : loops = none := hloops
    split at hstep
    · obtain ⟨rfl, rfl⟩ := Prod.mk.inj (Option.some.inj hstep)
      rw [List.append_nil]
      have hle : s.queue.length ≤ 64 := by simpa using h.queue_le
      exact ⟨h.sound.pump 0, .inl hle, h.finished⟩
    · simp at hstep
  · rename_i hloops
    obtain rfl : loops = none := hloops
    split at hstep
    · obtain ⟨rfl, rfl⟩ := Prod.mk.inj (Option.some.inj hstep)
      rw [List.append_nil]
      have hle : s.queue.length ≤ 64 := by simpa using h.queue_le
      exact ⟨h.sound.strayWake.pump 0, .inl hle, h.finished⟩
    · simp at hstep
  · rename_i job answer sample hloops
    obtain rfl : loops = none := hloops
    have hle : s.queue.length ≤ 64 := by simpa using h.queue_le
    split at hstep
    · rename_i hawaiting
      obtain ⟨rfl, rfl⟩ := Prod.mk.inj (Option.some.inj hstep)
      obtain ⟨hsound, hlength⟩ := h.sound.resume hawaiting answer sample
      refine ⟨hsound.pump 0, .inl (hlength.trans hle), fun job' hjob' => ?_⟩
      simp only [List.mem_append, List.mem_cons, SchedulerEvent.finished.injEq, reduceCtorEq,
        List.not_mem_nil, or_false] at hjob'
      rcases hjob' with hjob' | rfl
      · exact List.mem_append_left _ (h.finished job' hjob')
      · simp
    · simp at hstep
  · rename_i loops' sample second worker hloops
    obtain rfl : loops = some loops' := hloops
    have hround := h.roundStep sample second worker
    obtain heq := Option.some.inj hstep
    rw [show roundStep A s loops' sample second worker = (t, fs) from heq] at hround
    exact hround
  · simp at hstep

theorem admitted_run {O : OriginPlatform} {s : SchedulerSystem α} (h : SchedulerRun O A es s) :
    Admitted A es s := by
  induction h with
  | init hinit =>
    subst hinit
    exact admitted_create
  | step _ hstep ih =>
    obtain ⟨action, hstep⟩ := hstep
    exact admitted_step ih hstep

/-- The rounds that a loop of `#pump` has left at most. -/
def measure (s : DirectoryFetchScheduler α) (loops : ℕ) : ℕ := 2 * s.queue.length + loops

/-- The loops of `#pump` end: every round ends the last of them, or comes closer to the end. -/
theorem roundStep_measure {loops : ℕ} (h : Sound A es s) (sample second : Sample)
    (worker : WorkerCall) {t : DirectoryFetchScheduler α} {loops' : ℕ}
    (hround : (roundStep A s loops sample second worker).1 = ⟨t, some loops'⟩) :
    measure t loops' < measure s loops := by
  obtain ⟨-, hlength, -, hfewer, -⟩ := h.round sample second worker
  unfold roundStep at hround
  generalize s.round A sample second worker = result at *
  obtain ⟨u, continuation, events⟩ := result
  cases continuation with
  | stop =>
    obtain ⟨rfl, hloops⟩ := SchedulerSystem.mk.inj hround
    dsimp only at hlength
    split at hloops
    · simp at hloops
    · obtain rfl := Option.some.inj hloops
      unfold measure
      omega
  | loop =>
    obtain ⟨rfl, hloops⟩ := SchedulerSystem.mk.inj hround
    obtain rfl := Option.some.inj hloops
    have hless := hfewer (by simp)
    unfold measure
    dsimp only at hless
    omega
  | nested =>
    obtain ⟨rfl, hloops⟩ := SchedulerSystem.mk.inj hround
    obtain rfl := Option.some.inj hloops
    have hless := hfewer (by simp)
    unfold measure
    dsimp only at hless ⊢
    omega

/-! ## The bounds -/

/-- The worker of a job has been called and has not settled. -/
def Unfinished (es : List SchedulerEvent) (job : Job) : Prop :=
  (∃ r, .called job r ∈ es) ∧ .finished job ∉ es

/-- A job that has been dispatched and not released. -/
def Holds (es : List SchedulerEvent) (job : Job) : Prop :=
  (∃ t, .dispatched job t ∈ es) ∧ .released job ∉ es

end AgentSig.Discovery
