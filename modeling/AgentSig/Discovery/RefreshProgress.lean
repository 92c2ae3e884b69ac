import AgentSig.Discovery.RefreshOwnership

/-!
# Progress of refreshes

No refresh is lost. Between two events, a task that is open can take its next step, or it waits for a job that
the scheduler still has, whose deadline settles it. A call of `resolve` can go on, or it waits for such a task.

## Main definitions

* `Awaited`: what is awaited is known to the transport, or to the service
* `Waits`: what a task waits for

## Main results

* `awaited_run`: what is awaited is known, in every run
* `refresh_progress`: **no refresh and no resolution is lost**
-/

namespace AgentSig.Discovery

open Commons Profiles StructuredFields

variable {ρ : Type} {read : JwksFormat → ρ → Except DirectoryError PreparedDirectory}
  {O : OriginPlatform} {A : Rounding} {known known' : Job → Prop} {v v' : DirectoryService}
  {seen events : List (Text × DirectoryRefreshResult)} {i id : ℕ} {task : RefreshTask}
  {es fs : List DiscoveryEvent} {s t : DiscoverySystem ρ}

/-! ## What is awaited -/

/-- The tasks of a service await known jobs only. -/
def AwaitsKnown (known : Job → Prop) (v : DirectoryService) : Prop :=
  ∀ e ∈ v.tasks, ∀ job, e.2.phase = .awaiting job → known job

theorem AwaitsKnown.mono (h : AwaitsKnown known v) (hknown : ∀ job, known job → known' job)
    (htasks : v'.tasks = v.tasks) : AwaitsKnown known' v' := by
  intro e he job hjob
  exact hknown job (h e (htasks ▸ he) job hjob)

/-- A step of a service awaits known jobs only, and no task of it disappears. -/
theorem AwaitsKnown.step (h : AwaitsKnown known v) (hstep : ServiceStep O known v v' events) :
    AwaitsKnown known v' ∧ v.tasks.length ≤ v'.tasks.length := by
  cases hstep with
  | retains hretains => exact ⟨h.mono (fun _ hjob => hjob) hretains.tasks, hretains.tasks ▸ le_rfl⟩
  | @registers w origin started _ hretains _ _ =>
    have htasks : (w.register origin started).1.tasks =
        v.tasks ++ [(w.tasks.length, ⟨origin, started, .queued⟩)] := congrArg (· ++ _) hretains.tasks
    refine ⟨fun e he job hjob => ?_, ?_⟩
    · rcases List.mem_append.mp (htasks ▸ he) with he | he
      · exact h e he job hjob
      · rw [List.mem_singleton.mp he] at hjob
        cases hjob
    · rw [htasks, List.length_append]
      exact Nat.le_add_right _ _
  | @moves w id task phase _ hretains htask _ _ hknown _ =>
    have hlookup : OrderedMap.lookup w.tasks id = some task := hretains.tasks ▸ htask
    rw [setPhase_of_lookup hlookup]
    refine ⟨fun e he job hjob => ?_, ?_⟩
    · rcases OrderedMap.mem_set he with he | rfl
      · exact h e (hretains.tasks ▸ he) job hjob
      · exact hknown job hjob
    · dsimp only
      rw [OrderedMap.length_set, hlookup, hretains.tasks]
      exact le_rfl
  | closes htask _ =>
    rw [close_of_lookup htask]
    refine ⟨fun e he job hjob => ?_, ?_⟩
    · rcases OrderedMap.mem_set he with he | rfl
      · exact h e he job hjob
      · cases hjob
    · dsimp only
      rw [OrderedMap.length_set, htask]
      exact le_rfl

/-- What is awaited is known: a job has a delivery, and a refresh is a task of its service. -/
structure Awaited (s : DiscoverySystem ρ) : Prop where
  awaiting : ∀ v ∈ s.services, AwaitsKnown (· ∈ s.transport.deliveries.map (·.1)) v
  resolving : ∀ r ∈ s.resolving, ∃ v, s.services[r.service]? = some v ∧
    ∀ id, r.call = .task id → id < v.tasks.length

/-- A refresh that `resolve` awaits is a task of its service. -/
theorem Refreshes.lt_length {originInput : Text} (h : Refreshes O v originInput v' (.ok (.task id)))
    (howned : OwnedBy seen v) : id < v'.tasks.length := by
  cases h with
  | refused _ hnone => exact absurd rfl (hnone id)
  | joins _ hretains hpending =>
    obtain ⟨task, htask, -, -⟩ := (howned.owned _ _).mp (OrderedMap.mem_of_lookup hpending)
    have hmem : id ∈ v.tasks.map (·.1) := List.mem_map_of_mem (f := (·.1)) htask
    rw [howned.numbered, List.mem_range] at hmem
    exact hretains.tasks ▸ hmem
  | @registers w origin started _ _ _ _ =>
    have htasks : (w.register origin started).1.tasks =
        w.tasks ++ [(w.tasks.length, ⟨origin, started, .queued⟩)] := rfl
    rw [htasks, List.length_append]
    exact Nat.lt_succ_self _

/-- The deliveries that a transport knows stay known. -/
theorem mem_deliveries_run {u : DirectoryTransport ρ} {job : Job} (h : job ∈ u.deliveries.map (·.1))
    (origin : Text) (startedAt : ℚ) (sample : Sample) :
    job ∈ (u.run O A origin startedAt sample).1.deliveries.map (·.1) := by
  unfold DirectoryTransport.run
  split
  dsimp only
  split
  · split
    · exact h
    · rw [List.map_append]
      exact List.mem_append_left _ h
  · exact h

theorem awaited_run (hO : O.Consistent) (hrun : DiscoveryRun read O A es s) : Awaited s := by
  induction hrun with
  | init hfresh =>
    obtain ⟨-, hresolving, hservices⟩ := hfresh.initial
    refine ⟨fun v hv e he => ?_, by simp [hresolving]⟩
    obtain ⟨options, rfl⟩ := hservices v hv
    simp [DirectoryService.create] at he
  | @step es fs s t hrun hstep ih =>
    obtain ⟨action, hstep⟩ := hstep
    cases systemStep_of_step hO hstep with
    | @serves service v v' events hservice hserved ht htransport hresolving _ _ =>
      have hknown : ∀ job, job ∈ s.transport.deliveries.map (·.1) → job ∈ t.transport.deliveries.map (·.1) := by
        rcases htransport with htransport | ⟨-, _, -, _, htransport⟩
        · rw [htransport]
          exact fun _ hjob => hjob
        · rw [htransport]
          exact fun _ hjob => mem_deliveries_run hjob _ _ _
      have hawaits := (ih.awaiting v (List.mem_of_getElem? hservice)).mono hknown rfl
      obtain ⟨hafter, hlength⟩ := hawaits.step hserved
      have hlt := (List.getElem?_eq_some_iff.mp hservice).1
      refine ⟨fun w hw => ?_, fun r hr => ?_⟩
      · rw [ht] at hw
        rcases List.mem_or_eq_of_mem_set hw with hw | rfl
        · exact (ih.awaiting w hw).mono hknown rfl
        · exact hafter
      · rw [ht]
        rcases hresolving r hr with hr | ⟨rfl, hrefresh⟩
        · obtain ⟨w, hw, hcall⟩ := ih.resolving r hr
          by_cases hi : service = r.service
          · subst hi
            rw [hservice] at hw
            obtain rfl := Option.some.inj hw
            exact ⟨v', List.getElem?_set_self hlt, fun id hid => (hcall id hid).trans_le hlength⟩
          · exact ⟨w, (List.getElem?_set_ne hi).trans hw, hcall⟩
        · refine ⟨v', List.getElem?_set_self hlt, fun id hid => ?_⟩
          rw [hid] at hrefresh
          exact hrefresh.lt_length (ownedBy_run hO hrun hservice)
    | @delivers job origin startedAt samples settlement _ hdelivery _ ht hfs =>
      subst ht hfs
      obtain ⟨⟨rfl, rfl, -⟩, hdelivers, -⟩ := (distributedOf_run hO hrun).deliver read hdelivery
        samples settlement
      obtain ⟨lastTime, healthy, services, hframe⟩ := distribute_frame read O A s job job.origin
        job.started samples settlement
      rw [hframe] at hdelivers ⊢
      have hknown : ∀ job', job' ∈ s.transport.deliveries.map (·.1) →
          job' ∈ (OrderedMap.set s.transport.deliveries job ⟨job.origin, job.started,
            some (s.distribute read O A job job.origin job.started samples settlement).2⟩).map (·.1) := by
        intro job' hjob'
        rw [OrderedMap.keys_set]
        split
        · exact hjob'
        · exact List.mem_append_left _ hjob'
      refine ⟨fun w hw => ?_, fun r hr => ?_⟩
      · obtain ⟨i, hi⟩ := List.mem_iff_getElem?.mp hw
        obtain ⟨v, hv, htasks, -⟩ := exists_of_forall₂ hdelivers.tasks hi
        exact (ih.awaiting v (List.mem_of_getElem? hv)).mono hknown htasks
      · obtain ⟨v, hv, hcall⟩ := ih.resolving r hr
        obtain ⟨w, hw, htasks, -⟩ := exists_of_forall₂ hdelivers.tasks.flip hv
        exact ⟨w, hw, fun id hid => htasks ▸ hcall id hid⟩
    | schedules _ _ ht _ =>
      subst ht
      exact ⟨ih.awaiting, ih.resolving⟩

/-! ## Progress -/

/-- What a task waits for: a step of its own, the delivery of a response, or a job that the scheduler still
has, and then the deadline of the job settles it. -/
inductive Waits (read : JwksFormat → ρ → Except DirectoryError PreparedDirectory) (O : OriginPlatform)
    (A : Rounding) (s : DiscoverySystem ρ) (i id : ℕ) : RefreshPhase → Prop
  | begins : (∀ samples, (discoveryStep read O A s (.begin i id samples)).isSome) → Waits read O A s i id .queued
  | rejected {reason : DirectoryAdmissionReason} :
      (∀ samples, (discoveryStep read O A s (.finish i id samples)).isSome) →
      Waits read O A s i id (.rejected reason)
  | finishes {job : Job} : (∀ samples, (discoveryStep read O A s (.finish i id samples)).isSome) →
      Waits read O A s i id (.awaiting job)
  | delivered {job : Job} : (∀ samples, (discoveryStep read O A s (.deliver job samples)).isSome) →
      Waits read O A s i id (.awaiting job)
  | scheduled {job : Job} : (s.transport.scheduler.scheduler.state job).settled = false →
      OrderedMap.lookup s.transport.scheduler.scheduler.jobs job.origin = some job →
      (∃ t, discoveryStep read O A s (.expire job) = some (t, []) ∧
        (t.transport.scheduler.scheduler.state job).settled) →
      Waits read O A s i id (.awaiting job)
  | closes {result : Except DirectoryError DirectoryRefreshResult} :
      (discoveryStep read O A s (.close i id)).isSome → Waits read O A s i id (.returned result)

/-- The timer of a job that is not settled settles it. -/
theorem expire_settles {α : Type} {u : SchedulerSystem α} {job : Job} (hloops : u.loops = none)
    (hpending : (u.scheduler.state job).settled = false) (harmed : (u.scheduler.state job).timer.isSome) :
    ∃ u', schedulerStep O A u (.expire job) = some (u', []) ∧ (u'.scheduler.state job).settled := by
  obtain ⟨scheduler, loops⟩ := u
  obtain rfl : loops = none := hloops
  refine ⟨(scheduler.fail job .deadline).pump 0, if_pos harmed, ?_⟩
  have hfail : ((scheduler.fail job .deadline).state job).settled := by
    have hne : ¬ (scheduler.state job).settled = true := by
      rw [hpending]
      exact Bool.false_ne_true
    unfold DirectoryFetchScheduler.fail
    rw [if_neg hne]
    split <;> simp [DirectoryFetchScheduler.update, JobState.settled]
  exact hfail

/-- What a task waits for, by its phase. -/
theorem waits_of_open (h : DistributedOf O A es s) (hawaited : Awaited s)
    (hloops : s.transport.scheduler.loops = none) (hv : s.services[i]? = some v)
    (htask : OrderedMap.lookup v.tasks id = some task) (hopen : task.phase.isOpen) :
    Waits read O A s i id task.phase := by
  obtain ⟨origin, started, phase⟩ := task
  have hstep (action : DiscoveryAction ρ) (hserved : action.scheduler? = none) :
      discoveryStep read O A s action = serviceStep read O A s action := by
    unfold discoveryStep
    rw [hserved]
    exact if_pos hloops
  have hmem := OrderedMap.mem_of_lookup htask
  cases phase with
  | queued =>
    refine .begins fun samples => ?_
    rw [hstep _ rfl]
    simp [serviceStep, hv, htask]
  | rejected reason =>
    refine .rejected fun samples => ?_
    rw [hstep _ rfl]
    simp [serviceStep, hv, htask, DiscoverySystem.finishTask]
  | returned result =>
    refine .closes ?_
    rw [hstep _ rfl]
    simp [serviceStep, hv, htask]
  | closed result => cases hopen
  | awaiting job =>
    have hknown := hawaited.awaiting v (List.mem_of_getElem? hv) _ hmem job rfl
    obtain ⟨d, hdelivery⟩ := Option.isSome_iff_exists.mp (OrderedMap.lookup_isSome.mpr hknown)
    obtain ⟨deliveryOrigin, startedAt, outcome⟩ := d
    cases outcome with
    | some outcome =>
      refine .finishes fun samples => ?_
      rw [hstep _ rfl]
      simp [serviceStep, hv, htask, DiscoverySystem.finishTask, hdelivery]
    | none =>
      obtain ⟨gs, hrun, hpromised⟩ := h.scheduler
      have hlive := (promised_run hrun).1.live job ((hpromised job).mpr hknown)
      have hkeys := (admitted_run hrun).sound.owned.keys
      cases hsettled : (s.transport.scheduler.scheduler.state job).settlements with
      | cons settlement rest =>
        refine .delivered fun samples => ?_
        rw [hstep _ rfl]
        simp [serviceStep, DiscoverySystem.deliver, hdelivery, hsettled]
      | nil =>
        have hpending : (s.transport.scheduler.scheduler.state job).settled = false := by
          rw [JobState.settled, hsettled]
          rfl
        obtain ⟨howns, harmed⟩ := hlive.resolve_left (by simp [hpending])
        obtain ⟨u, hexpire, hafter⟩ := expire_settles (O := O) (A := A) hloops hpending harmed
        refine .scheduled hpending (OrderedMap.lookup_of_mem hkeys howns) 
          ⟨{ s with transport := { s.transport with scheduler := u } }, ?_, hafter⟩
        simp [discoveryStep, DiscoveryAction.scheduler?, hexpire]

/-- **No refresh and no resolution is lost.** Between two events of any run, every open task can take its next
step, can be delivered its response, or awaits a job that owns its origin in the scheduler and is settled by its
deadline at the latest. Every call of `resolve` that awaits a refresh can go on, or awaits an open task. -/
theorem refresh_progress (hO : O.Consistent) (hrun : DiscoveryRun read O A es s)
    (hloops : s.transport.scheduler.loops = none) :
    (∀ i v id task, s.services[i]? = some v → (id, task) ∈ openTasks v → Waits read O A s i id task.phase) ∧
    ∀ index r, s.resolving[index]? = some r → ∃ v, s.services[r.service]? = some v ∧
      ((∀ sample, (discoveryStep read O A s (.resolveRefreshed index sample)).isSome) ∨
        ∃ id task, r.call = .task id ∧ (id, task) ∈ openTasks v) := by
  have hawaited := awaited_run hO hrun
  constructor
  · intro i v id task hv htask
    obtain ⟨htask, hopen⟩ := List.mem_filter.mp htask
    have hlookup := OrderedMap.lookup_of_mem (ownedBy_run hO hrun hv).nodup htask
    exact waits_of_open (distributedOf_run hO hrun) hawaited hloops hv hlookup hopen
  · intro index r hr
    obtain ⟨v, hv, hcall⟩ := hawaited.resolving r (List.mem_of_getElem? hr)
    refine ⟨v, hv, ?_⟩
    have hstep (sample : Sample) (result : Except DirectoryError DirectoryRefreshResult)
        (hresult : DiscoverySystem.awaitedRefresh v r.call = some result) :
        (discoveryStep read O A s (.resolveRefreshed index sample)).isSome := by
      unfold discoveryStep DiscoveryAction.scheduler?
      simp [serviceStep, hloops, hr, hv, DiscoverySystem.resolveTask, hresult]
    cases hrefresh : r.call with
    | settled result =>
      rw [hrefresh] at hstep
      exact .inl fun sample => hstep sample _ rfl
    | task id =>
      have howned := ownedBy_run hO hrun hv
      have hid : id ∈ v.tasks.map (·.1) := by
        rw [howned.numbered, List.mem_range]
        exact hcall id hrefresh
      obtain ⟨⟨origin, started, phase⟩, htask⟩ :=
        Option.isSome_iff_exists.mp (OrderedMap.lookup_isSome.mpr hid)
      by_cases hopen : phase.isOpen
      · exact .inr ⟨id, _, rfl, List.mem_filter.mpr ⟨OrderedMap.mem_of_lookup htask, hopen⟩⟩
      · cases phase with
        | closed result =>
          rw [hrefresh] at hstep
          refine .inl fun sample => hstep sample result ?_
          simp [DiscoverySystem.awaitedRefresh, htask]
        | queued => exact absurd rfl hopen
        | rejected reason => exact absurd rfl hopen
        | awaiting job => exact absurd rfl hopen
        | returned result => exact absurd rfl hopen

/-- The refresh, while its fetch is awaited. -/
def awaitedActions : List (DiscoveryAction Unit) :=
  [.refresh 0 (ascii "https://a.example") fun _ => some 0, .begin 0 0 fun _ => some 0,
    .round (some 0) (some 0), .round (some 0) none]

theorem refresh_progress_awaitedActions : ∃ es s v task,
    DiscoveryRun documentRead spelledOrigins .exact es s ∧ s.services[0]? = some v ∧
    (0, task) ∈ openTasks v ∧ task.phase = .awaiting sharedJob ∧
    Waits documentRead spelledOrigins .exact s 0 0 task.phase := by
  have hrun : (runAll (discoveryStep documentRead spelledOrigins .exact) awaitedActions bothFormats []).any
      fun r => r.1.transport.scheduler.loops = none && r.1.services[0]?.any fun v =>
        openTasks v = [(0, ⟨ascii "https://a.example", 0, .awaiting sharedJob⟩)] := by
    decide +kernel
  obtain ⟨⟨s, es⟩, hsome, hidle⟩ := (Option.any_eq_true _ _).mp hrun
  obtain ⟨hidle, hservice⟩ := Bool.and_eq_true_iff.mp hidle
  obtain ⟨v, hv, htasks⟩ := (Option.any_eq_true _ _).mp hservice
  have htask : (0, ⟨ascii "https://a.example", 0, .awaiting sharedJob⟩) ∈ openTasks v := by
    rw [of_decide_eq_true htasks]
    exact List.mem_singleton_self _
  have hfresh : bothFormats.Fresh := ⟨[openService .jwks, openService .wgDirectory00], rfl⟩
  have hreached := Run.runAll (.init hfresh) hsome
  exact ⟨es, s, v, _, hreached, hv, htask, rfl,
    (refresh_progress spelledOrigins_consistent hreached (of_decide_eq_true hidle)).1 0 v 0 _ hv htask⟩

end AgentSig.Discovery
