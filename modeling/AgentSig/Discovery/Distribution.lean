import AgentSig.Discovery.Removal
import AgentSig.Discovery.Settlement
import AgentSig.Discovery.SystemSteps

/-!
# Distribution of responses

A response of the shared transport reaches all services or none. The services prepare it first, which changes
no evidence; where one of them throws, or the deadline of the fetch has passed by then, nothing is committed.
No commit can fail, so all of them run, in one step and once for each response, however many callers wait for it.

## Main definitions

* `InTimeFor`: both checks of the deadline have passed
* `Delivers`: what a delivery does
* `DistributedOf`: what the history says about the services

## Main results

* `prepareAll_spec`, `commitAll_spec`: the two loops over the services
* `distribute_spec`, `distributedOf_run`: a delivery, and what holds in every run
* `distribution_atomic`: **a response is distributed to all services at once, or to none**
-/

namespace AgentSig.Discovery

open Commons Profiles StructuredFields

variable {ρ : Type} {read : JwksFormat → ρ → Except DirectoryError PreparedDirectory}
  {O : OriginPlatform} {A : Rounding} {job : Job} {response : ρ} {services services' : List DirectoryService}
  {samples : ℕ → Sample} {es fs : List DiscoveryEvent} {s s' t : DiscoverySystem ρ} {origin : Text}

/-! ## The loops over the services -/

theorem prepareAll_retains (read : JwksFormat → ρ → Except DirectoryError PreparedDirectory) (response : ρ)
    (services : List DirectoryService) :
    List.Forall₂ Retains services (DiscoverySystem.prepareAll read response services).1 := by
  induction services with
  | nil => exact .nil
  | cons v rest ih =>
    have hv := retains_prepareResponse read v response
    have hrest : List.Forall₂ Retains rest rest := List.forall₂_same.mpr fun v _ => .refl v
    unfold DiscoverySystem.prepareAll
    split
    · rename_i hprepare
      rw [hprepare] at hv
      exact .cons hv hrest
    · rename_i hprepare
      rw [hprepare] at hv
      split
      all_goals
        rename_i hall
        rw [hall] at ih
        exact .cons hv ih

/-- Where nothing is thrown, every service has prepared the response. -/
theorem prepareAll_spec {commits : List PreparedCommit}
    (h : DiscoverySystem.prepareAll read response services = (services', .ok commits)) :
    ∃ prepared, List.Forall₂ (Prepares read response) services prepared ∧
      services' = prepared.map (·.1) ∧ commits = prepared.map (·.2) := by
  induction services generalizing services' commits with
  | nil =>
    obtain ⟨rfl, hcommits⟩ := Prod.mk.inj h
    obtain rfl := Except.ok.inj hcommits
    exact ⟨[], .nil, rfl, rfl⟩
  | cons v rest ih =>
    unfold DiscoverySystem.prepareAll at h
    split at h
    · cases (Prod.mk.inj h).2
    · rename_i v' commit hprepare
      split at h
      · cases (Prod.mk.inj h).2
      · rename_i rest' commits' hall
        obtain ⟨rfl, hcommits⟩ := Prod.mk.inj h
        obtain rfl := Except.ok.inj hcommits
        obtain ⟨prepared, hprepared, rfl, rfl⟩ := ih hall
        exact ⟨(v', commit) :: prepared, .cons hprepare hprepared, rfl, rfl⟩

/-- What was prepared is committed by every service. -/
theorem commitAll_spec {prepared : List (DirectoryService × PreparedCommit)}
    (h : List.Forall₂ (Prepares read response) services prepared) (hcanonical : Canonical O job.origin)
    (hfresh : ∀ v ∈ services, job ∉ v.applied.map (·.1)) (samples : ℕ → Sample) :
    ∃ services', DiscoverySystem.commitAll O A job job.origin samples (prepared.map (·.1))
        (prepared.map (·.2)) = (services', .ok ()) ∧
      List.Forall₂ (Applies read O A job response) services services' := by
  induction h generalizing samples with
  | nil => exact ⟨[], rfl, .nil⟩
  | @cons v p rest prepared hv _ ih =>
    obtain ⟨hfreshV, hfreshRest⟩ := List.forall_mem_cons.mp hfresh
    obtain ⟨v', hcommit, happlies⟩ := commitResponse_spec hv hcanonical hfreshV (samples 0)
    obtain ⟨rest', hcommits, happliesRest⟩ := ih hfreshRest fun n => samples (n + 1)
    refine ⟨v' :: rest', ?_, .cons happlies happliesRest⟩
    rw [List.map_cons, List.map_cons, DiscoverySystem.commitAll, hcommit]
    dsimp only
    rw [hcommits]

/-! ## Deadlines -/

/-- A check of the deadline passes: the clock is healthy and shows a time, which is not before the last one,
and less than three seconds after the start. -/
structure InTimeAt (u : DirectoryTransport ρ) (startedAt : ℚ) (sample : Sample) (now : ℚ) : Prop where
  sampled : sample = some now
  healthy : u.healthy
  lastTime : u.lastTime ≤ now
  started : startedAt ≤ now
  early : now - startedAt < 3000

theorem checkDeadline_spec {u u' : DirectoryTransport ρ} {startedAt : ℚ} {sample : Sample}
    (h : u.checkDeadline A startedAt sample = (u', .ok ())) :
    ∃ now, InTimeAt u startedAt sample now ∧ u' = { u with lastTime := now } := by
  unfold DirectoryTransport.checkDeadline at h
  split at h
  · cases (Prod.mk.inj h).2
  · rename_i now hnow
    obtain ⟨hsample, hclock⟩ := Option.filter_eq_some_iff.mp hnow
    obtain ⟨rfl, hearly⟩ := Prod.mk.inj h
    split at hearly
    · cases hearly
    · rename_i hlate
      rw [not_or, not_lt] at hlate
      simp only [decide_eq_true_eq] at hclock
      exact ⟨now, ⟨hsample, hclock.1, hclock.2.1, hlate.1, lt_of_round_lt A hlate.2⟩, rfl⟩

/-- A check of the deadline changes the clock only. -/
theorem checkDeadline_frame (u : DirectoryTransport ρ) (startedAt : ℚ) (sample : Sample) :
    ∃ lastTime healthy, (u.checkDeadline A startedAt sample).1 = { u with lastTime, healthy } := by
  unfold DirectoryTransport.checkDeadline
  split <;> exact ⟨_, _, rfl⟩

/-- Both checks of the deadline pass. -/
def InTimeFor (u : DirectoryTransport ρ) (startedAt : ℚ) (first second : Sample) : Prop :=
  ∃ now later, InTimeAt u startedAt first now ∧ InTimeAt { u with lastTime := now } startedAt second later

/-! ## Deliveries -/

/-- What a delivery does: it distributes the response of its job, or it leaves all services as they are. -/
inductive Delivers (read : JwksFormat → ρ → Except DirectoryError PreparedDirectory) (O : OriginPlatform)
    (A : Rounding) (s : DiscoverySystem ρ) (job : Job) (startedAt : ℚ) (samples : ℕ → Sample)
    (settlement : Except DirectoryAdmissionReason (DirectoryTransportResult ρ))
    (services : List DirectoryService) : Except DeliveryError (DirectoryTransportResult ρ) → Prop
  | distributes {response : ρ} : settlement = .ok (.response response) →
      InTimeFor s.transport startedAt (samples 0) (samples 1) →
      List.Forall₂ (Applies read O A job response) s.services services →
      Delivers read O A s job startedAt samples settlement services (.ok (.response response))
  | leaves {outcome : Except DeliveryError (DirectoryTransportResult ρ)} :
      (∀ response, outcome ≠ .ok (.response response)) →
      List.Forall₂ Retains s.services services →
      Delivers read O A s job startedAt samples settlement services outcome

theorem retains_all (services : List DirectoryService) :
    List.Forall₂ Retains services services := List.forall₂_same.mpr fun v _ => .refl v

/-- A delivery changes the clock of the transport and the services only. -/
theorem distribute_frame (read : JwksFormat → ρ → Except DirectoryError PreparedDirectory)
    (O : OriginPlatform) (A : Rounding) (s : DiscoverySystem ρ) (job : Job) (origin : Text) (startedAt : ℚ)
    (samples : ℕ → Sample) (settlement : Except DirectoryAdmissionReason (DirectoryTransportResult ρ)) :
    ∃ lastTime healthy services, (s.distribute read O A job origin startedAt samples settlement).1 =
      { s with transport := { s.transport with lastTime, healthy }, services } := by
  cases settlement with
  | error reason => exact ⟨_, _, _, rfl⟩
  | ok result =>
    obtain ⟨lastTime, healthy, hfirst⟩ := checkDeadline_frame (A := A) s.transport startedAt (samples 0)
    unfold DiscoverySystem.distribute
    dsimp only
    split
    all_goals
      rename_i hcheck
      rw [hcheck] at hfirst
      dsimp only at hfirst
      subst hfirst
    · exact ⟨_, _, _, rfl⟩
    split
    · exact ⟨_, _, _, rfl⟩
    split
    · exact ⟨_, _, _, rfl⟩
    obtain ⟨later, stillHealthy, hsecond⟩ := checkDeadline_frame (A := A)
      { s.transport with lastTime, healthy } startedAt (samples 1)
    split
    all_goals
      rename_i hcheck
      rw [hcheck] at hsecond
      dsimp only at hsecond
      subst hsecond
    · exact ⟨_, _, _, rfl⟩
    split <;> exact ⟨_, _, _, rfl⟩

/-- **A delivery distributes its response to all services, or leaves them as they are.** -/
theorem distribute_spec (read : JwksFormat → ρ → Except DirectoryError PreparedDirectory) (A : Rounding)
    (hcanonical : Canonical O job.origin)
    (hfresh : ∀ v ∈ s.services, job ∉ v.applied.map (·.1)) (startedAt : ℚ) (samples : ℕ → Sample)
    (settlement : Except DirectoryAdmissionReason (DirectoryTransportResult ρ)) :
    Delivers read O A s job startedAt samples settlement
      (s.distribute read O A job job.origin startedAt samples settlement).1.services
      (s.distribute read O A job job.origin startedAt samples settlement).2 := by
  cases settlement with
  | error reason => exact .leaves (by rintro _ ⟨⟩) (retains_all _)
  | ok result =>
    unfold DiscoverySystem.distribute
    dsimp only
    split
    · exact .leaves (by rintro _ ⟨⟩) (retains_all _)
    rename_i u hfirst
    cases result with
    | failed reason => exact .leaves (by rintro _ ⟨⟩) (retains_all _)
    | response response =>
      have hprepare := prepareAll_retains read response s.services
      dsimp only
      split
      · rename_i hall
        rw [hall] at hprepare
        exact .leaves (by rintro _ ⟨⟩) hprepare
      rename_i services commits hall
      rw [hall] at hprepare
      split
      · exact .leaves (by rintro _ ⟨⟩) hprepare
      rename_i u' hsecond
      -- From here on nothing fails: all services have prepared the response.
      obtain ⟨prepared, hprepared, rfl, rfl⟩ := prepareAll_spec hall
      obtain ⟨services', hcommit, happlies⟩ := commitAll_spec (A := A) hprepared hcanonical hfresh
        fun n => samples (n + 2)
      obtain ⟨now, hnow, rfl⟩ := checkDeadline_spec hfirst
      obtain ⟨later, hlater, rfl⟩ := checkDeadline_spec hsecond
      rw [hcommit]
      exact .distributes rfl ⟨now, later, hnow, hlater⟩ happlies

/-- A delivery leaves the tasks of all services as they are. -/
theorem Delivers.tasks {startedAt : ℚ} {settlement : Except DirectoryAdmissionReason (DirectoryTransportResult ρ)}
    {outcome : Except DeliveryError (DirectoryTransportResult ρ)}
    (h : Delivers read O A s job startedAt samples settlement services outcome) :
    List.Forall₂ (fun v v' => v'.tasks = v.tasks ∧ v'.pending = v.pending) s.services services := by
  cases h with
  | distributes _ _ happlies => exact happlies.imp fun _ _ hv => ⟨hv.tasks, hv.pending⟩
  | leaves _ hretains => exact hretains.imp fun _ _ hv => ⟨hv.tasks, hv.pending⟩

/-! ## The history -/

/-- What the history says about the services of a system. -/
structure DistributedOf (O : OriginPlatform) (A : Rounding) (es : List DiscoveryEvent)
    (s : DiscoverySystem ρ) : Prop where
  /-- All services have applied the same responses. -/
  applied : ∀ v ∈ s.services, v.applied.map (·.1) = distributions es
  once : (distributions es).Nodup
  keys : (s.transport.deliveries.map (·.1)).Nodup
  delivered : ∀ job, job ∈ distributions es ↔ ∃ d response, (job, d) ∈ s.transport.deliveries ∧
    d.outcome = some (.ok (.response response))
  origins : ∀ e ∈ s.transport.deliveries,
    Canonical O e.1.origin ∧ e.2.origin = e.1.origin ∧ e.2.startedAt = e.1.started
  tasks : ∀ v ∈ s.services, ∀ e ∈ v.tasks, Canonical O e.2.origin
  scheduler : ∃ fs, SchedulerRun O A fs s.transport.scheduler ∧
    ∀ job, .answered (.promise job) ∈ fs ↔ job ∈ s.transport.deliveries.map (·.1)

theorem distributedOf_fresh (h : s.Fresh) : DistributedOf O A [] s := by
  obtain ⟨htransport, -, hservices⟩ := h.initial
  constructor
  case applied =>
    intro v hv
    obtain ⟨options, rfl⟩ := hservices v hv
    rfl
  case once => exact List.nodup_nil
  case keys =>
    rw [htransport]
    exact List.nodup_nil
  case delivered =>
    intro job
    rw [htransport]
    simp [distributions, DirectoryTransport.create]
  case origins =>
    rw [htransport]
    simp [DirectoryTransport.create]
  case tasks =>
    intro v hv
    obtain ⟨options, rfl⟩ := hservices v hv
    simp [DirectoryService.create]
  case scheduler =>
    rw [htransport]
    exact ⟨[], .init rfl, by simp [DirectoryTransport.create]⟩

/-- One service continues, and the others are as they were. -/
theorem continues_set {service : ℕ} {v v' : DirectoryService} (h : services[service]? = some v)
    (hv : Continues O v v') : List.Forall₂ (Continues O) services (services.set service v') := by
  induction services generalizing service with
  | nil => exact .nil
  | cons w rest ih =>
    cases service with
    | zero =>
      obtain rfl := Option.some.inj h
      exact .cons hv (List.forall₂_same.mpr fun w _ => .refl w)
    | succ n => exact .cons (.refl w) (ih h)

/-! ## Calls of the transport -/

/-- The job that a call returns is known already, or it has the origin and the start of the call. -/
theorem run_job {α : Type} {gs : List SchedulerEvent} {u : DirectoryFetchScheduler α} (hsound : Sound A gs u)
    (hcanonical : Canonical O origin) {startedAt : ℚ} {sample : Sample}
    (h : (u.run O A origin (some (some startedAt)) sample).2.1 = .promise job) :
    (job.origin, job) ∈ u.jobs ∨ job.origin = origin ∧ job.started = startedAt := by
  rcases run_cases O hsound origin (some (some startedAt)) sample with ⟨hjoins, -⟩ | ⟨_, _, -, -, hcreated⟩
  · exact .inl (hjoins.joined job h)
  · right
    -- only a call that creates a job goes on with `#pump`
    have hcall : (u.run O A origin (some (some startedAt)) sample).2 = (.promise job, true) := by
      rw [hcreated] at h ⊢
      exact congrArg (fun result => (result, true)) h
    unfold DirectoryFetchScheduler.run at hcall
    rw [hcanonical.configured] at hcall
    dsimp only [Option.getD_some] at hcall
    split at hcall
    · cases hcall
    split at hcall
    · cases hcall
    split at hcall
    · cases hcall
    split at hcall
    · split at hcall <;> cases (Prod.mk.inj hcall).2
    · unfold DirectoryFetchScheduler.enqueue at hcall
      split at hcall
      · cases hcall
      split at hcall
      · cases hcall
      · obtain rfl := RunResult.promise.inj (Prod.mk.inj hcall).1
        exact ⟨rfl, rfl⟩

/-- A call of the transport is a call of the scheduler, and a promise gets one delivery. -/
theorem transport_run_spec (u : DirectoryTransport ρ) (hloops : u.scheduler.loops = none) (origin : Text)
    (startedAt : ℚ) (sample : Sample) :
    ∃ result, schedulerStep O A u.scheduler (.run origin (some (some startedAt)) sample) =
        some ((u.run O A origin startedAt sample).1.scheduler, [.answered result]) ∧
      result = (u.scheduler.scheduler.run O A origin (some (some startedAt)) sample).2.1 ∧
      ((u.run O A origin startedAt sample).1.deliveries = u.deliveries ∧
          (∀ job, result = .promise job → job ∈ u.deliveries.map (·.1)) ∨
        ∃ job, result = .promise job ∧ job ∉ u.deliveries.map (·.1) ∧
          (u.run O A origin startedAt sample).1.deliveries =
            u.deliveries ++ [(job, ⟨origin, startedAt, none⟩)]) := by
  obtain ⟨⟨scheduler, loops⟩, deliveries, started, lastTime, healthy⟩ := u
  obtain rfl : loops = none := hloops
  unfold DirectoryTransport.run schedulerStep
  dsimp only
  generalize scheduler.run O A origin (some (some startedAt)) sample = called
  obtain ⟨next, result, pumps⟩ := called
  refine ⟨result, ?_, rfl, ?_⟩
  · cases pumps <;> rfl
  · cases result with
    | threw e => exact .inl ⟨rfl, by rintro _ ⟨⟩⟩
    | rejected reason => exact .inl ⟨rfl, by rintro _ ⟨⟩⟩
    | promise job =>
      dsimp only
      by_cases hknown : (OrderedMap.lookup deliveries job).isSome
      · rw [if_pos hknown]
        refine .inl ⟨rfl, ?_⟩
        rintro _ ⟨⟩
        exact OrderedMap.lookup_isSome.mp hknown
      · rw [if_neg hknown]
        exact .inr ⟨job, rfl, fun hmem => hknown (OrderedMap.lookup_isSome.mpr hmem), rfl⟩

/-! ## Runs -/

theorem forall_mem_of_forall₂ {R : DirectoryService → DirectoryService → Prop}
    {p q : DirectoryService → Prop} (h : List.Forall₂ R services services')
    (hstep : ∀ v v', R v v' → p v → q v') (hservices : ∀ v ∈ services, p v) : ∀ v ∈ services', q v := by
  induction h with
  | nil => simp
  | cons hv _ ih =>
    obtain ⟨hp, hrest⟩ := List.forall_mem_cons.mp hservices
    exact List.forall_mem_cons.mpr ⟨hstep _ _ hv hp, ih hrest⟩

/-- Services that continue, while the transport is as it was. -/
theorem DistributedOf.continues (h : DistributedOf O A es s)
    (hservices : List.Forall₂ (Continues O) s.services t.services) (htransport : t.transport = s.transport)
    (hfs : distributions fs = []) : DistributedOf O A (es ++ fs) t := by
  have hdistributions : distributions (es ++ fs) = distributions es := by
    rw [distributions_append, hfs, List.append_nil]
  refine ⟨?_, hdistributions ▸ h.once, htransport ▸ h.keys, ?_, htransport ▸ h.origins, ?_,
    htransport ▸ h.scheduler⟩
  · rw [hdistributions]
    exact forall_mem_of_forall₂ hservices (fun v v' hv happlied => hv.applied ▸ happlied) h.applied
  · rw [hdistributions, htransport]
    exact h.delivered
  · exact forall_mem_of_forall₂ hservices (fun v v' hv htasks => hv.tasks htasks) h.tasks

/-- A call of the transport gets a delivery of its promise. -/
theorem DistributedOf.run (h : DistributedOf O A es s) (hcanonical : Canonical O origin)
    (hloops : s.transport.scheduler.loops = none) (startedAt : ℚ) (sample : Sample) :
    DistributedOf O A es { s with transport := (s.transport.run O A origin startedAt sample).1 } := by
  obtain ⟨gs, hrun, hpromised⟩ := h.scheduler
  obtain ⟨result, hstep, hresult, hdeliveries⟩ := transport_run_spec (O := O) (A := A) s.transport hloops
    origin startedAt sample
  have hscheduler := hrun.step ⟨_, hstep⟩
  rcases hdeliveries with ⟨hsame, hknown⟩ | ⟨job, rfl, hfresh, hnew⟩
  · refine ⟨h.applied, h.once, hsame ▸ h.keys, ?_, hsame ▸ h.origins, h.tasks, _, hscheduler, ?_⟩
    · rw [hsame]
      exact h.delivered
    · intro job
      rw [hsame, List.mem_append, hpromised, or_iff_left_of_imp]
      intro hjob
      exact hknown job (SchedulerEvent.answered.inj (List.mem_singleton.mp hjob)).symm
  · have hkeys : (s.transport.run O A origin startedAt sample).1.deliveries.map (·.1) =
        s.transport.deliveries.map (·.1) ++ [job] := by
      rw [hnew, List.map_append]
      rfl
    have hnone : ¬ (job.origin, job) ∈ s.transport.scheduler.scheduler.jobs := by
      intro hjob
      exact hfresh ((hpromised job).mp ((promised_run hrun).1.registered job hjob))
    obtain ⟨rfl, rfl⟩ := (run_job (admitted_run hrun).sound hcanonical hresult.symm).resolve_left hnone
    refine ⟨h.applied, h.once, ?_, ?_, ?_, h.tasks, _, hscheduler, ?_⟩
    · rw [hkeys, ← List.concat_eq_append]
      exact h.keys.concat hfresh
    · intro job'
      rw [h.delivered, hnew]
      constructor
      · rintro ⟨d, response, hd, houtcome⟩
        exact ⟨d, response, List.mem_append_left _ hd, houtcome⟩
      · rintro ⟨d, response, hd, houtcome⟩
        rcases List.mem_append.mp hd with hd | hd
        · exact ⟨d, response, hd, houtcome⟩
        · obtain ⟨rfl, rfl⟩ := Prod.mk.inj (List.mem_singleton.mp hd)
          cases houtcome
    · rw [hnew]
      intro e he
      rcases List.mem_append.mp he with he | he
      · exact h.origins e he
      · rw [List.mem_singleton.mp he]
        exact ⟨hcanonical, rfl, rfl⟩
    · intro job'
      rw [hkeys, List.mem_append, List.mem_append, hpromised, List.mem_singleton, List.mem_singleton,
        SchedulerEvent.answered.injEq, RunResult.promise.injEq]

/-- Only a call of the scheduler is answered. -/
theorem not_answered_of_step {α : Type} {u u' : SchedulerSystem α} {action : SchedulerAction α}
    {gs : List SchedulerEvent}
    (hne : ∀ originInput startedAt sample, action ≠ .run originInput startedAt sample)
    (h : schedulerStep O A u action = some (u', gs)) (result : RunResult) : .answered result ∉ gs := by
  unfold schedulerStep at h
  split at h
  · exact absurd rfl (hne _ _ _)
  · split at h
    · obtain ⟨-, rfl⟩ := Prod.mk.inj (Option.some.inj h)
      simp
    · cases h
  · split at h
    · obtain ⟨-, rfl⟩ := Prod.mk.inj (Option.some.inj h)
      simp
    · cases h
  · split at h
    · obtain ⟨-, rfl⟩ := Prod.mk.inj (Option.some.inj h)
      simp
    · cases h
  · split at h
    · obtain ⟨-, rfl⟩ := Prod.mk.inj (Option.some.inj h)
      simp
    · cases h
  · rename_i loops sample second worker hloops
    have hsilent := round_silent (A := A) u.scheduler sample second worker result
    unfold roundStep at h
    split at h
    all_goals
      rename_i hround
      rw [hround] at hsilent
      obtain ⟨-, rfl⟩ := Prod.mk.inj (Option.some.inj h)
      exact hsilent
  · cases h

/-- The scheduler goes on by itself. -/
theorem DistributedOf.schedule (h : DistributedOf O A es s)
    {action : SchedulerAction (DirectoryTransportResult ρ)}
    {scheduler : SchedulerSystem (DirectoryTransportResult ρ)} {gs : List SchedulerEvent}
    (hne : ∀ originInput startedAt sample, action ≠ .run originInput startedAt sample)
    (hstep : schedulerStep O A s.transport.scheduler action = some (scheduler, gs)) :
    DistributedOf O A es { s with transport := { s.transport with scheduler } } := by
  obtain ⟨gs', hrun, hpromised⟩ := h.scheduler
  refine ⟨h.applied, h.once, h.keys, h.delivered, h.origins, h.tasks, _, hrun.step ⟨action, hstep⟩, ?_⟩
  intro job
  rw [List.mem_append, hpromised, or_iff_left (not_answered_of_step hne hstep _)]

/-- A delivery ends, and is recorded if it has distributed a response. -/
theorem DistributedOf.deliver (h : DistributedOf O A es s)
    (read : JwksFormat → ρ → Except DirectoryError PreparedDirectory) {startedAt : ℚ}
    (hdelivery : OrderedMap.lookup s.transport.deliveries job = some ⟨origin, startedAt, none⟩)
    (samples : ℕ → Sample)
    (settlement : Except DirectoryAdmissionReason (DirectoryTransportResult ρ)) :
    (origin = job.origin ∧ startedAt = job.started ∧ job ∉ distributions es) ∧
    Delivers read O A s job startedAt samples settlement
      (s.distribute read O A job origin startedAt samples settlement).1.services
      (s.distribute read O A job origin startedAt samples settlement).2 ∧
    DistributedOf O A
      (es ++ DiscoverySystem.deliveryEvents job
        (s.distribute read O A job origin startedAt samples settlement).2)
      ((s.distribute read O A job origin startedAt samples settlement).1.setOutcome job
        ⟨origin, startedAt, none⟩ (s.distribute read O A job origin startedAt samples settlement).2) := by
  have hmem := OrderedMap.mem_of_lookup hdelivery
  obtain ⟨hcanonical, horigin, hstarted⟩ := h.origins _ hmem
  dsimp only at hcanonical horigin hstarted
  subst horigin hstarted
  -- the delivery has not ended, so its response has not been distributed
  have hnew : job ∉ distributions es := by
    intro hjob
    obtain ⟨d, response, hd, houtcome⟩ := (h.delivered job).mp hjob
    have hlookup := OrderedMap.lookup_of_mem h.keys hd
    rw [hdelivery] at hlookup
    obtain rfl := Option.some.inj hlookup
    cases houtcome
  have hfresh : ∀ v ∈ s.services, job ∉ v.applied.map (·.1) := fun v hv => h.applied v hv ▸ hnew
  have hdelivers := distribute_spec read A hcanonical hfresh job.started samples settlement
  obtain ⟨lastTime, healthy, services, hframe⟩ := distribute_frame read O A s job job.origin job.started
    samples settlement
  refine ⟨⟨rfl, rfl, hnew⟩, hdelivers, ?_⟩
  generalize s.distribute read O A job job.origin job.started samples settlement = distributed at *
  obtain ⟨t, outcome⟩ := distributed
  dsimp only at hframe hdelivers
  subst hframe
  -- what is recorded of the delivery, whatever its outcome
  have hrecorded : (DiscoverySystem.setOutcome
        { s with transport := { s.transport with lastTime, healthy }, services } job
        ⟨job.origin, job.started, none⟩ outcome).transport.deliveries =
      OrderedMap.set s.transport.deliveries job ⟨job.origin, job.started, some outcome⟩ := rfl
  have hkeys : (OrderedMap.set s.transport.deliveries job
      ⟨job.origin, job.started, some outcome⟩).map (·.1) = s.transport.deliveries.map (·.1) := by
    rw [OrderedMap.keys_set, if_pos (List.mem_map_of_mem (f := (·.1)) hmem)]
  constructor
  case applied =>
    rw [distributions_append]
    cases hdelivers with
    | distributes _ _ happlies =>
      exact forall_mem_of_forall₂ happlies
        (fun v v' hv happlied => hv.applied.trans (congrArg (· ++ [job]) happlied)) h.applied
    | leaves hnone hretains =>
      have hsame : distributions (DiscoverySystem.deliveryEvents job outcome) = [] := by
        cases outcome with
        | error e => rfl
        | ok result =>
          cases result with
          | failed reason => rfl
          | response response => exact absurd rfl (hnone response)
      rw [hsame, List.append_nil]
      exact forall_mem_of_forall₂ hretains (fun v v' hv happlied => hv.applied ▸ happlied) h.applied
  case once =>
    rw [distributions_append]
    refine h.once.append ?_ ?_
    · rcases outcome with e | _ | _ <;> simp [distributions, DiscoverySystem.deliveryEvents]
    · intro job' hjob' hjob
      rcases outcome with e | response | reason
      · cases hjob
      · obtain rfl := List.mem_singleton.mp hjob
        exact hnew hjob'
      · cases hjob
  case keys =>
    rw [hrecorded, hkeys]
    exact h.keys
  case delivered =>
    intro job'
    rw [hrecorded, distributions_append, List.mem_append, h.delivered job']
    constructor
    · rintro (⟨d, response, hd, houtcome⟩ | hjob)
      · refine ⟨d, response, OrderedMap.mem_set_of_ne hd ?_, houtcome⟩
        rintro rfl
        exact hnew ((h.delivered job').mpr ⟨d, response, hd, houtcome⟩)
      · rcases outcome with e | response | reason
        · cases hjob
        · obtain rfl := List.mem_singleton.mp hjob
          exact ⟨_, response, OrderedMap.mem_set_self, rfl⟩
        · cases hjob
    · rintro ⟨d, response, hd, houtcome⟩
      rcases OrderedMap.mem_set hd with hd' | hd'
      · exact .inl ⟨d, response, hd', houtcome⟩
      · right
        obtain ⟨rfl, rfl⟩ := Prod.mk.inj hd'
        obtain rfl := Option.some.inj houtcome
        exact List.mem_singleton_self _
  case origins =>
    rw [hrecorded]
    intro e he
    rcases OrderedMap.mem_set he with he | rfl
    · exact h.origins e he
    · exact ⟨hcanonical, rfl, rfl⟩
  case tasks =>
    cases hdelivers with
    | distributes _ _ happlies =>
      exact forall_mem_of_forall₂ happlies (fun v v' hv htasks => hv.tasks ▸ htasks) h.tasks
    | leaves _ hretains =>
      exact forall_mem_of_forall₂ hretains (fun v v' hv htasks => hv.tasks ▸ htasks) h.tasks
  case scheduler =>
    obtain ⟨gs, hrun, hpromised⟩ := h.scheduler
    rw [hrecorded, hkeys]
    exact ⟨gs, hrun, hpromised⟩

/-- **What the history says holds in every run.** -/
theorem distributedOf_run (hO : O.Consistent) (h : DiscoveryRun read O A es s) : DistributedOf O A es s := by
  refine h.invariant (I := DistributedOf O A) (fun s hs => distributedOf_fresh hs) ?_
  rintro es s fs t - hs ⟨action, hstep⟩
  cases systemStep_of_step hO hstep with
  | serves hservice hserved ht htransport _ hfs _ =>
    have hservices := ht ▸ continues_set hservice hserved.continues
    rcases htransport with htransport | ⟨hloops, e, he, sample, htransport⟩
    · exact hs.continues hservices htransport hfs
    · have hcanonical := hs.tasks _ (List.mem_of_getElem? hservice) e he
      exact (hs.run hcanonical hloops e.2.started sample).continues hservices htransport hfs
  | @delivers job origin startedAt samples settlement _ hdelivery _ ht hfs =>
    subst ht hfs
    exact (hs.deliver read hdelivery samples settlement).2.2
  | schedules hne hscheduler ht hfs =>
    subst ht hfs
    rw [List.append_nil]
    exact hs.schedule hne hscheduler

/-- **A response is distributed to all services at once, or to none.** In every run all services have applied
the same responses, each of them once, so that all tasks that wait for a delivery find its result. A step
leaves the evidence of every service as it is, unless it delivers a response that was never distributed, within
the deadline of its first caller: then every service applies it. -/
theorem distribution_atomic (hO : O.Consistent) (hrun : DiscoveryRun read O A es s) :
    ((distributions es).Nodup ∧ ∀ v ∈ s.services, v.applied.map (·.1) = distributions es ∧
      ∀ job d response, (job, d) ∈ s.transport.deliveries → d.outcome = some (.ok (.response response)) →
        (OrderedMap.lookup v.applied job).isSome) ∧
    ∀ action t fs, discoveryStep read O A s action = some (t, fs) →
      (distributions fs = [] ∧ List.Forall₂ (fun v v' => v'.cache.positive = v.cache.positive ∧
        v'.applied = v.applied) s.services t.services) ∨
      ∃ job samples response, action = .deliver job samples ∧ distributions fs = [job] ∧
        job ∉ distributions es ∧
        (s.transport.scheduler.scheduler.state job).settlements.head? = some (.ok (.response response)) ∧
        InTimeFor s.transport job.started (samples 0) (samples 1) ∧
        List.Forall₂ (Applies read O A job response) s.services t.services := by
  have h := distributedOf_run hO hrun
  refine ⟨⟨h.once, fun v hv => ⟨h.applied v hv, ?_⟩⟩, ?_⟩
  · intro job d response hd houtcome
    rw [OrderedMap.lookup_isSome, h.applied v hv]
    exact (h.delivered job).mpr ⟨d, response, hd, houtcome⟩
  intro action t fs hstep
  have hleaves {services services' : List DirectoryService} (hservices : List.Forall₂ Retains services services') :
      List.Forall₂ (fun v v' => v'.cache.positive = v.cache.positive ∧ v'.applied = v.applied)
        services services' := hservices.imp fun _ _ hv => ⟨hv.positive, hv.applied⟩
  cases systemStep_of_step hO hstep with
  | serves hservice hserved ht _ _ hfs _ =>
    rw [ht]
    exact .inl ⟨hfs, (continues_set hservice hserved.continues).imp fun _ _ hv => ⟨hv.positive, hv.applied⟩⟩
  | schedules _ _ ht hfs =>
    subst ht hfs
    exact .inl ⟨rfl, hleaves (retains_all _)⟩
  | @delivers job origin startedAt samples settlement haction hdelivery hsettled ht hfs =>
    subst ht hfs
    obtain ⟨⟨rfl, rfl, hnew⟩, hdelivers, -⟩ := h.deliver read hdelivery samples settlement
    generalize s.distribute read O A job job.origin job.started samples settlement = distributed at *
    obtain ⟨t, outcome⟩ := distributed
    dsimp only at hdelivers ⊢
    cases hdelivers with
    | distributes hresponse hinTime happlies =>
      exact .inr ⟨job, samples, _, haction, rfl, hnew, hsettled.trans (congrArg some hresponse), hinTime,
        happlies⟩
    | leaves hnone hservices =>
      refine .inl ⟨?_, hleaves hservices⟩
      rcases outcome with e | response | reason
      · rfl
      · exact absurd rfl (hnone response)
      · rfl

/-! ## A response for two formats -/

/-- A document that one format reads and the other rejects. -/
def documentRead : JwksFormat → Unit → Except DirectoryError PreparedDirectory
  | .jwks, () => .ok ⟨⟨⟨[], []⟩, 2⟩, ⟨true, .finite 1000, .finite 0⟩⟩
  | .wgDirectory00, () => .error (.document "directory must contain bounded valid public JWKS" none)

/-- The options of a service that admits all origins. -/
def openService (format : JwksFormat) : ServiceOptions :=
  ⟨format, true, [], defaultOptions⟩

/-- A transport with a service for each format. -/
def bothFormats : DiscoverySystem Unit where
  transport := .create
  services := [.jwks, .wgDirectory00].map fun format => .create format true [] (openService format).options
  spent := []
  resolving := []

/-- The job of a refresh that one of them starts. -/
def sharedJob : Job := ⟨0, ascii "https://a.example", 0⟩

/-- The refresh, up to the settlement of its fetch. -/
def sharedActions : List (DiscoveryAction Unit) :=
  [.refresh 0 (ascii "https://a.example") fun _ => some 0, .begin 0 0 fun _ => some 0,
    .round (some 0) (some 0), .round (some 0) none, .fetched sharedJob (.ok ()) (some 1),
    .round (some 1) none]

/-- The delivery of its response. -/
def sharedDelivery : DiscoveryAction Unit := .deliver sharedJob fun _ => some 2

/-- What the services have made of it: one stores the evidence, the other backs off. -/
def sharedResults : List (List DirectoryRefreshResult) :=
  [[.completed true], [.failed .invalidJwks (some ⟨"directory must contain bounded valid public JWKS", none⟩)]]

theorem distribution_atomic_sharedActions : ∃ es s t fs,
    DiscoveryRun documentRead spelledOrigins .exact es s ∧
    discoveryStep documentRead spelledOrigins .exact s sharedDelivery = some (t, fs) ∧
    t.services.map (·.applied.map (·.2)) = sharedResults ∧
    List.Forall₂ (Applies documentRead spelledOrigins .exact sharedJob ()) s.services t.services := by
  have hrun : (runAll (discoveryStep documentRead spelledOrigins .exact) sharedActions bothFormats []).any
      fun r => (discoveryStep documentRead spelledOrigins .exact r.1 sharedDelivery).any fun q =>
        distributions q.2 = [sharedJob] && q.1.services.map (·.applied.map (·.2)) = sharedResults := by
    decide +kernel
  obtain ⟨⟨s, es⟩, hsome, hstep⟩ := (Option.any_eq_true _ _).mp hrun
  obtain ⟨⟨t, fs⟩, hstep, hresults⟩ := (Option.any_eq_true _ _).mp hstep
  obtain ⟨hdistributed, hresults⟩ := Bool.and_eq_true_iff.mp hresults
  have hdistributed := of_decide_eq_true hdistributed
  have hfresh : bothFormats.Fresh := ⟨[openService .jwks, openService .wgDirectory00], rfl⟩
  have hatomic := distribution_atomic spelledOrigins_consistent (Run.runAll (.init hfresh) hsome)
  refine ⟨es, s, t, fs, Run.runAll (.init hfresh) hsome, hstep, of_decide_eq_true hresults, ?_⟩
  rcases hatomic.2 _ _ _ hstep with ⟨hnone, -⟩ | ⟨job, _, _, -, hjob, -, -, -, happlies⟩
  · rw [hnone] at hdistributed
    cases hdistributed
  · obtain rfl := List.singleton_inj.mp (hjob.symm.trans hdistributed)
    exact happlies

end AgentSig.Discovery
