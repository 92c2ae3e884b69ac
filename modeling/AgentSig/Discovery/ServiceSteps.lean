import AgentSig.Discovery.Accounting
import AgentSig.Discovery.DiscoverySystem
import AgentSig.Profiles.CanonicalOrigins

/-!
# Steps of a service

Only the commit of a response changes what a service takes for evidence, and only the commit makes it known to
the tasks. All other operations leave the entries of the cache and the applied responses as they are; they make
a task for a canonical origin that no task owns, or take one task a step further.

## Main definitions

* `Retains`: what most operations leave as it is
* `Refreshes`, `Resolves`: what the calls of a service do
* `ServiceStep`, `Continues`: what a step of the system does to a service
* `Applies`: what a service does with a response that is distributed

## Main results

* `refresh_spec`, `resolve_spec`, `serviceStep_finish`: the operations
* `commitResponse_spec`: the commit of what was prepared
-/

namespace AgentSig.Discovery

open Commons Profiles StructuredFields

variable {ρ : Type} {read : JwksFormat → ρ → Except DirectoryError PreparedDirectory}
  {O : OriginPlatform} {A : Rounding} {known : Job → Prop} {v v' v'' : DirectoryService}
  {origin originInput : Text} {id : ℕ}

/-- An origin that is its own canonical origin. -/
def Canonical (O : OriginPlatform) (origin : Text) : Prop :=
  DirectoryService.canonicalOrigin O origin = .ok origin

theorem canonical_of_canonicalOrigin (hO : O.Consistent)
    (h : DirectoryService.canonicalOrigin O originInput = .ok origin) : Canonical O origin := by
  unfold Canonical DirectoryService.canonicalOrigin at *
  cases hinput : canonicalAgentOrigin O originInput DEFAULT_PROFILE_LIMITS.maxAgentUrlBytes with
  | error e =>
    rw [hinput] at h
    cases h
  | ok canonical =>
    rw [hinput] at h
    obtain rfl : canonical = origin := Except.ok.inj h
    rw [canonicalAgentOrigin_idempotent hO hinput]
    rfl

/-- A canonical origin is its own configured origin. -/
theorem Canonical.configured (h : Canonical O origin) :
    configuredAgentOrigin O origin DEFAULT_PROFILE_LIMITS.maxAgentUrlBytes = .ok origin := by
  rw [configuredAgentOrigin_eq_ok]
  unfold Canonical DirectoryService.canonicalOrigin at h
  cases hinput : canonicalAgentOrigin O origin DEFAULT_PROFILE_LIMITS.maxAgentUrlBytes with
  | error e =>
    rw [hinput] at h
    cases h
  | ok canonical =>
    rw [hinput] at h
    exact congrArg Except.ok (Except.ok.inj h)

theorem Canonical.configuredOrigin (h : Canonical O origin) :
    DirectoryCache.configuredOrigin O origin = .ok origin := by
  rw [DirectoryCache.configuredOrigin, h.configured]
  rfl

/-! ## What operations leave -/

/-- What most operations leave as it is: the evidence of a service, its tasks, and who owns an origin. -/
structure Retains (v v' : DirectoryService) : Prop where
  format : v'.format = v.format
  positive : v'.cache.positive = v.cache.positive
  applied : v'.applied = v.applied
  tasks : v'.tasks = v.tasks
  pending : v'.pending = v.pending

theorem Retains.refl (v : DirectoryService) : Retains v v := ⟨rfl, rfl, rfl, rfl, rfl⟩

theorem Retains.trans (h : Retains v v') (h' : Retains v' v'') : Retains v v'' :=
  ⟨h'.format.trans h.format, h'.positive.trans h.positive, h'.applied.trans h.applied,
    h'.tasks.trans h.tasks, h'.pending.trans h.pending⟩

/-- An operation of the cache that leaves its entries. -/
theorem retains_cache {cache : DirectoryCache} (h : DirectoryCache.LeavesEntries v.cache cache) :
    Retains v { v with cache } := ⟨rfl, h.positive, rfl, rfl, rfl⟩

theorem retains_now (v : DirectoryService) (sample : Sample) : Retains v (v.now sample).1 := by
  unfold DirectoryService.now
  split
  · split <;> exact ⟨rfl, rfl, rfl, rfl, rfl⟩
  · exact .refl v

theorem retains_prepareResponse (read : JwksFormat → ρ → Except DirectoryError PreparedDirectory) (v : DirectoryService) (response : ρ) :
    Retains v (v.prepareResponse read response).1 := by
  have hcache := DirectoryCache.leavesEntries_prepare (read v.format) v.cache response
  unfold DirectoryService.prepareResponse
  split
  all_goals
    rename_i hprepare
    rw [hprepare] at hcache
    exact retains_cache hcache

theorem retains_begin (v : DirectoryService) (started : ℚ) (sample : Sample) :
    Retains v (v.begin A started sample).1 := by
  have hclock := retains_now v sample
  unfold DirectoryService.begin
  split
  all_goals
    rename_i hnow
    rwa [hnow] at hclock

theorem retains_settle (v : DirectoryService) (started : ℚ) (job : Option Job)
    (outcome : Except DeliveryError (DirectoryTransportResult ρ)) (sample : Sample) :
    Retains v (v.settle A started job outcome sample).1 := by
  have hclock := retains_now v sample
  unfold DirectoryService.settle
  split
  · exact .refl v
  · exact .refl v
  · exact .refl v
  · split
    · rename_i hnow
      rwa [hnow] at hclock
    · rename_i hnow
      rw [hnow] at hclock
      split
      · exact hclock
      · split
        · exact hclock
        · split <;> exact hclock

theorem retains_resolveRefreshed (v : DirectoryService) (origin thumbprint : Text)
    (result : DirectoryRefreshResult) (sample : Sample) :
    Retains v (v.resolveRefreshed O A origin thumbprint result sample).1 := by
  have hlookup : DirectoryCache.LeavesEntries v.cache (v.cache.lookup O A origin thumbprint sample).1 :=
    DirectoryCache.leavesEntries_lookup
  unfold DirectoryService.resolveRefreshed
  split
  all_goals
    rename_i hcache
    rw [hcache] at hlookup
    exact retains_cache hlookup

theorem retains_recheck (v : DirectoryService) (selection : DirectoryKeySelection) (sample second : Sample) :
    Retains v (v.recheck A selection sample second).1 := by
  have hclock := retains_now v sample
  unfold DirectoryService.recheck
  split
  · exact .refl v
  · split
    · rename_i hnow
      rwa [hnow] at hclock
    · rename_i hnow
      rw [hnow] at hclock
      split
      · exact hclock.trans (retains_cache DirectoryCache.leavesEntries_recheck)
      · exact hclock

/-! ## Calls -/

/-- What a call of `refresh` does: it is answered at once, it joins the task that owns the origin, or it makes
a task that owns it. -/
inductive Refreshes (O : OriginPlatform) (v : DirectoryService) (originInput : Text) :
    DirectoryService → Except DirectoryError RefreshCall → Prop
  | refused {v' : DirectoryService} {call : Except DirectoryError RefreshCall} :
      Retains v v' → (∀ id, call ≠ .ok (.task id)) → Refreshes O v originInput v' call
  | joins {v' : DirectoryService} {origin : Text} {id : ℕ} :
      DirectoryService.canonicalOrigin O originInput = .ok origin → Retains v v' →
      OrderedMap.lookup v.pending origin = some id → Refreshes O v originInput v' (.ok (.task id))
  | registers {w : DirectoryService} {origin : Text} {started : ℚ} :
      DirectoryService.canonicalOrigin O originInput = .ok origin → Retains v w →
      OrderedMap.lookup v.pending origin = none → v.pending.length < 80 →
      Refreshes O v originInput (w.register origin started).1 (.ok (w.register origin started).2)

/-- What was kept before a call makes no difference to it. -/
theorem Refreshes.after {call : Except DirectoryError RefreshCall} (h : Refreshes O v' originInput v'' call)
    (hretains : Retains v v') : Refreshes O v originInput v'' call := by
  cases h with
  | refused hrest hcall => exact .refused (hretains.trans hrest) hcall
  | joins horigin hrest hpending => exact .joins horigin (hretains.trans hrest) (hretains.pending ▸ hpending)
  | registers horigin hrest hpending hlength =>
    exact .registers horigin (hretains.trans hrest) (hretains.pending ▸ hpending) (hretains.pending ▸ hlength)

theorem refresh_spec (v : DirectoryService) (originInput : Text) (sample second : Sample) :
    Refreshes O v originInput (v.refresh O originInput sample second).1
      (v.refresh O originInput sample second).2 := by
  unfold DirectoryService.refresh
  split
  · exact .refused (.refl v) (by rintro id ⟨⟩)
  rename_i origin horigin
  split
  · exact .refused (.refl v) (by rintro id ⟨⟩)
  split
  · exact .refused (.refl v) (by rintro id ⟨⟩)
  have hclock := retains_now v sample
  split
  · rename_i hnow
    rw [hnow] at hclock
    exact .refused hclock (by rintro id ⟨⟩)
  rename_i v₁ started hnow
  rw [hnow] at hclock
  split
  · rename_i id hpending
    exact .joins horigin hclock (hclock.pending ▸ hpending)
  rename_i hpending
  have hblocked : DirectoryCache.LeavesEntries v₁.cache (v₁.cache.fetchBlocked O origin second).1 :=
    DirectoryCache.leavesEntries_fetchBlocked
  split
  all_goals
    rename_i hcache
    rw [hcache] at hblocked
    have hread := hclock.trans (retains_cache hblocked)
  · exact .refused hread (by rintro id ⟨⟩)
  · exact .refused hread (by rintro id ⟨⟩)
  · split
    · exact .refused hread (by rintro id ⟨⟩)
    · rename_i hlength
      exact .registers horigin hread (hclock.pending ▸ hpending) (hclock.pending ▸ not_le.mp hlength)

/-- What a call of `resolve` does: it is settled, or it pays for a refresh. -/
inductive Resolves (O : OriginPlatform) (v : DirectoryService) (spent : Bool) (originInput : Text) :
    DirectoryService → Bool → Except DirectoryError ResolveCall → Prop
  | settles {v' : DirectoryService} {call : Except DirectoryError ResolveCall} :
      Retains v v' → (∀ origin refresh, call ≠ .ok (.refreshing origin refresh)) →
      Resolves O v spent originInput v' spent call
  | fails {v' : DirectoryService} {origin : Text} {e : DirectoryError} :
      spent = false → DirectoryService.canonicalOrigin O originInput = .ok origin →
      Refreshes O v origin v' (.error e) → Resolves O v spent originInput v' true (.error e)
  | pays {v' : DirectoryService} {origin : Text} {call : RefreshCall} :
      spent = false → DirectoryService.canonicalOrigin O originInput = .ok origin →
      Refreshes O v origin v' (.ok call) →
      Resolves O v spent originInput v' true (.ok (.refreshing origin call))

theorem resolve_spec (v : DirectoryService) (spent : Bool) (originInput thumbprint : Text)
    (samples : ℕ → Sample) :
    Resolves O v spent originInput (v.resolve O A spent originInput thumbprint samples).1
      (v.resolve O A spent originInput thumbprint samples).2.1
      (v.resolve O A spent originInput thumbprint samples).2.2 := by
  unfold DirectoryService.resolve
  split
  · exact .settles (.refl v) (by rintro _ _ ⟨⟩)
  · exact .settles (.refl v) (by rintro _ _ ⟨⟩)
  rename_i origin _ horigin _
  split
  · exact .settles (.refl v) (by rintro _ _ ⟨⟩)
  split
  · exact .settles (.refl v) (by rintro _ _ ⟨⟩)
  have hclock := retains_now v (samples 0)
  split
  · rename_i hnow
    rw [hnow] at hclock
    exact .settles hclock (by rintro _ _ ⟨⟩)
  rename_i v₁ _ hnow
  rw [hnow] at hclock
  have hlookup : DirectoryCache.LeavesEntries v₁.cache (v₁.cache.lookup O A origin thumbprint (samples 1)).1 :=
    DirectoryCache.leavesEntries_lookup
  split
  · rename_i hcache
    rw [hcache] at hlookup
    exact .settles (hclock.trans (retains_cache hlookup)) (by rintro _ _ ⟨⟩)
  rename_i cache cached hcache
  rw [hcache] at hlookup
  split
  · exact .settles (hclock.trans (retains_cache hlookup)) (by rintro _ _ ⟨⟩)
  have hblocked : DirectoryCache.LeavesEntries cache (cache.fetchBlocked O origin (samples 2)).1 :=
    DirectoryCache.leavesEntries_fetchBlocked
  split
  all_goals
    rename_i hfetch
    rw [hfetch] at hblocked
    have hread := hclock.trans (retains_cache (hlookup.trans hblocked))
  · exact .settles hread (by rintro _ _ ⟨⟩)
  · exact .settles hread (by rintro _ _ ⟨⟩)
  · split
    · rename_i hspent
      subst hspent
      exact .settles hread (by rintro _ _ ⟨⟩)
    · rename_i cache' hspent
      have hrefresh := (refresh_spec (O := O) { v₁ with cache := cache' } origin (samples 3) (samples 4)).after
        hread
      split
      · rename_i hcall
        rw [hcall] at hrefresh
        exact .fails (by simpa using hspent) horigin hrefresh
      · rename_i hcall
        rw [hcall] at hrefresh
        exact .pays (by simpa using hspent) horigin hrefresh

/-! ## Steps -/

/-- Whether a task still owns its origin. -/
def RefreshPhase.isOpen : RefreshPhase → Bool
  | .closed _ => false
  | _ => true

/-- What a task has returned. -/
def RefreshPhase.result? : RefreshPhase → Option (Except DirectoryError DirectoryRefreshResult)
  | .returned result | .closed result => some result
  | _ => none

/-- What the observer is told when a task ends. -/
def told (origin : Text) : Except DirectoryError DirectoryRefreshResult → List (Text × DirectoryRefreshResult)
  | .ok result => [(origin, result)]
  | .error _ => []

/-- What a step of the system does to a service, and what the observer is told then. A task awaits known jobs
only. -/
inductive ServiceStep (O : OriginPlatform) (known : Job → Prop) (v : DirectoryService) :
    DirectoryService → List (Text × DirectoryRefreshResult) → Prop
  | retains {v' : DirectoryService} : Retains v v' → ServiceStep O known v v' []
  | registers {w : DirectoryService} {origin : Text} {started : ℚ} : Canonical O origin → Retains v w →
      OrderedMap.lookup v.pending origin = none → v.pending.length < 80 →
      ServiceStep O known v (w.register origin started).1 []
  /-- A task that has not returned goes on; it may tell the observer what it returns. -/
  | moves {w : DirectoryService} {id : ℕ} {task : RefreshTask} {phase : RefreshPhase}
      {events : List (Text × DirectoryRefreshResult)} : Retains v w → OrderedMap.lookup v.tasks id = some task →
      task.phase.result? = none → phase.isOpen → (∀ job, phase = .awaiting job → known job) →
      (events = [] ∨ ∃ result, phase = .returned result ∧ events = told task.origin result) →
      ServiceStep O known v (w.setPhase id phase) events
  | closes {id : ℕ} {task : RefreshTask} {result : Except DirectoryError DirectoryRefreshResult} :
      OrderedMap.lookup v.tasks id = some task → task.phase = .returned result →
      ServiceStep O known v (v.close id task.origin result) []

theorem Refreshes.serviceStep {call : Except DirectoryError RefreshCall} (hO : O.Consistent)
    (h : Refreshes O v originInput v' call) : ServiceStep O known v v' [] := by
  cases h with
  | refused hretains _ => exact .retains hretains
  | joins _ hretains _ => exact .retains hretains
  | registers horigin hretains hpending hlength =>
    exact .registers (canonical_of_canonicalOrigin hO horigin) hretains hpending hlength

theorem Resolves.serviceStep {call : Except DirectoryError ResolveCall} {spent spent' : Bool}
    (hO : O.Consistent) (h : Resolves O v spent originInput v' spent' call) : ServiceStep O known v v' [] := by
  cases h with
  | settles hretains _ => exact .retains hretains
  | fails _ _ hrefresh => exact hrefresh.serviceStep hO
  | pays _ _ hrefresh => exact hrefresh.serviceStep hO

theorem setPhase_of_lookup {task : RefreshTask} (h : OrderedMap.lookup v.tasks id = some task)
    (phase : RefreshPhase) :
    v.setPhase id phase = { v with tasks := OrderedMap.set v.tasks id { task with phase } } := by
  rw [DirectoryService.setPhase, h]

theorem close_of_lookup {task : RefreshTask} (h : OrderedMap.lookup v.tasks id = some task) (origin : Text)
    (result : Except DirectoryError DirectoryRefreshResult) :
    v.close id origin result = { v with
      pending := v.pending.filter (·.1 ≠ origin)
      tasks := OrderedMap.set v.tasks id { task with phase := .closed result } } := by
  rw [DirectoryService.close]
  exact setPhase_of_lookup (v := { v with pending := v.pending.filter (·.1 ≠ origin) }) h _

theorem serviceStep_finish (known : Job → Prop) {task : RefreshTask} (hretains : Retains v v')
    (htask : OrderedMap.lookup v.tasks id = some task) (hphase : task.phase.result? = none)
    (job : Option Job) (outcome : Except DeliveryError (DirectoryTransportResult ρ))
    (sample second : Sample) :
    ServiceStep O known v (v'.finish O A id task job outcome sample second).1
      (told task.origin (v'.finish O A id task job outcome sample second).2) := by
  have hsettle := retains_settle (A := A) v' task.started job outcome sample
  unfold DirectoryService.finish
  split
  · rename_i result hsettled
    rw [hsettled] at hsettle
    exact .moves (hretains.trans hsettle) htask hphase rfl (by rintro job ⟨⟩) (.inr ⟨_, rfl, rfl⟩)
  · rename_i v₁ result hsettled
    rw [hsettled] at hsettle
    have hrecord : DirectoryCache.LeavesEntries v₁.cache (v₁.cache.recordFailure O A task.origin second).1 :=
      DirectoryCache.leavesEntries_recordFailure
    split
    all_goals
      rename_i hcache
      rw [hcache] at hrecord
      have hread := (hretains.trans hsettle).trans (retains_cache hrecord)
    · exact .moves hread htask hphase rfl (by rintro job ⟨⟩) (.inr ⟨_, rfl, rfl⟩)
    · exact .moves hread htask hphase rfl (by rintro job ⟨⟩) (.inr ⟨_, rfl, rfl⟩)

/-- What the steps of a service have in common: they leave its evidence as it is, and make tasks for canonical
origins. -/
structure Continues (O : OriginPlatform) (v v' : DirectoryService) : Prop where
  format : v'.format = v.format
  positive : v'.cache.positive = v.cache.positive
  applied : v'.applied = v.applied
  tasks : (∀ e ∈ v.tasks, Canonical O e.2.origin) → ∀ e ∈ v'.tasks, Canonical O e.2.origin

theorem Continues.refl (v : DirectoryService) : Continues O v v := ⟨rfl, rfl, rfl, id⟩

theorem Retains.continues (h : Retains v v') : Continues O v v' :=
  ⟨h.format, h.positive, h.applied, fun htasks => h.tasks ▸ htasks⟩

theorem ServiceStep.continues {events : List (Text × DirectoryRefreshResult)} (h : ServiceStep O known v v' events) :
    Continues O v v' := by
  cases h with
  | retains hretains => exact hretains.continues
  | @registers w origin started hcanonical hretains _ _ =>
    refine ⟨hretains.format, hretains.positive, hretains.applied, fun htasks e he => ?_⟩
    rcases List.mem_append.mp he with he | he
    · exact htasks e (hretains.tasks ▸ he)
    · rw [List.mem_singleton.mp he]
      exact hcanonical
  | @moves w id task phase events hretains htask _ _ _ _ =>
    rw [setPhase_of_lookup (hretains.tasks ▸ htask)]
    refine ⟨hretains.format, hretains.positive, hretains.applied, fun htasks e he => ?_⟩
    rcases OrderedMap.mem_set he with he | rfl
    · exact htasks e (hretains.tasks ▸ he)
    · exact htasks (id, task) (OrderedMap.mem_of_lookup htask)
  | @closes id task result htask _ =>
    rw [close_of_lookup htask]
    refine ⟨rfl, rfl, rfl, fun htasks e he => ?_⟩
    rcases OrderedMap.mem_set he with he | rfl
    · exact htasks e he
    · exact htasks (id, task) (OrderedMap.mem_of_lookup htask)

/-! ## Responses -/

/-- What a service does with the response of a job that is distributed: it commits the document that its
format reads, or it backs off where its format rejects the document. Then its tasks find the result. -/
inductive Applies (read : JwksFormat → ρ → Except DirectoryError PreparedDirectory) (O : OriginPlatform)
    (A : Rounding) (job : Job) (response : ρ) (v : DirectoryService) : DirectoryService → Prop
  | evidence {prepared : PreparedDirectory} {sample : Sample} {cache : DirectoryCache} {persisted : Bool} :
      read v.format response = .ok prepared →
      (v.cache.prepare (read v.format) response).1.commit O job.origin v.cache.tickets sample =
        (cache, .ok persisted) →
      Applies read O A job response v
        { v with cache, applied := v.applied ++ [(job, .completed persisted)] }
  | invalid {rule : String} {keyIndex : Option ℕ} {sample : Sample} {cache : DirectoryCache} :
      read v.format response = .error (.document rule keyIndex) →
      v.cache.recordFailure O A job.origin sample = (cache, .ok ()) →
      Applies read O A job response v
        { v with cache, applied := v.applied ++ [(job, .failed .invalidJwks (some ⟨rule, keyIndex⟩))] }

variable {job : Job} {response : ρ}

/-- A service whose format rejects a document keeps its entries. -/
theorem Applies.positive_of_invalid {rule : String} {keyIndex : Option ℕ}
    (h : Applies read O A job response v v')
    (hread : read v.format response = .error (.document rule keyIndex)) :
    v'.cache.positive = v.cache.positive := by
  cases h with
  | evidence hprepared _ =>
    rw [hprepared] at hread
    cases hread
  | @invalid _ _ sample cache _ hrecord =>
    have hleaves : DirectoryCache.LeavesEntries v.cache (v.cache.recordFailure O A job.origin sample).1 :=
      DirectoryCache.leavesEntries_recordFailure
    rw [hrecord] at hleaves
    exact hleaves.positive

theorem Applies.applied (h : Applies read O A job response v v') :
    v'.applied.map (·.1) = v.applied.map (·.1) ++ [job] := by
  cases h <;> simp

theorem Applies.tasks (h : Applies read O A job response v v') : v'.tasks = v.tasks := by
  cases h <;> rfl

theorem Applies.pending (h : Applies read O A job response v v') : v'.pending = v.pending := by
  cases h <;> rfl

/-- What a participant has prepared for a response. -/
def Prepares (read : JwksFormat → ρ → Except DirectoryError PreparedDirectory) (response : ρ)
    (v : DirectoryService) (prepared : DirectoryService × PreparedCommit) : Prop :=
  v.prepareResponse read response = (prepared.1, .ok prepared.2)

/-- An origin that is canonical is no reason for a failure to be refused. -/
theorem recordFailure_ok (c : DirectoryCache) (h : Canonical O origin) (sample : Sample) :
    (c.recordFailure O A origin sample).2 = .ok () := by
  unfold DirectoryCache.recordFailure
  rw [h.configuredOrigin]
  dsimp only
  split
  · rfl
  · split
    · rfl
    · split
      · rfl
      · split
        · rfl
        · split <;> rfl

/-- A ticket that has just been prepared is committed. -/
theorem commit_prepared (c : DirectoryCache) {f : ρ → Except DirectoryError PreparedDirectory}
    {prepared : PreparedDirectory} (hread : f response = .ok prepared) (h : Canonical O origin)
    (sample : Sample) :
    ∃ persisted, ((c.prepare f response).1.commit O origin c.tickets sample).2 = .ok persisted := by
  have hticket : OrderedMap.lookup (c.prepare f response).1.prepared c.tickets = some prepared := by
    rw [DirectoryCache.prepare, hread]
    exact (OrderedMap.lookup_cons _ _ _).trans (if_pos rfl)
  unfold DirectoryCache.commit
  rw [h.configuredOrigin]
  dsimp only
  rw [hticket]
  dsimp only
  split
  · exact ⟨_, rfl⟩
  · exact ⟨_, rfl⟩

/-- **What was prepared for a response is committed.** -/
theorem commitResponse_spec {commit : PreparedCommit} (h : Prepares read response v (v', commit))
    (hcanonical : Canonical O job.origin) (hfresh : job ∉ v.applied.map (·.1)) (sample : Sample) :
    ∃ v'', v'.commitResponse O A job job.origin sample commit = (v'', .ok ()) ∧
      Applies read O A job response v v'' := by
  unfold Prepares DirectoryService.prepareResponse at h
  cases hread : read v.format response with
  | ok prepared =>
    have hprepare : v.cache.prepare (read v.format) response =
        ((v.cache.prepare (read v.format) response).1, .ok v.cache.tickets) := by
      rw [DirectoryCache.prepare, hread]
    rw [hprepare] at h
    obtain ⟨rfl, hcommit⟩ := Prod.mk.inj h
    obtain rfl := Except.ok.inj hcommit
    obtain ⟨persisted, hpersisted⟩ := commit_prepared v.cache hread hcanonical sample
    have hcommitted : (v.cache.prepare (read v.format) response).1.commit O job.origin v.cache.tickets sample =
        (((v.cache.prepare (read v.format) response).1.commit O job.origin v.cache.tickets sample).1,
          .ok persisted) := Prod.ext rfl hpersisted
    refine ⟨_, ?_, .evidence hread hcommitted⟩
    rw [DirectoryService.commitResponse]
    dsimp only
    rw [hcommitted]
    dsimp only
    rw [OrderedMap.set_of_notMem hfresh]
  | error e =>
    have hprepare : v.cache.prepare (read v.format) response = (v.cache, .error e) := by
      rw [DirectoryCache.prepare, hread]
    rw [hprepare] at h
    cases e with
    | profile e => cases (Prod.mk.inj h).2
    | document rule keyIndex =>
      obtain ⟨rfl, hcommit⟩ := Prod.mk.inj h
      obtain rfl := Except.ok.inj hcommit
      have hrecorded : v.cache.recordFailure O A job.origin sample =
          ((v.cache.recordFailure O A job.origin sample).1, .ok ()) :=
        Prod.ext rfl (recordFailure_ok v.cache hcanonical sample)
      refine ⟨_, ?_, .invalid hread hrecorded⟩
      rw [DirectoryService.commitResponse]
      dsimp only
      rw [hrecorded]
      dsimp only
      rw [OrderedMap.set_of_notMem hfresh]

end AgentSig.Discovery
