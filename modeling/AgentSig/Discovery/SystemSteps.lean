import AgentSig.Discovery.ServiceSteps

/-!
# Steps of the discovery system

A step serves one service, delivers a response to all of them, or lets the scheduler go on. A task that begins
calls the transport; nothing else that is served does.

## Main definitions

* `distributions`, `emissions`: what a history records of the responses, and of the observer of a service
* `SystemStep`: what a step of the system does

## Main results

* `systemStep_of_step`: **what a step of the system does**
-/

namespace AgentSig.Discovery

open Commons Profiles StructuredFields

variable {ρ : Type} {read : JwksFormat → ρ → Except DirectoryError PreparedDirectory}
  {O : OriginPlatform} {A : Rounding} {s t : DiscoverySystem ρ} {samples : ℕ → Sample}
  {es fs : List DiscoveryEvent}

/-- The transport and the services of a system before it is used. -/
theorem DiscoverySystem.Fresh.initial (h : s.Fresh) :
    s.transport = .create ∧ s.resolving = [] ∧ ∀ v ∈ s.services, ∃ options : ServiceOptions,
      v = .create options.format options.openMode options.allowedOrigins options.options := by
  obtain ⟨options, h⟩ := h
  apply foldlM_invariant (fun s : DiscoverySystem ρ => s.transport = .create ∧ s.resolving = [] ∧
    ∀ v ∈ s.services, ∃ options : ServiceOptions,
      v = .create options.format options.openMode options.allowedOrigins options.options) _ _ h
  · exact ⟨rfl, rfl, by simp [DiscoverySystem.create]⟩
  · rintro options s t - ⟨htransport, hresolving, hservices⟩ hregister
    simp only [DiscoverySystem.register, bind_eq_ok, require_eq_ok, exists_const, pure_eq_ok] at hregister
    obtain ⟨-, rfl⟩ := hregister
    refine ⟨htransport, hresolving, fun v hv => ?_⟩
    rcases List.mem_append.mp hv with hv | hv
    · exact hservices v hv
    · rw [List.mem_singleton.mp hv]
      exact ⟨options, rfl⟩

/-! ## The history -/

/-- The jobs whose responses a history has distributed. -/
def distributions (es : List DiscoveryEvent) : List Job :=
  es.filterMap fun
    | .distributed job => some job
    | _ => none

theorem distributions_append (es fs : List DiscoveryEvent) :
    distributions (es ++ fs) = distributions es ++ distributions fs := List.filterMap_append

/-- What a history has told the observer of a service. -/
def emissions (service : ℕ) (es : List DiscoveryEvent) : List (Text × DirectoryRefreshResult) :=
  es.filterMap fun
    | .emitted emitter origin result => if emitter = service then some (origin, result) else none
    | _ => none

theorem emissions_append (service : ℕ) (es fs : List DiscoveryEvent) :
    emissions service (es ++ fs) = emissions service es ++ emissions service fs := List.filterMap_append

/-! ## Steps -/

/-- What a step of the system does: it serves a service, whose task may call the transport, it delivers the
response of a promise, or the scheduler goes on. -/
inductive SystemStep (read : JwksFormat → ρ → Except DirectoryError PreparedDirectory) (O : OriginPlatform)
    (A : Rounding) (s : DiscoverySystem ρ) (action : DiscoveryAction ρ) (t : DiscoverySystem ρ)
    (fs : List DiscoveryEvent) : Prop
  | serves {service : ℕ} {v v' : DirectoryService} {events : List (Text × DirectoryRefreshResult)} :
      s.services[service]? = some v →
      ServiceStep O (· ∈ t.transport.deliveries.map (·.1)) v v' events → t.services = s.services.set service v' →
      (t.transport = s.transport ∨ s.transport.scheduler.loops = none ∧ ∃ e ∈ v.tasks, ∃ sample,
        t.transport = (s.transport.run O A e.2.origin e.2.started sample).1) →
      (∀ r ∈ t.resolving, r ∈ s.resolving ∨ r.service = service ∧ Refreshes O v r.origin v' (.ok r.call)) →
      distributions fs = [] → (∀ i, emissions i fs = if service = i then events else []) →
      SystemStep read O A s action t fs
  | delivers {job : Job} {origin : Text} {startedAt : ℚ} {samples : ℕ → Sample}
      {settlement : Except DirectoryAdmissionReason (DirectoryTransportResult ρ)} :
      action = .deliver job samples →
      OrderedMap.lookup s.transport.deliveries job = some ⟨origin, startedAt, none⟩ →
      (s.transport.scheduler.scheduler.state job).settlements.head? = some settlement →
      t = (s.distribute read O A job origin startedAt samples settlement).1.setOutcome job
        ⟨origin, startedAt, none⟩ (s.distribute read O A job origin startedAt samples settlement).2 →
      fs = DiscoverySystem.deliveryEvents job (s.distribute read O A job origin startedAt samples settlement).2 →
      SystemStep read O A s action t fs
  | schedules {action' : SchedulerAction (DirectoryTransportResult ρ)}
      {scheduler : SchedulerSystem (DirectoryTransportResult ρ)} {gs : List SchedulerEvent} :
      (∀ originInput startedAt sample, action' ≠ .run originInput startedAt sample) →
      schedulerStep O A s.transport.scheduler action' = some (scheduler, gs) →
      t = { s with transport := { s.transport with scheduler } } → fs = [] →
      SystemStep read O A s action t fs

section Cases

variable {v : DirectoryService} {service id : ℕ} {task : RefreshTask} {action : DiscoveryAction ρ}

theorem emissions_told (service : ℕ) (origin : Text) (result : DirectoryRefreshResult) (i : ℕ) :
    emissions i [.emitted service origin result] = if service = i then [(origin, result)] else [] := by
  by_cases hi : service = i <;> simp [emissions, hi]

/-- A promise that a call returns gets a delivery. -/
theorem mem_deliveries_of_run {u u' : DirectoryTransport ρ} {origin : Text} {startedAt : ℚ} {sample : Sample}
    {job : Job} (h : u.run O A origin startedAt sample = (u', .promise job)) :
    job ∈ u'.deliveries.map (·.1) := by
  unfold DirectoryTransport.run at h
  split at h
  obtain ⟨rfl, rfl⟩ := Prod.mk.inj h
  dsimp only
  split
  · rename_i hknown
    exact OrderedMap.lookup_isSome.mp hknown
  · rw [List.map_append]
    exact List.mem_append_right _ (List.mem_singleton_self _)

theorem systemStep_begin (hservice : s.services[service]? = some v)
    (htask : OrderedMap.lookup v.tasks id = some task) (hphase : task.phase = .queued)
    (hloops : s.transport.scheduler.loops = none)
    (h : s.beginTask O A service v id task samples = (t, fs)) : SystemStep read O A s action t fs := by
  have hbegin := retains_begin (A := A) v task.started (samples 0)
  have hentry := OrderedMap.mem_of_lookup htask
  have hresult : task.phase.result? = none := by
    rw [hphase]
    rfl
  unfold DiscoverySystem.beginTask at h
  split at h
  · rename_i hbegun
    rw [hbegun] at hbegin
    obtain ⟨rfl, rfl⟩ := Prod.mk.inj h
    exact .serves hservice (.moves hbegin htask hresult (by rfl) (by rintro job ⟨⟩) (.inl rfl)) rfl (.inl rfl)
      (fun r hr => .inl hr) rfl (by simp [emissions])
  rename_i v₁ hbegun
  rw [hbegun] at hbegin
  split at h
  · rename_i hrun
    have hdelivery := mem_deliveries_of_run hrun
    obtain ⟨rfl, rfl⟩ := Prod.mk.inj h
    exact .serves hservice (.moves hbegin htask hresult (by rfl) (by rintro _ ⟨⟩; exact hdelivery) (.inl rfl)) rfl
      (.inr ⟨hloops, _, hentry, _, (congrArg Prod.fst hrun).symm⟩) (fun r hr => .inl hr) rfl
      (by simp [emissions])
  · rename_i hrun
    obtain ⟨rfl, rfl⟩ := Prod.mk.inj h
    exact .serves hservice (.moves hbegin htask hresult (by rfl) (by rintro job ⟨⟩) (.inl rfl)) rfl
      (.inr ⟨hloops, _, hentry, _, (congrArg Prod.fst hrun).symm⟩) (fun r hr => .inl hr) rfl
      (by simp [emissions])
  · rename_i e hrun
    have hfinish (known : Job → Prop) := serviceStep_finish (O := O) (A := A) known hbegin htask hresult none
      (.error (.thrown (.profile e)) : Except DeliveryError (DirectoryTransportResult ρ)) (samples 2)
      (samples 3)
    split at h
    all_goals
      rename_i hfinished
      rw [hfinished] at hfinish
      obtain ⟨rfl, rfl⟩ := Prod.mk.inj h
    · exact .serves hservice (hfinish _) rfl (.inr ⟨hloops, _, hentry, _, (congrArg Prod.fst hrun).symm⟩)
        (fun r hr => .inl hr) rfl (emissions_told _ _ _)
    · exact .serves hservice (hfinish _) rfl (.inr ⟨hloops, _, hentry, _, (congrArg Prod.fst hrun).symm⟩)
        (fun r hr => .inl hr) rfl (by simp [emissions, told])

theorem systemStep_finish (hservice : s.services[service]? = some v)
    (htask : OrderedMap.lookup v.tasks id = some task)
    (h : s.finishTask O A service v id task samples = some (t, fs)) : SystemStep read O A s action t fs := by
  obtain ⟨⟨job, outcome⟩, hawaited, hfinish⟩ := Option.map_eq_some_iff.mp h
  have hresult : task.phase.result? = none := by
    cases hphase : task.phase with
    | queued => rfl
    | rejected reason => rfl
    | awaiting job => rfl
    | returned result =>
      rw [hphase] at hawaited
      cases hawaited
    | closed result =>
      rw [hphase] at hawaited
      cases hawaited
  have hstep (known : Job → Prop) := serviceStep_finish (O := O) (A := A) known (.refl v) htask hresult job outcome (samples 0)
    (samples 1)
  dsimp only at hfinish
  split at hfinish
  all_goals
    rename_i hfinished
    rw [hfinished] at hstep
    obtain ⟨rfl, rfl⟩ := Prod.mk.inj hfinish
  · exact .serves hservice (hstep _) rfl (.inl rfl) (fun r hr => .inl hr) rfl (emissions_told _ _ _)
  · exact .serves hservice (hstep _) rfl (.inl rfl) (fun r hr => .inl hr) rfl (by simp [emissions, told])

theorem systemStep_resolve {budget : ℕ} {originInput thumbprint : Text} (hO : O.Consistent)
    (hservice : s.services[service]? = some v)
    (h : s.startResolve O A service v budget originInput thumbprint samples = (t, fs)) :
    SystemStep read O A s action t fs := by
  have hresolve := resolve_spec (O := O) (A := A) v (s.spent.contains budget) originInput thumbprint samples
  unfold DiscoverySystem.startResolve at h
  split at h
  rename_i hresolved
  rw [hresolved] at hresolve
  dsimp only at h hresolve
  split at h
  all_goals obtain ⟨rfl, rfl⟩ := Prod.mk.inj h
  · exact .serves hservice (hresolve.serviceStep hO) rfl (.inl rfl) (fun r hr => .inl hr) rfl
      (by simp [emissions])
  · exact .serves hservice (hresolve.serviceStep hO) rfl (.inl rfl) (fun r hr => .inl hr) rfl
      (by simp [emissions])
  · refine .serves hservice (hresolve.serviceStep hO) rfl (.inl rfl) (fun r hr => ?_) rfl
      (by simp [emissions])
    rcases List.mem_append.mp hr with hr | hr
    · exact .inl hr
    · rw [List.mem_singleton.mp hr]
      cases hresolve with
      | settles _ hcall => exact absurd rfl (hcall _ _)
      | pays _ _ hrefresh => exact .inr ⟨rfl, hrefresh⟩

theorem set_self {services : List DirectoryService} (h : services[service]? = some v) :
    services.set service v = services := by
  obtain ⟨hlt, rfl⟩ := List.getElem?_eq_some_iff.mp h
  exact List.set_getElem_self hlt

theorem systemStep_resolveRefreshed {index : ℕ} {task : ResolveTask} {sample : Sample}
    (hservice : s.services[task.service]? = some v)
    (h : s.resolveTask O A index task v sample = some (t, fs)) : SystemStep read O A s action t fs := by
  obtain ⟨result, -, hresolve⟩ := Option.map_eq_some_iff.mp h
  cases result with
  | error e =>
    obtain ⟨rfl, rfl⟩ := Prod.mk.inj hresolve
    exact .serves hservice (.retains (.refl v)) (set_self hservice).symm (.inl rfl)
      (fun r hr => .inl (List.mem_of_mem_eraseIdx hr)) rfl (by simp [emissions])
  | ok result =>
    obtain ⟨rfl, rfl⟩ := Prod.mk.inj hresolve
    exact .serves hservice (.retains (retains_resolveRefreshed _ _ _ _ _)) rfl (.inl rfl)
      (fun r hr => .inl (List.mem_of_mem_eraseIdx hr)) rfl (by simp [emissions])

end Cases

theorem scheduler_ne_run {action : DiscoveryAction ρ} {action' : SchedulerAction (DirectoryTransportResult ρ)}
    (h : action.scheduler? = some action') :
    ∀ originInput startedAt sample, action' ≠ .run originInput startedAt sample := by
  rintro originInput startedAt sample rfl
  cases action <;> cases h

/-- **What a step of the system does.** -/
theorem systemStep_of_step (hO : O.Consistent) {action : DiscoveryAction ρ}
    (h : discoveryStep read O A s action = some (t, fs)) : SystemStep read O A s action t fs := by
  unfold discoveryStep at h
  split at h
  · rename_i action' haction
    obtain ⟨⟨scheduler, gs⟩, hstep, hresult⟩ := Option.map_eq_some_iff.mp h
    obtain ⟨rfl, rfl⟩ := Prod.mk.inj hresult
    exact .schedules (scheduler_ne_run haction) hstep rfl rfl
  split at h
  swap
  · cases h
  rename_i hloops
  unfold serviceStep at h
  split at h
  case h_1 =>
    obtain ⟨v, hservice, hresult⟩ := Option.map_eq_some_iff.mp h
    obtain ⟨rfl, rfl⟩ := Prod.mk.inj hresult
    exact .serves hservice ((refresh_spec _ _ _ _).serviceStep hO) rfl (.inl rfl) (fun r hr => .inl hr) rfl
      (by simp [emissions])
  case h_2 =>
    split at h
    · rename_i v hservice
      split at h
      · rename_i task htask
        split at h
        · rename_i hphase
          exact systemStep_begin hservice htask hphase hloops (Option.some.inj h)
        · cases h
      · cases h
    · cases h
  case h_3 =>
    unfold DiscoverySystem.deliver at h
    split at h
    · rename_i hdelivery hsettled
      obtain ⟨rfl, rfl⟩ := Prod.mk.inj (Option.some.inj h)
      exact .delivers rfl hdelivery hsettled rfl rfl
    · cases h
  case h_4 =>
    split at h
    · rename_i v hservice
      split at h
      · rename_i task htask
        exact systemStep_finish hservice htask h
      · cases h
    · cases h
  case h_5 =>
    split at h
    · rename_i v hservice
      split at h
      · rename_i htask
        obtain ⟨rfl, rfl⟩ := Prod.mk.inj (Option.some.inj h)
        exact .serves hservice (.closes htask rfl) rfl (.inl rfl) (fun r hr => .inl hr) rfl
          (by simp [emissions])
      · cases h
    · cases h
  case h_6 =>
    obtain ⟨v, hservice, hresult⟩ := Option.map_eq_some_iff.mp h
    exact systemStep_resolve hO hservice hresult
  case h_7 =>
    split at h
    · split at h
      · rename_i v hservice
        exact systemStep_resolveRefreshed hservice h
      · cases h
    · cases h
  case h_8 =>
    obtain ⟨v, hservice, hresult⟩ := Option.map_eq_some_iff.mp h
    obtain ⟨rfl, rfl⟩ := Prod.mk.inj hresult
    exact .serves hservice (.retains (retains_recheck _ _ _ _)) rfl (.inl rfl) (fun r hr => .inl hr) rfl
      (by simp [emissions])
  case h_9 => cases h

end AgentSig.Discovery
