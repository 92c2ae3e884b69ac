import AgentSig.Discovery.Distribution

/-!
# Ownership of refreshes

A service refreshes an origin once at a time: the task that is open owns it, and all callers share it. At most
80 tasks are open. The observer is told the result of a task, and it is told it once.

## Main definitions

* `openTasks`, `results`: the tasks that own an origin, and what the tasks have returned
* `OwnedBy`: what holds of the tasks of a service after any steps

## Main results

* `OwnedBy.step`: every step of a service keeps it
* `refresh_ownership`: **a service refreshes an origin once at a time, and tells every result once**
-/

namespace AgentSig.Discovery

open Commons Profiles StructuredFields

variable {ρ : Type} {read : JwksFormat → ρ → Except DirectoryError PreparedDirectory}
  {O : OriginPlatform} {A : Rounding} {v v' w : DirectoryService}
  {seen events : List (Text × DirectoryRefreshResult)} {origin originInput : Text} {id i : ℕ}
  {task task' : RefreshTask} {phase : RefreshPhase} {es fs : List DiscoveryEvent} {s t : DiscoverySystem ρ}

/-! ## Tasks -/

/-- The tasks of a service that own an origin. -/
def openTasks (v : DirectoryService) : List (ℕ × RefreshTask) := v.tasks.filter (·.2.phase.isOpen)

/-- What a task has returned, as the observer is told it. -/
def RefreshTask.results (task : RefreshTask) : List (Text × DirectoryRefreshResult) :=
  (task.phase.result?.map (told task.origin)).getD []

/-- What the tasks of a service have returned. -/
def results (v : DirectoryService) : List (Text × DirectoryRefreshResult) := v.tasks.flatMap (·.2.results)

theorem isOpen_of_result? (h : phase.result? = none) : phase.isOpen := by
  cases phase with
  | queued => rfl
  | rejected reason => rfl
  | awaiting job => rfl
  | returned result => cases h
  | closed result => cases h

/-- What holds of the tasks of a service, after the observer has seen some results. -/
structure OwnedBy (seen : List (Text × DirectoryRefreshResult)) (v : DirectoryService) : Prop where
  numbered : v.tasks.map (·.1) = List.range v.tasks.length
  keys : (v.pending.map (·.1)).Nodup
  bounded : v.pending.length ≤ 80
  owned : ∀ origin id, (origin, id) ∈ v.pending ↔
    ∃ task, (id, task) ∈ v.tasks ∧ task.origin = origin ∧ task.phase.isOpen
  told : seen.Subperm (results v)

theorem OwnedBy.nodup (h : OwnedBy seen v) : (v.tasks.map (·.1)).Nodup := by
  rw [h.numbered]
  exact List.nodup_range

/-- A task has one number. -/
theorem OwnedBy.task_eq (h : OwnedBy seen v) (hmem : (id, task) ∈ v.tasks) (hmem' : (id, task') ∈ v.tasks) :
    task = task' := by
  have hlookup := OrderedMap.lookup_of_mem h.nodup hmem
  rw [OrderedMap.lookup_of_mem h.nodup hmem'] at hlookup
  exact (Option.some.inj hlookup).symm

theorem ownedBy_create (format : JwksFormat) (openMode : Bool) (allowedOrigins : List Text)
    (options : DirectoryCacheConfiguration) :
    OwnedBy [] (.create format openMode allowedOrigins options) :=
  ⟨rfl, List.nodup_nil, Nat.zero_le _, by simp [DirectoryService.create], List.nil_subperm⟩

/-! ## Steps -/

theorem OwnedBy.congr (h : OwnedBy seen v) (htasks : v'.tasks = v.tasks) (hpending : v'.pending = v.pending) :
    OwnedBy seen v' := by
  refine ⟨htasks ▸ h.numbered, hpending ▸ h.keys, hpending ▸ h.bounded, ?_, ?_⟩
  · rw [htasks, hpending]
    exact h.owned
  · unfold results
    rw [htasks]
    exact h.told

theorem OwnedBy.retains (h : OwnedBy seen v) (hretains : Retains v v') : OwnedBy seen v' :=
  h.congr hretains.tasks hretains.pending

/-- A task is made for an origin that no task owns. -/
theorem OwnedBy.register (h : OwnedBy seen v) (hpending : OrderedMap.lookup v.pending origin = none)
    (hlength : v.pending.length < 80) (started : ℚ) : OwnedBy seen (v.register origin started).1 := by
  have hfree : origin ∉ v.pending.map (·.1) := by
    intro hmem
    have hsome := OrderedMap.lookup_isSome.mpr hmem
    rw [hpending] at hsome
    cases hsome
  have hset : (v.register origin started).1.pending = v.pending ++ [(origin, v.tasks.length)] :=
    OrderedMap.set_of_notMem hfree _
  have htasks : (v.register origin started).1.tasks =
      v.tasks ++ [(v.tasks.length, ⟨origin, started, .queued⟩)] := rfl
  constructor
  case numbered =>
    rw [htasks, List.map_append, h.numbered, List.length_append, List.length_singleton, List.range_succ]
    rfl
  case keys =>
    rw [hset, List.map_append, List.map_singleton, ← List.concat_eq_append]
    exact h.keys.concat hfree
  case bounded =>
    rw [hset, List.length_append, List.length_singleton]
    exact hlength
  case owned =>
    intro origin' id'
    rw [hset, htasks, List.mem_append, h.owned]
    constructor
    · rintro (⟨task, htask, horigin, hopen⟩ | hnew)
      · exact ⟨task, List.mem_append_left _ htask, horigin, hopen⟩
      · obtain ⟨rfl, rfl⟩ := Prod.mk.inj (List.mem_singleton.mp hnew)
        exact ⟨_, List.mem_append_right _ (List.mem_singleton_self _), rfl, rfl⟩
    · rintro ⟨task, htask, horigin, hopen⟩
      rcases List.mem_append.mp htask with htask | htask
      · exact .inl ⟨task, htask, horigin, hopen⟩
      · obtain ⟨rfl, rfl⟩ := Prod.mk.inj (List.mem_singleton.mp htask)
        subst horigin
        exact .inr (List.mem_singleton_self _)
  case told =>
    have hresults : results (v.register origin started).1 = results v := by
      rw [results, htasks, List.flatMap_append]
      exact List.append_nil _
    rw [hresults]
    exact h.told

/-- What the tasks have returned, when one of them is set. -/
theorem results_set (h : OwnedBy seen v) (hmem : (id, task) ∈ v.tasks) (task' : RefreshTask) :
    ∃ rest, (results v).Perm (task.results ++ rest) ∧
      ((OrderedMap.set v.tasks id task').flatMap (·.2.results)).Perm (task'.results ++ rest) := by
  refine ⟨(v.tasks.filter (·.1 ≠ id)).flatMap (·.2.results), ?_, ?_⟩
  · exact (OrderedMap.perm_cons_filter_ne h.nodup hmem).flatMap_right _
  · have hset := OrderedMap.perm_cons_filter_ne (OrderedMap.nodup_keys_set h.nodup id task')
      OrderedMap.mem_set_self
    rw [OrderedMap.filter_ne_set] at hset
    exact hset.flatMap_right _

/-- The numbers stay when a task is set. -/
theorem OwnedBy.numbered_set (h : OwnedBy seen v) (hmem : (id, task) ∈ v.tasks) (task' : RefreshTask) :
    (OrderedMap.set v.tasks id task').map (·.1) =
      List.range (OrderedMap.set v.tasks id task').length := by
  have hkeys : (OrderedMap.set v.tasks id task').map (·.1) = v.tasks.map (·.1) := by
    rw [OrderedMap.keys_set, if_pos (List.mem_map_of_mem (f := (·.1)) hmem)]
  have hlength := congrArg List.length hkeys
  rw [List.length_map, List.length_map] at hlength
  rw [hkeys, hlength, h.numbered]

/-- A task goes on, and keeps its origin. -/
theorem OwnedBy.move (h : OwnedBy seen v) (hmem : (id, task) ∈ v.tasks)
    (hresult : task.phase.result? = none) (hopen : phase.isOpen)
    (hevents : events = [] ∨ ∃ result, phase = .returned result ∧ events = Discovery.told task.origin result) :
    OwnedBy (seen ++ events)
      { v with tasks := OrderedMap.set v.tasks id { task with phase } } := by
  constructor
  case numbered => exact h.numbered_set hmem _
  case keys => exact h.keys
  case bounded => exact h.bounded
  case owned =>
    intro origin id'
    rw [h.owned]
    constructor
    · rintro ⟨task', htask', horigin, hopen'⟩
      by_cases hid : id' = id
      · subst hid
        obtain rfl := h.task_eq hmem htask'
        exact ⟨_, OrderedMap.mem_set_self, horigin, hopen⟩
      · exact ⟨task', OrderedMap.mem_set_of_ne htask' hid, horigin, hopen'⟩
    · rintro ⟨task', htask', horigin, hopen'⟩
      rcases OrderedMap.mem_set htask' with htask' | hnew
      · exact ⟨task', htask', horigin, hopen'⟩
      · obtain ⟨rfl, rfl⟩ := Prod.mk.inj hnew
        exact ⟨task, hmem, horigin, isOpen_of_result? hresult⟩
  case told =>
    obtain ⟨rest, hbefore, hafter⟩ := results_set h hmem { task with phase }
    have hseen : seen.Subperm rest := by
      have hnone : task.results = [] := by
        rw [RefreshTask.results, hresult]
        rfl
      rw [hnone] at hbefore
      exact h.told.trans hbefore.subperm
    have hmore : events.Subperm (RefreshTask.results { task with phase }) := by
      rcases hevents with rfl | ⟨result, rfl, rfl⟩
      · exact List.nil_subperm
      · exact List.Subperm.refl _
    have happend := (hseen.append hmore).trans List.perm_append_comm.subperm
    exact happend.trans hafter.symm.subperm

/-- A task that has returned gives its origin back. -/
theorem OwnedBy.close (h : OwnedBy seen v) (hmem : (id, task) ∈ v.tasks)
    {result : Except DirectoryError DirectoryRefreshResult} (hphase : task.phase = .returned result) :
    OwnedBy seen { v with
      pending := v.pending.filter (·.1 ≠ task.origin)
      tasks := OrderedMap.set v.tasks id { task with phase := .closed result } } := by
  have hopen : task.phase.isOpen := by
    rw [hphase]
    rfl
  constructor
  case numbered => exact h.numbered_set hmem _
  case keys => exact h.keys.sublist (List.filter_sublist.map _)
  case bounded => exact (List.length_filter_le _ _).trans h.bounded
  case owned =>
    intro origin id'
    rw [List.mem_filter, h.owned]
    simp only [ne_eq, decide_not, Bool.not_eq_true', decide_eq_false_iff_not]
    constructor
    · rintro ⟨⟨task', htask', rfl, hopen'⟩, hne⟩
      refine ⟨task', OrderedMap.mem_set_of_ne htask' ?_, rfl, hopen'⟩
      rintro rfl
      exact hne (congrArg RefreshTask.origin (h.task_eq htask' hmem))
    · rintro ⟨task', htask', rfl, hopen'⟩
      have hid : id' ≠ id := by
        rintro rfl
        have hset := OrderedMap.lookup_of_mem (OrderedMap.nodup_keys_set h.nodup _ _) htask'
        rw [OrderedMap.lookup_set, if_pos rfl] at hset
        obtain rfl := Option.some.inj hset
        cases hopen'
      have hold : (id', task') ∈ v.tasks := (OrderedMap.mem_set htask').resolve_right
        fun hnew => hid (Prod.mk.inj hnew).1
      refine ⟨⟨task', hold, rfl, hopen'⟩, fun horigin => hid ?_⟩
      -- two open tasks of one origin are one task
      have hpending := OrderedMap.lookup_of_mem h.keys ((h.owned _ _).mpr ⟨task', hold, rfl, hopen'⟩)
      rw [horigin, OrderedMap.lookup_of_mem h.keys ((h.owned _ _).mpr ⟨task, hmem, rfl, hopen⟩)] at hpending
      exact (Option.some.inj hpending).symm
  case told =>
    obtain ⟨rest, hbefore, hafter⟩ := results_set h hmem { task with phase := .closed result }
    have hsame : RefreshTask.results { task with phase := .closed result } = task.results := by
      unfold RefreshTask.results
      rw [hphase]
      rfl
    rw [hsame] at hafter
    exact h.told.trans (hbefore.trans hafter.symm).subperm

/-- **Every step of a service keeps what holds of its tasks.** -/
theorem OwnedBy.step (h : OwnedBy seen v) {known : Job → Prop} (hstep : ServiceStep O known v v' events) :
    OwnedBy (seen ++ events) v' := by
  cases hstep with
  | retains hretains =>
    rw [List.append_nil]
    exact h.retains hretains
  | registers _ hretains hpending hlength =>
    rw [List.append_nil]
    exact (h.retains hretains).register (hretains.pending ▸ hpending) (hretains.pending ▸ hlength) _
  | moves hretains htask hresult hopen _ hevents =>
    rw [setPhase_of_lookup (hretains.tasks ▸ htask)]
    exact (h.retains hretains).move (hretains.tasks ▸ OrderedMap.mem_of_lookup htask) hresult hopen hevents
  | closes htask hphase =>
    rw [List.append_nil, close_of_lookup htask]
    exact h.close (OrderedMap.mem_of_lookup htask) hphase

/-! ## Runs -/

theorem exists_of_forall₂ {R : DirectoryService → DirectoryService → Prop}
    {services services' : List DirectoryService} (h : List.Forall₂ R services services')
    (hv : services'[i]? = some v') : ∃ v, services[i]? = some v ∧ R v v' := by
  induction h generalizing i with
  | nil => cases hv
  | cons hhead _ ih =>
    cases i with
    | zero =>
      obtain rfl := Option.some.inj hv
      exact ⟨_, rfl, hhead⟩
    | succ i => exact ih hv

theorem emissions_deliveryEvents (job : Job) (outcome : Except DeliveryError (DirectoryTransportResult ρ)) :
    emissions i (DiscoverySystem.deliveryEvents job outcome) = [] := by
  rcases outcome with e | response | reason <;> rfl

theorem ownedBy_run (hO : O.Consistent) (hrun : DiscoveryRun read O A es s) (hv : s.services[i]? = some v) :
    OwnedBy (emissions i es) v := by
  induction hrun generalizing v with
  | init hfresh =>
    obtain ⟨-, -, hservices⟩ := hfresh.initial
    obtain ⟨options, rfl⟩ := hservices v (List.mem_of_getElem? hv)
    exact ownedBy_create _ _ _ _
  | step hrun hstep ih =>
    obtain ⟨action, hstep⟩ := hstep
    rw [emissions_append]
    cases systemStep_of_step hO hstep with
    | @serves service w w' events hservice hserved ht _ _ _ hevents =>
      rw [hevents]
      rw [ht] at hv
      by_cases hi : service = i
      · subst hi
        rw [List.getElem?_set_self (List.getElem?_eq_some_iff.mp hservice).1] at hv
        obtain rfl := Option.some.inj hv
        rw [if_pos rfl]
        exact (ih hservice).step hserved
      · rw [List.getElem?_set_ne hi] at hv
        rw [if_neg hi, List.append_nil]
        exact ih hv
    | @delivers job origin startedAt samples settlement _ hdelivery _ ht hfs =>
      subst ht hfs
      obtain ⟨⟨rfl, rfl, -⟩, hdelivers, -⟩ := (distributedOf_run hO hrun).deliver read hdelivery
        samples settlement
      rw [emissions_deliveryEvents, List.append_nil]
      obtain ⟨w, hw, htasks, hpending⟩ := exists_of_forall₂ hdelivers.tasks hv
      exact (ih hw).congr htasks hpending
    | schedules _ _ ht hfs =>
      subst ht hfs
      rw [show emissions i [] = [] from rfl, List.append_nil]
      exact ih hv

/-- The origins that are pending are those of the open tasks. -/
theorem OwnedBy.perm_pending (h : OwnedBy seen v) :
    ((openTasks v).map fun e => (e.2.origin, e.1)).Perm v.pending := by
  have hopen : ((openTasks v).map (·.1)).Nodup := h.nodup.sublist (List.filter_sublist.map _)
  refine (List.perm_ext_iff_of_nodup ?_ h.keys.of_map).mpr fun e => ?_
  · refine List.Nodup.of_map (·.2) ?_
    rw [List.map_map]
    exact hopen
  · obtain ⟨origin, id⟩ := e
    rw [h.owned, List.mem_map]
    constructor
    · rintro ⟨⟨id, task⟩, htask, heq⟩
      obtain ⟨rfl, rfl⟩ := Prod.mk.inj heq
      obtain ⟨htask, hopen⟩ := List.mem_filter.mp htask
      exact ⟨task, htask, rfl, hopen⟩
    · rintro ⟨task, htask, rfl, hopen⟩
      exact ⟨(id, task), List.mem_filter.mpr ⟨htask, hopen⟩, rfl⟩

theorem openTasks_congr (h : v'.tasks = v.tasks) : openTasks v' = openTasks v := congrArg (List.filter _) h

/-- What a caller of `refresh` is given. -/
theorem refresh_of_step {samples : ℕ → Sample} {call : Except DirectoryError RefreshCall}
    (hv : s.services[i]? = some v)
    (h : discoveryStep read O A s (.refresh i originInput samples) = some (t, [.answered i call])) :
    t.services[i]? = some (v.refresh O originInput (samples 0) (samples 1)).1 ∧
      (v.refresh O originInput (samples 0) (samples 1)).2 = call := by
  unfold discoveryStep serviceStep DiscoveryAction.scheduler? at h
  dsimp only at h
  split at h
  · obtain ⟨w, hw, hresult⟩ := Option.map_eq_some_iff.mp h
    rw [hv] at hw
    obtain rfl := Option.some.inj hw
    obtain ⟨rfl, hevents⟩ := Prod.mk.inj hresult
    obtain ⟨-, hcall⟩ := DiscoveryEvent.answered.inj (List.singleton_inj.mp hevents)
    exact ⟨List.getElem?_set_self (List.getElem?_eq_some_iff.mp hv).1, hcall⟩
  · cases h

/-- **A service refreshes an origin once at a time, and tells every result once.** In every run the open tasks of
a service are at most 80 and of different origins, and the observer has been told no more than what the tasks
have returned, each result once. A caller that is given a task shares the one that owns its origin, and only
where no task owned it, one has been made. -/
theorem refresh_ownership (hO : O.Consistent) (hrun : DiscoveryRun read O A es s)
    (hv : s.services[i]? = some v) :
    (((openTasks v).map (·.2.origin)).Nodup ∧ (openTasks v).length ≤ 80 ∧
      (emissions i es).Subperm (results v)) ∧
    ∀ originInput samples t id, discoveryStep read O A s (.refresh i originInput samples) =
        some (t, [.answered i (.ok (.task id))]) →
      ∃ origin v' task, DirectoryService.canonicalOrigin O originInput = .ok origin ∧
        t.services[i]? = some v' ∧ (id, task) ∈ openTasks v' ∧ task.origin = origin ∧
        ((id, task) ∈ openTasks v ∧ v'.tasks = v.tasks ∨
          (∀ e ∈ openTasks v, e.2.origin ≠ origin) ∧ v'.tasks = v.tasks ++ [(id, task)]) := by
  have h := ownedBy_run hO hrun hv
  have horigins : (openTasks v).map (·.2.origin) = ((openTasks v).map fun e => (e.2.origin, e.1)).map (·.1) := by
    rw [List.map_map]
    rfl
  refine ⟨⟨?_, ?_, h.told⟩, ?_⟩
  · rw [horigins]
    exact (h.perm_pending.map _).nodup_iff.mpr h.keys
  · have hlength := h.perm_pending.length_eq
    rw [List.length_map] at hlength
    exact hlength ▸ h.bounded
  intro originInput samples t id hstep
  obtain ⟨ht, hcall⟩ := refresh_of_step hv hstep
  have hrefresh := refresh_spec (O := O) v originInput (samples 0) (samples 1)
  rw [hcall] at hrefresh
  -- the call joins a task or makes one: a call that is refused returns none
  generalize (v.refresh O originInput (samples 0) (samples 1)).1 = v' at ht hrefresh
  cases hrefresh with
  | refused _ hnone => exact absurd rfl (hnone id)
  | @joins _ origin _ horigin hretains hpending =>
    obtain ⟨task, htask, rfl, hopen⟩ := (h.owned _ _).mp (OrderedMap.mem_of_lookup hpending)
    have hmem : (id, task) ∈ openTasks v := List.mem_filter.mpr ⟨htask, hopen⟩
    exact ⟨_, v', task, horigin, ht, openTasks_congr hretains.tasks ▸ hmem, rfl, .inl ⟨hmem, hretains.tasks⟩⟩
  | @registers w origin started horigin hretains hpending _ =>
    have htasks : (w.register origin started).1.tasks =
        v.tasks ++ [(w.tasks.length, ⟨origin, started, .queued⟩)] := congrArg (· ++ _) hretains.tasks
    refine ⟨origin, _, _, horigin, ht, ?_, rfl, .inr ⟨?_, htasks⟩⟩
    · rw [openTasks, htasks]
      exact List.mem_filter.mpr ⟨List.mem_append_right _ (List.mem_singleton_self _), rfl⟩
    · rintro ⟨id', task⟩ htask rfl
      obtain ⟨htask, hopen⟩ := List.mem_filter.mp htask
      have hnone := OrderedMap.lookup_of_mem h.keys ((h.owned _ _).mpr ⟨task, htask, rfl, hopen⟩)
      rw [hpending] at hnone
      cases hnone

/-- Another call for the origin of a task, in other letters. -/
def sharedRefresh : DiscoveryAction Unit := .refresh 0 (ascii "https://A.EXAMPLE") fun _ => some 2

theorem refresh_ownership_sharedActions : ∃ es s v t,
    DiscoveryRun documentRead spelledOrigins .exact es s ∧ s.services[0]? = some v ∧
    discoveryStep documentRead spelledOrigins .exact s sharedRefresh =
      some (t, [.answered 0 (.ok (.task 0))]) ∧
    (openTasks v).length ≤ 80 ∧ ∃ v' task, t.services[0]? = some v' ∧ (0, task) ∈ openTasks v' := by
  have hrun : (runAll (discoveryStep documentRead spelledOrigins .exact) sharedActions bothFormats []).any
      fun r => r.1.services[0]?.isSome &&
        (discoveryStep documentRead spelledOrigins .exact r.1 sharedRefresh).any fun q =>
          q.2 = [.answered 0 (.ok (.task 0))] := by
    decide +kernel
  obtain ⟨⟨s, es⟩, hsome, hboth⟩ := (Option.any_eq_true _ _).mp hrun
  obtain ⟨hservice, hstep⟩ := Bool.and_eq_true_iff.mp hboth
  obtain ⟨v, hv⟩ := Option.isSome_iff_exists.mp hservice
  obtain ⟨⟨t, fs⟩, hstep, hfs⟩ := (Option.any_eq_true _ _).mp hstep
  obtain rfl := of_decide_eq_true hfs
  have hfresh : bothFormats.Fresh := ⟨[openService .jwks, openService .wgDirectory00], rfl⟩
  obtain ⟨⟨-, hbound, -⟩, hshared⟩ := refresh_ownership spelledOrigins_consistent
    (Run.runAll (.init hfresh) hsome) hv
  obtain ⟨_, v', task, -, hv', htask, -⟩ := hshared _ _ _ _ hstep
  exact ⟨es, s, v, t, Run.runAll (.init hfresh) hsome, hv, hstep, hbound, v', task, hv', htask⟩

end AgentSig.Discovery
