import AgentSig.Discovery.DirectoryService

/-!
# The discovery system

The services of a context and the transport that they share. A step is an event and the code that runs from
it to the next await: a call, the start of a task, the delivery of a response to all services, the end of a
task, or a step of the scheduler.

## Main definitions

* `prepareAll`, `commitAll`, `distribute`: the delivery of a response
* `DiscoverySystem`, `discoveryStep`: the system
* `DiscoveryRun`: its runs, from a transport with at most two participants
-/

namespace AgentSig.Discovery

open Commons Profiles StructuredFields

/-- A call of `resolve` that awaits a refresh. -/
structure ResolveTask where
  service : ℕ
  origin : Text
  thumbprint : Text
  call : RefreshCall
  deriving DecidableEq, Repr

/-- The services of a context, the transport that they share, the budgets that are spent, and the calls of
`resolve` that await a refresh. -/
structure DiscoverySystem (ρ : Type) where
  transport : DirectoryTransport ρ
  services : List DirectoryService
  spent : List ℕ
  resolving : List ResolveTask

/-- The options of a service, resolved. -/
structure ServiceOptions where
  format : JwksFormat
  openMode : Bool
  allowedOrigins : List Text
  options : DirectoryCacheConfiguration

/-- What the history of a system records: what a call of `refresh` or of `recheck` has returned, that the
response of a job has been distributed, what the observer of a service is told, and how `resolve` ends. -/
inductive DiscoveryEvent
  | answered (service : ℕ) (call : Except DirectoryError RefreshCall)
  | distributed (job : Job)
  | emitted (service : ℕ) (origin : Text) (result : DirectoryRefreshResult)
  | resolved (service : ℕ) (thumbprint : Text) (resolution : Except DirectoryError DirectoryResolution)
  | rechecked (service : ℕ) (selection : DirectoryKeySelection) (result : Bool)
  deriving DecidableEq, Repr

/-- What happens next, with the samples that the clock shows one after the other. A budget is told by a
number, and so is a call of `resolve`, by its position among those that await a refresh. -/
inductive DiscoveryAction (ρ : Type)
  | refresh (service : ℕ) (originInput : Text) (samples : ℕ → Sample)
  | begin (service task : ℕ) (samples : ℕ → Sample)
  | deliver (job : Job) (samples : ℕ → Sample)
  | finish (service task : ℕ) (samples : ℕ → Sample)
  | close (service task : ℕ)
  | resolve (service budget : ℕ) (originInput thumbprint : Text) (samples : ℕ → Sample)
  | resolveRefreshed (call : ℕ) (sample : Sample)
  | recheck (service : ℕ) (selection : DirectoryKeySelection) (samples : ℕ → Sample)
  | expire (job : Job)
  | wake
  | strayWake
  | fetched (job : Job) (outcome : Except FetchError ρ) (sample : Sample)
  | round (sample second : Sample)

namespace DiscoverySystem

variable {ρ : Type} (read : JwksFormat → ρ → Except DirectoryError PreparedDirectory)
  (O : OriginPlatform) (A : Rounding)

/-- A new transport without participants. -/
def create : DiscoverySystem ρ := ⟨.create, [], [], []⟩

/-- `register`, of a new service. -/
def register (s : DiscoverySystem ρ) (options : ServiceOptions) :
    Except DirectoryError (DiscoverySystem ρ) := do
  require (s.transport.started = false ∧ s.services.length < 2)
    (.profile (.internal "Directory response participants are already fixed"))
  return { s with
    services := s.services ++
      [.create options.format options.openMode options.allowedOrigins options.options] }

/-- The system with another state of a service. -/
def setService (s : DiscoverySystem ρ) (service : ℕ) (v : DirectoryService) : DiscoverySystem ρ :=
  { s with services := s.services.set service v }

/-! ## Deliveries -/

/-- `this.#participants.map((prepare) => prepare(origin, result.response))`. -/
def prepareAll (response : ρ) :
    List DirectoryService → List DirectoryService × Except DirectoryError (List PreparedCommit)
  | [] => ([], .ok [])
  | v :: rest =>
    match v.prepareResponse read response with
    | (v, .error e) => (v :: rest, .error e)
    | (v, .ok commit) =>
      match prepareAll response rest with
      | (rest, .error e) => (v :: rest, .error e)
      | (rest, .ok commits) => (v :: rest, .ok (commit :: commits))

/-- `for (const commit of commits) commit()`. -/
def commitAll (job : Job) (origin : Text) : (samples : ℕ → Sample) → List DirectoryService →
    List PreparedCommit → List DirectoryService × Except DirectoryError Unit
  | samples, v :: rest, commit :: commits =>
    match v.commitResponse O A job origin (samples 0) commit with
    | (v, .error e) => (v :: rest, .error e)
    | (v, .ok ()) =>
      let committed := commitAll job origin (fun n => samples (n + 1)) rest commits
      (v :: committed.1, committed.2)
  | _, services, _ => (services, .ok ())

/-- What runs when the promise of a job has been settled. -/
def distribute (s : DiscoverySystem ρ) (job : Job) (origin : Text) (startedAt : ℚ) (samples : ℕ → Sample) :
    Except DirectoryAdmissionReason (DirectoryTransportResult ρ) →
      DiscoverySystem ρ × Except DeliveryError (DirectoryTransportResult ρ)
  | .error reason => (s, .error (.admission reason))
  | .ok result =>
    match s.transport.checkDeadline A startedAt (samples 0) with
    | (transport, .error reason) => ({ s with transport }, .error (.admission reason))
    | (transport, .ok ()) =>
      match result with
      | .failed reason => ({ s with transport }, .ok (.failed reason))
      | .response response =>
        match prepareAll read response s.services with
        | (services, .error e) => ({ s with transport, services }, .error (.thrown e))
        | (services, .ok commits) =>
          match transport.checkDeadline A startedAt (samples 1) with
          | (transport, .error reason) =>
            ({ s with transport, services }, .error (.admission reason))
          | (transport, .ok ()) =>
            match commitAll O A job origin (fun n => samples (n + 2)) services commits with
            | (services, .error e) => ({ s with transport, services }, .error (.thrown e))
            | (services, .ok ()) => ({ s with transport, services }, .ok (.response response))

/-- A response that was delivered has been distributed. -/
def deliveryEvents (job : Job) :
    Except DeliveryError (DirectoryTransportResult ρ) → List DiscoveryEvent
  | .ok (.response _) => [.distributed job]
  | _ => []

/-- The end of a delivery. -/
def setOutcome (s : DiscoverySystem ρ) (job : Job) (delivery : Delivery ρ)
    (outcome : Except DeliveryError (DirectoryTransportResult ρ)) : DiscoverySystem ρ :=
  { s with transport := { s.transport with
    deliveries := OrderedMap.set s.transport.deliveries job { delivery with outcome := some outcome } } }

/-- The callback of a delivery. -/
def deliver (s : DiscoverySystem ρ) (job : Job) (samples : ℕ → Sample) :
    Option (DiscoverySystem ρ × List DiscoveryEvent) :=
  match OrderedMap.lookup s.transport.deliveries job,
    (s.transport.scheduler.scheduler.state job).settlements.head? with
  | some ⟨origin, startedAt, none⟩, some settlement =>
    let distributed := s.distribute read O A job origin startedAt samples settlement
    some (distributed.1.setOutcome job ⟨origin, startedAt, none⟩ distributed.2,
      deliveryEvents job distributed.2)
  | _, _ => none

/-! ## Tasks -/

/-- The start of `#refresh`, up to its await. -/
def beginTask (s : DiscoverySystem ρ) (service : ℕ) (v : DirectoryService) (id : ℕ) (task : RefreshTask)
    (samples : ℕ → Sample) : DiscoverySystem ρ × List DiscoveryEvent :=
  match v.begin A task.started (samples 0) with
  | (v, some result) => (s.setService service (v.setPhase id (.returned (.ok result))), [])
  | (v, none) =>
    match s.transport.run O A task.origin task.started (samples 1) with
    | (transport, .promise job) =>
      ({ s with transport }.setService service (v.setPhase id (.awaiting job)), [])
    | (transport, .rejected reason) =>
      ({ s with transport }.setService service (v.setPhase id (.rejected reason)), [])
    | (transport, .threw e) =>
      match v.finish (ρ := ρ) O A id task none (.error (.thrown (.profile e))) (samples 2) (samples 3) with
      | (v, .ok result) =>
        ({ s with transport }.setService service v, [.emitted service task.origin result])
      | (v, .error _) => ({ s with transport }.setService service v, [])

/-- The end of `#refresh`, if its await has ended. -/
def finishTask (s : DiscoverySystem ρ) (service : ℕ) (v : DirectoryService) (id : ℕ) (task : RefreshTask)
    (samples : ℕ → Sample) : Option (DiscoverySystem ρ × List DiscoveryEvent) :=
  let awaited : Option (Option Job × Except DeliveryError (DirectoryTransportResult ρ)) :=
    match task.phase with
    | .rejected reason => some (none, .error (.admission reason))
    | .awaiting job =>
      ((OrderedMap.lookup s.transport.deliveries job).bind (·.outcome)).map fun outcome => (some job, outcome)
    | _ => none
  awaited.map fun (job, outcome) =>
    match v.finish O A id task job outcome (samples 0) (samples 1) with
    | (v, .ok result) => (s.setService service v, [.emitted service task.origin result])
    | (v, .error _) => (s.setService service v, [])

/-- The result of a refresh that is awaited. -/
def awaitedRefresh (v : DirectoryService) : RefreshCall → Option (Except DirectoryError DirectoryRefreshResult)
  | .settled result => some (.ok result)
  | .task id =>
    match OrderedMap.lookup v.tasks id with
    | some ⟨_, _, .closed result⟩ => some result
    | _ => none

/-- The end of a call of `resolve`, if its await has ended. -/
def resolveTask (s : DiscoverySystem ρ) (index : ℕ) (task : ResolveTask) (v : DirectoryService)
    (sample : Sample) : Option (DiscoverySystem ρ × List DiscoveryEvent) :=
  (awaitedRefresh v task.call).map fun
    | .error e => ({ s with resolving := s.resolving.eraseIdx index },
      [.resolved task.service task.thumbprint (.error e)])
    | .ok result =>
      let resolved := v.resolveRefreshed O A task.origin task.thumbprint result sample
      ({ s with resolving := s.resolving.eraseIdx index }.setService task.service resolved.1,
        [.resolved task.service task.thumbprint resolved.2])

/-- A call of `resolve`, up to its await. -/
def startResolve (s : DiscoverySystem ρ) (service : ℕ) (v : DirectoryService) (budget : ℕ)
    (originInput thumbprint : Text) (samples : ℕ → Sample) : DiscoverySystem ρ × List DiscoveryEvent :=
  match v.resolve O A (s.spent.contains budget) originInput thumbprint samples with
  | (v, spent, call) =>
    let paid := { s with spent := if spent then budget :: s.spent else s.spent }.setService service v
    match call with
    | .error e => (paid, [.resolved service thumbprint (.error e)])
    | .ok (.settled resolution) => (paid, [.resolved service thumbprint (.ok resolution)])
    | .ok (.refreshing origin call) =>
      ({ paid with resolving := paid.resolving ++ [⟨service, origin, thumbprint, call⟩] }, [])

end DiscoverySystem

/-! ## Steps -/

section Steps

variable {ρ : Type} (read : JwksFormat → ρ → Except DirectoryError PreparedDirectory)
  (O : OriginPlatform) (A : Rounding)

/-- The action of the scheduler. -/
def DiscoveryAction.scheduler? : DiscoveryAction ρ → Option (SchedulerAction (DirectoryTransportResult ρ))
  | .expire job => some (.expire job)
  | .wake => some .wake
  | .strayWake => some .strayWake
  | .fetched job outcome sample => some (.settle job (some (classifyFetch outcome)) sample)
  | .round sample second => some (.round sample second .pending)
  | _ => none

/-- A step of a service or of a delivery, if the action is one of the state. -/
def serviceStep (s : DiscoverySystem ρ) :
    DiscoveryAction ρ → Option (DiscoverySystem ρ × List DiscoveryEvent)
  | .refresh service originInput samples =>
    s.services[service]?.map fun v =>
      let refreshed := v.refresh O originInput (samples 0) (samples 1)
      (s.setService service refreshed.1, [.answered service refreshed.2])
  | .begin service id samples =>
    match s.services[service]? with
    | some v =>
      match OrderedMap.lookup v.tasks id with
      | some task =>
        if task.phase = .queued then some (s.beginTask O A service v id task samples) else none
      | none => none
    | none => none
  | .deliver job samples => s.deliver read O A job samples
  | .finish service id samples =>
    match s.services[service]? with
    | some v =>
      match OrderedMap.lookup v.tasks id with
      | some task => s.finishTask O A service v id task samples
      | none => none
    | none => none
  | .close service id =>
    match s.services[service]? with
    | some v =>
      match OrderedMap.lookup v.tasks id with
      | some ⟨origin, _, .returned result⟩ => some (s.setService service (v.close id origin result), [])
      | _ => none
    | none => none
  | .resolve service budget originInput thumbprint samples =>
    s.services[service]?.map fun v => s.startResolve O A service v budget originInput thumbprint samples
  | .resolveRefreshed index sample =>
    match s.resolving[index]? with
    | some task =>
      match s.services[task.service]? with
      | some v => s.resolveTask O A index task v sample
      | none => none
    | none => none
  | .recheck service selection samples =>
    s.services[service]?.map fun v =>
      let rechecked := v.recheck A selection (samples 0) (samples 1)
      (s.setService service rechecked.1, [.rechecked service selection rechecked.2])
  | _ => none

/-- A step of the system. While a loop of `#pump` runs, nothing else does. -/
def discoveryStep (s : DiscoverySystem ρ) (action : DiscoveryAction ρ) :
    Option (DiscoverySystem ρ × List DiscoveryEvent) :=
  match action.scheduler? with
  | some action =>
    (schedulerStep O A s.transport.scheduler action).map fun stepped =>
      ({ s with transport := { s.transport with scheduler := stepped.1 } }, [])
  | none => if s.transport.scheduler.loops = none then serviceStep read O A s action else none

/-- A transport with its participants, before it is used. -/
def DiscoverySystem.Fresh (s : DiscoverySystem ρ) : Prop :=
  ∃ options : List ServiceOptions, options.foldlM DiscoverySystem.register .create = .ok s

/-- The runs of a context. -/
abbrev DiscoveryRun : List DiscoveryEvent → DiscoverySystem ρ → Prop :=
  Run DiscoverySystem.Fresh fun s events t => ∃ action, discoveryStep read O A s action = some (t, events)

end Steps

end AgentSig.Discovery
