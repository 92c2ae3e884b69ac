import AgentSig.Discovery.DirectoryTransport
import AgentSig.Profiles.JwkPolicy
import AgentSig.Profiles.Metadata

/-!
# The directory service

A service resolves keys of one format. Its cache is changed by the responses that the shared transport
distributes, and by the failures of its own refreshes. There is one refresh for an origin at a time, for all
callers, and a call of `verify` pays for a refresh with its budget, whether it starts or joins it.

The code runs to completion between two awaits. So an operation is the part of a function from its start, or
from an await, to the next await.

## Main definitions

* `DirectoryService`: the state of a service
* `prepareResponse`, `commitResponse`: the participant of a service, and what it returns
* `refresh`, `begin`, `finish`: `refresh` and `#refresh`, between their awaits
* `resolve`, `resolveRefreshed`, `recheck`: the other operations
-/

namespace AgentSig.Discovery

open Commons Profiles StructuredFields

/-- `RefreshFailure`. -/
inductive RefreshFailure
  | invalidJwks
  | addressDenied
  | transportFailed
  | deadline
  | clock
  | originDenied
  | backoff
  | capacity
  | originRate
  deriving DecidableEq, Repr

/-- A failure of the transport, as a failure of a refresh. -/
def TransportFailure.refreshFailure : TransportFailure → RefreshFailure
  | .addressDenied => .addressDenied
  | .transportFailed => .transportFailed

/-- `error.reason === "fetch-failed" ? "transport-failed" : error.reason`. -/
def DirectoryAdmissionReason.refreshFailure : DirectoryAdmissionReason → RefreshFailure
  | .capacity => .capacity
  | .originRate => .originRate
  | .deadline => .deadline
  | .clock => .clock
  | .fetchFailed => .transportFailed

/-- `DirectoryDocumentDiagnostic`. -/
structure DirectoryDocumentDiagnostic where
  rule : String
  keyIndex : Option ℕ
  deriving DecidableEq, Repr

/-- `DirectoryRefreshResult`. -/
inductive DirectoryRefreshResult
  | completed (persisted : Bool)
  | failed (reason : RefreshFailure) (diagnostic : Option DirectoryDocumentDiagnostic)
  deriving DecidableEq, Repr

/-- `failed`, without a diagnostic. -/
abbrev failed (reason : RefreshFailure) : DirectoryRefreshResult := .failed reason none

/-- What a participant returns for a response: the commit of a ticket, or the back-off for a document that
its format rejects. -/
inductive PreparedCommit
  | evidence (ticket : ℕ)
  | invalid (diagnostic : DirectoryDocumentDiagnostic)
  deriving DecidableEq, Repr

/-- Where a call of `#refresh` stands: it has not run yet, it awaits a promise that is rejected or the
delivery of a job, or it has returned; and then its origin is free again. -/
inductive RefreshPhase
  | queued
  | rejected (reason : DirectoryAdmissionReason)
  | awaiting (job : Job)
  | returned (result : Except DirectoryError DirectoryRefreshResult)
  | closed (result : Except DirectoryError DirectoryRefreshResult)
  deriving DecidableEq, Repr

/-- A call of `#refresh`. -/
structure RefreshTask where
  origin : Text
  started : ℚ
  phase : RefreshPhase
  deriving DecidableEq, Repr

/-- What `refresh` returns: a promise that is fulfilled, or the promise of a task. -/
inductive RefreshCall
  | settled (result : DirectoryRefreshResult)
  | task (id : ℕ)
  deriving DecidableEq, Repr

/-- `DirectoryResolution`; the reason is `unknown-key`, `unsupported-algorithm` or `resource-limit`. -/
inductive DirectoryResolution
  | found (selection : DirectoryKeySelection)
  | missing (reason : UnverifiedCode)
  deriving DecidableEq, Repr

/-- Where `resolve` gets to at first: it returns, or it awaits a refresh of an origin. -/
inductive ResolveCall
  | settled (resolution : DirectoryResolution)
  | refreshing (origin : Text) (call : RefreshCall)
  deriving DecidableEq, Repr

/-- A `DirectoryService`. Tasks are numbers, in the order in which they are made, and the object of a response
is told by the job that fetched it. -/
structure DirectoryService where
  format : JwksFormat
  /-- Whether the mode is `open`. -/
  openMode : Bool
  allowedOrigins : List Text
  cache : DirectoryCache
  pending : List (Text × ℕ)
  tasks : List (ℕ × RefreshTask)
  applied : List (Job × DirectoryRefreshResult)
  lastTime : ℚ
  healthy : Bool
  /-- Whether the observer runs. -/
  delivering : Bool
  deriving DecidableEq

namespace DirectoryService

/-- A new service. -/
def create (format : JwksFormat) (openMode : Bool) (allowedOrigins : List Text)
    (options : DirectoryCacheConfiguration) : DirectoryService where
  format
  openMode
  allowedOrigins
  cache := .create options
  pending := []
  tasks := []
  applied := []
  lastTime := 0
  healthy := true
  delivering := false

/-- `#now`, when the clock shows a sample. -/
def now (v : DirectoryService) (sample : Sample) : DirectoryService × Option ℚ :=
  if v.healthy then
    match sample.filter fun now => v.lastTime ≤ now ∧ now ≤ maxSafeInteger - 3000 with
    | some now => ({ v with lastTime := now }, some now)
    | none => ({ v with healthy := false }, none)
  else (v, none)

/-- `#admitted`. -/
def admitted (v : DirectoryService) (origin : Text) : Bool :=
  v.openMode || v.allowedOrigins.contains origin

/-- A task in another phase. -/
def setPhase (v : DirectoryService) (id : ℕ) (phase : RefreshPhase) : DirectoryService :=
  match OrderedMap.lookup v.tasks id with
  | some task => { v with tasks := OrderedMap.set v.tasks id { task with phase } }
  | none => v

section Operations

variable {ρ : Type} (read : JwksFormat → ρ → Except DirectoryError PreparedDirectory)
  (O : OriginPlatform) (A : Rounding)

/-- `canonicalAgentOrigin` under the default limit. -/
def canonicalOrigin (originInput : Text) : Except DirectoryError Text :=
  (canonicalAgentOrigin O originInput DEFAULT_PROFILE_LIMITS.maxAgentUrlBytes).mapError .profile

/-! ### Responses -/

/-- The participant: a document that the format rejects is backed off from, and anything else is thrown. -/
def prepareResponse (v : DirectoryService) (response : ρ) :
    DirectoryService × Except DirectoryError PreparedCommit :=
  match v.cache.prepare (read v.format) response with
  | (cache, .ok ticket) => ({ v with cache }, .ok (.evidence ticket))
  | (cache, .error (.document rule keyIndex)) => ({ v with cache }, .ok (.invalid ⟨rule, keyIndex⟩))
  | (cache, .error e) => ({ v with cache }, .error e)

/-- What the participant has returned for the response of a job, when the clock shows a sample. -/
def commitResponse (v : DirectoryService) (job : Job) (origin : Text) (sample : Sample) :
    PreparedCommit → DirectoryService × Except DirectoryError Unit
  | .evidence ticket =>
    match v.cache.commit O origin ticket sample with
    | (cache, .ok persisted) =>
      ({ v with cache, applied := OrderedMap.set v.applied job (.completed persisted) }, .ok ())
    | (cache, .error e) => ({ v with cache }, .error e)
  | .invalid diagnostic =>
    match v.cache.recordFailure O A origin sample with
    | (cache, .ok ()) =>
      ({ v with cache, applied := OrderedMap.set v.applied job (.failed .invalidJwks diagnostic) },
        .ok ())
    | (cache, .error e) => ({ v with cache }, .error e)

/-! ### Refreshes -/

/-- The part of `refresh` that makes a task. -/
def register (v : DirectoryService) (origin : Text) (started : ℚ) : DirectoryService × RefreshCall :=
  ({ v with
    tasks := v.tasks ++ [(v.tasks.length, ⟨origin, started, .queued⟩)]
    pending := OrderedMap.set v.pending origin v.tasks.length }, .task v.tasks.length)

/-- `refresh`, when the clock shows the samples, one after the other. -/
def refresh (v : DirectoryService) (originInput : Text) (sample second : Sample) :
    DirectoryService × Except DirectoryError RefreshCall :=
  match canonicalOrigin O originInput with
  | .error e => (v, .error e)
  | .ok origin =>
    if v.delivering then (v, .ok (.settled (failed .capacity)))
    else if ¬ v.admitted origin then (v, .ok (.settled (failed .originDenied)))
    else match v.now sample with
    | (v, none) => (v, .ok (.settled (failed .clock)))
    | (v, some started) =>
      match OrderedMap.lookup v.pending origin with
      | some task => (v, .ok (.task task))
      | none =>
        match v.cache.fetchBlocked O origin second with
        | (cache, .error e) => ({ v with cache }, .error e)
        | (cache, .ok true) => ({ v with cache }, .ok (.settled (failed .backoff)))
        | (cache, .ok false) =>
          if 80 ≤ v.pending.length then ({ v with cache }, .ok (.settled (failed .capacity)))
          else
            let registered := { v with cache }.register origin started
            (registered.1, .ok registered.2)

/-- The start of `#refresh`, up to its call of the transport: how it ends, if it ends before. -/
def begin (v : DirectoryService) (started : ℚ) (sample : Sample) :
    DirectoryService × Option DirectoryRefreshResult :=
  match v.now sample with
  | (v, none) => (v, some (failed .clock))
  | (v, some before) =>
    (v, if 3000 ≤ A.round (before - started) then some (failed .deadline) else none)

/-- The result of `#refresh` once its await has ended, and whether it is a failure to record. -/
def settle (v : DirectoryService) (started : ℚ) (job : Option Job)
    (outcome : Except DeliveryError (DirectoryTransportResult ρ)) (sample : Sample) :
    DirectoryService × DirectoryRefreshResult × Bool :=
  match outcome with
  | .error (.admission reason) =>
    (v, failed reason.refreshFailure, reason = .deadline ∨ reason = .fetchFailed)
  | .error (.thrown (.document rule keyIndex)) => (v, .failed .invalidJwks (some ⟨rule, keyIndex⟩), true)
  | .error (.thrown (.profile _)) => (v, failed .transportFailed, true)
  | .ok fetched =>
    match v.now sample with
    | (v, none) => (v, failed .clock, true)
    | (v, some received) =>
      if 3000 ≤ A.round (received - started) then (v, failed .deadline, true)
      else match fetched with
        | .failed reason => (v, failed reason.refreshFailure, true)
        | .response _ =>
          match job.bind (OrderedMap.lookup v.applied) with
          | some result => (v, result, false)
          | none => (v, failed .transportFailed, true)

/-- The end of `#refresh`, from its await on: its result, which is emitted if nothing is thrown. -/
def finish (v : DirectoryService) (id : ℕ) (task : RefreshTask) (job : Option Job)
    (outcome : Except DeliveryError (DirectoryTransportResult ρ)) (sample second : Sample) :
    DirectoryService × Except DirectoryError DirectoryRefreshResult :=
  match v.settle A task.started job outcome sample with
  | (v, result, false) => (v.setPhase id (.returned (.ok result)), .ok result)
  | (v, result, true) =>
    match v.cache.recordFailure O A task.origin second with
    | (cache, .ok ()) => ({ v with cache }.setPhase id (.returned (.ok result)), .ok result)
    | (cache, .error e) => ({ v with cache }.setPhase id (.returned (.error e)), .error e)

/-- `.finally` of a task that has returned. -/
def close (v : DirectoryService) (id : ℕ) (origin : Text)
    (result : Except DirectoryError DirectoryRefreshResult) : DirectoryService :=
  { v with pending := v.pending.filter (·.1 ≠ origin) }.setPhase id (.closed result)

/-! ### Resolutions -/

/-- What a lookup of the cache decides: a key is found, or its algorithm is not supported. -/
def decided : DirectoryCacheLookup → Option DirectoryResolution
  | .found selection => some (.found selection)
  | .missing .unsupportedAlgorithm => some (.missing .unsupportedAlgorithm)
  | .missing _ => none

/-- `resolve` up to its await, and whether the budget is spent then. -/
def resolve (v : DirectoryService) (spent : Bool) (originInput thumbprint : Text) (samples : ℕ → Sample) :
    DirectoryService × Bool × Except DirectoryError ResolveCall :=
  match canonicalOrigin O originInput, validateProfileKeyId thumbprint with
  | .error e, _ => (v, spent, .error e)
  | .ok _, .error e => (v, spent, .error (.profile e))
  | .ok origin, .ok _ =>
    if v.delivering then (v, spent, .ok (.settled (.missing .resourceLimit)))
    else if ¬ v.admitted origin then (v, spent, .ok (.settled (.missing .unknownKey)))
    else match v.now (samples 0) with
    | (v, none) => (v, spent, .ok (.settled (.missing .unknownKey)))
    | (v, some _) =>
      match v.cache.lookup O A origin thumbprint (samples 1) with
      | (cache, .error e) => ({ v with cache }, spent, .error e)
      | (cache, .ok cached) =>
        match decided cached with
        | some resolution => ({ v with cache }, spent, .ok (.settled resolution))
        | none =>
          match cache.fetchBlocked O origin (samples 2) with
          | (cache, .error e) => ({ v with cache }, spent, .error e)
          | (cache, .ok true) => ({ v with cache }, spent, .ok (.settled (.missing .unknownKey)))
          | (cache, .ok false) =>
            if spent then ({ v with cache }, true, .ok (.settled (.missing .resourceLimit)))
            else match { v with cache }.refresh O origin (samples 3) (samples 4) with
              | (v, .error e) => (v, true, .error e)
              | (v, .ok call) => (v, true, .ok (.refreshing origin call))

/-- `resolve` from its await on, with the result of the refresh. -/
def resolveRefreshed (v : DirectoryService) (origin thumbprint : Text) (result : DirectoryRefreshResult)
    (sample : Sample) : DirectoryService × Except DirectoryError DirectoryResolution :=
  match v.cache.lookup O A origin thumbprint sample with
  | (cache, .error e) => ({ v with cache }, .error e)
  | (cache, .ok current) =>
    ({ v with cache }, .ok ((decided current).getD (.missing (match result with
      | .failed .capacity _ => .resourceLimit
      | _ => .unknownKey))))

/-- `recheck`. -/
def recheck (v : DirectoryService) (selection : DirectoryKeySelection) (sample second : Sample) :
    DirectoryService × Bool :=
  if v.delivering then (v, false)
  else match v.now sample with
  | (v, none) => (v, false)
  | (v, some _) =>
    if v.admitted selection.origin then
      let rechecked := v.cache.recheck A selection.id second
      ({ v with cache := rechecked.1 }, rechecked.2)
    else (v, false)

end Operations

end DirectoryService

end AgentSig.Discovery
