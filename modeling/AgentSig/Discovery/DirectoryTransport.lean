import AgentSig.Discovery.DirectoryCache
import AgentSig.Discovery.FetchScheduler

/-!
# The directory transport

All profiles of a context share one transport. It fetches through the scheduler, classifies what the fetch
throws, and checks the deadline of the first caller before and after the participants have prepared a
response. There is one delivery for each promise of the scheduler, however many callers ask for it.

## Main definitions

* `DirectoryTransportResult`, `classifyFetch`: what the worker of the scheduler answers
* `DirectoryTransport`: the state of a transport
* `DirectoryTransport.checkDeadline`, `run`: its operations
-/

namespace AgentSig.Discovery

open Commons Profiles StructuredFields

/-- Why a fetch failed. -/
inductive TransportFailure
  | addressDenied
  | transportFailed
  deriving DecidableEq, Repr

/-- `DirectoryTransportResult`. -/
inductive DirectoryTransportResult (ρ : Type)
  | response (response : ρ)
  | failed (reason : TransportFailure)
  deriving DecidableEq, Repr

/-- What `fetchDirectoryOnce` throws: a `DirectoryDnsError` or a `DirectoryConnectionError` with its reason,
or anything else. -/
inductive FetchError
  | dns (reason : String)
  | connection (reason : String)
  | other
  deriving DecidableEq, Repr

/-- The worker of the scheduler: it catches everything. -/
def classifyFetch {ρ : Type} : Except FetchError ρ → DirectoryTransportResult ρ
  | .ok response => .response response
  | .error (.dns reason) =>
    .failed (if reason = "address-denied" then .addressDenied else .transportFailed)
  | .error (.connection reason) =>
    .failed (if reason = "address-denied" then .addressDenied else .transportFailed)
  | .error .other => .failed .transportFailed

/-- What a delivery is rejected with: a `DirectoryAdmissionError`, or what a participant has thrown. -/
inductive DeliveryError
  | admission (reason : DirectoryAdmissionReason)
  | thrown (error : DirectoryError)
  deriving DecidableEq, Repr

/-- The delivery of the promise of a job: the origin and the start of the first call, and how it has ended. -/
structure Delivery (ρ : Type) where
  origin : Text
  startedAt : ℚ
  outcome : Option (Except DeliveryError (DirectoryTransportResult ρ))

/-- A `DirectoryTransport`. The participants are kept by the services. -/
structure DirectoryTransport (ρ : Type) where
  scheduler : SchedulerSystem (DirectoryTransportResult ρ)
  deliveries : List (Job × Delivery ρ)
  started : Bool
  lastTime : ℚ
  healthy : Bool

namespace DirectoryTransport

variable {ρ : Type} (O : OriginPlatform) (A : Rounding)

/-- A new transport. -/
def create : DirectoryTransport ρ where
  scheduler := .create
  deliveries := []
  started := false
  lastTime := 0
  healthy := true

/-- `#checkDeadline`, when the clock shows a sample. -/
def checkDeadline (t : DirectoryTransport ρ) (startedAt : ℚ) (sample : Sample) :
    DirectoryTransport ρ × Except DirectoryAdmissionReason Unit :=
  match sample.filter fun now => t.healthy ∧ t.lastTime ≤ now ∧ now ≤ maxSafeInteger - 3000 with
  | none => ({ t with healthy := false }, .error .clock)
  | some now =>
    ({ t with lastTime := now },
      if now < startedAt ∨ 3000 ≤ A.round (now - startedAt) then .error .deadline else .ok ())

/-- `run`, when the clock shows the sample that the scheduler takes. -/
def run (t : DirectoryTransport ρ) (origin : Text) (startedAt : ℚ) (sample : Sample) :
    DirectoryTransport ρ × RunResult :=
  match t.scheduler.scheduler.run O A origin (some (some startedAt)) sample with
  | (s, result, pumps) =>
    ({ t with
      started := true
      scheduler := if pumps then s.pump 0 else ⟨s, none⟩
      deliveries := match result with
        | .promise job =>
          if (OrderedMap.lookup t.deliveries job).isSome then t.deliveries
          else t.deliveries ++ [(job, ⟨origin, startedAt, none⟩)]
        | _ => t.deliveries }, result)

end DirectoryTransport

end AgentSig.Discovery
