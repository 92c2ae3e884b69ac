import AgentSig.Commons.Outcome
import AgentSig.Commons.Runs
import AgentSig.Http.Types
import AgentSig.Profiles.ClockTracker

/-!
# Assessments

An integration maps a request, has it verified, and asks the policy of the application whether to go on.
The policy is a hook that answers with a handle, which only the tools of the same request make, and only
until its deadline.

Objects are told apart by identity: a number for each view and each handle that an integration makes, and
for each request. Whatever else a hook may return is foreign.

## Main definitions

* `HttpAgentSigOptions`, `Configuration`, `resolve`: the options, and what they resolve to
* `HttpAssessment`, `HttpAuthorization`, `HttpAdapterOutcome`: what an assessment returns
* `beginPolicy`, `useTool`, `concludePolicy`: the parts of `evaluate` around the hook
* `HttpSystem`, `httpStep`: the requests of all integrations
* `HttpRun`: the runs from a system without requests
-/

namespace AgentSig.Http

open Commons Core Profiles StructuredFields

/-! ## Configuration -/

/-- An option of an integration. -/
inductive HttpOption
  | undefined
  | null
  | text (value : Text)
  | number (value : Number)
  | function (id : ℕ)
  | object (id : ℕ)
  | other
  deriving DecidableEq, Repr

/-- `HttpAgentSigOptions`, untrusted: an option that is no own property is none. -/
structure HttpAgentSigOptions where
  /-- Whether `configurationRecord` throws. -/
  malformed : Bool
  mapper : Option HttpOption
  verifier : Option HttpOption
  mode : Option HttpOption
  policy : Option HttpOption
  bodyPolicy : Option HttpOption
  onEvent : Option HttpOption
  policyTimeoutMilliseconds : Option HttpOption
  mappingFailureStatus : Option HttpOption
  denyStatus : Option HttpOption
  rateLimitStatus : Option HttpOption
  deriving DecidableEq, Repr

/-- `mode`. -/
inductive HttpMode
  | observe
  | enforce
  deriving DecidableEq, Repr

/-- `bodyPolicy`. -/
inductive BodyPolicy
  | reject
  | allowUnverified
  deriving DecidableEq, Repr

/-- `Configuration`, with the identities of its objects. -/
structure Configuration where
  mapper : ℕ
  verifier : ℕ
  verify : ℕ
  mode : HttpMode
  policy : Option ℕ
  observer : Option ℕ
  bodyPolicy : BodyPolicy
  timeout : ℕ
  mappingStatus : ℕ
  denyStatus : ℕ
  rateStatus : ℕ
  timed : 1 ≤ timeout ∧ timeout ≤ 2147483647
  statuses : ∀ status ∈ [mappingStatus, denyStatus, rateStatus], 400 ≤ status ∧ status ≤ 599
  enforced : mode = .enforce → policy.isSome
  deriving DecidableEq

/-- The errors of an integration, which have no data. -/
inductive HttpIntegrationError
  | configuration
  | integration
  deriving DecidableEq, Repr

/-- The message of an error. -/
def HttpIntegrationError.message : HttpIntegrationError → Text
  | .configuration => ascii "Invalid HTTP integration configuration"
  | .integration => ascii "HTTP integration failed"

/-- The function of an option. -/
def HttpOption.function? : Option HttpOption → Option ℕ
  | some (.function id) => some id
  | _ => none

/-- An option that may be left out has a function, or is undefined. -/
def resolveObserver : Option HttpOption → Except HttpIntegrationError (Option ℕ)
  | none | some .undefined => return none
  | some (.function id) => return some id
  | _ => throw .configuration

/-- The mode of an option. -/
def resolveMode : Option HttpOption → Except HttpIntegrationError HttpMode
  | some (.text t) =>
    if t = ascii "observe" then return .observe
    else if t = ascii "enforce" then return .enforce
    else throw .configuration
  | _ => throw .configuration

/-- The body policy of an option. -/
def resolveBodyPolicy : Option HttpOption → Except HttpIntegrationError BodyPolicy
  | none | some .undefined | some .null => return .reject
  | some (.text t) =>
    if t = ascii "reject" then return .reject
    else if t = ascii "allow-unverified" then return .allowUnverified
    else throw .configuration
  | _ => throw .configuration

/-- The timeout of an option. -/
def resolveTimeout : Option HttpOption →
    Except HttpIntegrationError {timeout : ℕ // 1 ≤ timeout ∧ timeout ≤ 2147483647}
  | none | some .undefined | some .null => return ⟨1000, by omega⟩
  | some (.number n) =>
    match n.safeInteger? with
    | some z =>
      if h : 1 ≤ z.toNat ∧ z.toNat ≤ 2147483647 then return ⟨z.toNat, h⟩ else throw .configuration
    | none => throw .configuration
  | _ => throw .configuration

/-- `status`. -/
def resolveStatus (fallback : {status : ℕ // 400 ≤ status ∧ status ≤ 599}) : Option HttpOption →
    Except HttpIntegrationError {status : ℕ // 400 ≤ status ∧ status ≤ 599}
  | none | some .undefined => return fallback
  | some (.number n) =>
    match n.toInt? with
    | some z =>
      if h : 400 ≤ z.toNat ∧ z.toNat ≤ 599 then return ⟨z.toNat, h⟩ else throw .configuration
    | none => throw .configuration
  | _ => throw .configuration

/-- `resolve`, where `isMapper` tells the mappers of the library, and `verifyOf` the property of a
verifier. -/
def resolve (isMapper : ℕ → Bool) (verifyOf : ℕ → HttpOption) (input : HttpAgentSigOptions) :
    Except HttpIntegrationError Configuration := do
  require (input.malformed = false) .configuration
  let some (.object mapper) := input.mapper | throw .configuration
  require (isMapper mapper) .configuration
  let some (.object verifier) := input.verifier | throw .configuration
  let .function verify := verifyOf verifier | throw .configuration
  let mode ← resolveMode input.mode
  let observer ← resolveObserver input.onEvent
  require (mode = .observe → [input.policy, input.bodyPolicy, input.policyTimeoutMilliseconds,
    input.mappingFailureStatus, input.denyStatus, input.rateLimitStatus].all (·.isNone)) .configuration
  let policy := HttpOption.function? input.policy
  if h : mode = .enforce → policy.isSome then
    let bodyPolicy ← resolveBodyPolicy input.bodyPolicy
    let timeout ← resolveTimeout input.policyTimeoutMilliseconds
    let mappingStatus ← resolveStatus ⟨400, by omega⟩ input.mappingFailureStatus
    let denyStatus ← resolveStatus ⟨401, by omega⟩ input.denyStatus
    let rateStatus ← resolveStatus ⟨429, by omega⟩ input.rateLimitStatus
    return {
      mapper, verifier, verify, mode, policy, observer, bodyPolicy
      timeout := timeout.1
      mappingStatus := mappingStatus.1
      denyStatus := denyStatus.1
      rateStatus := rateStatus.1
      timed := timeout.2
      statuses := by simpa using ⟨mappingStatus.2, denyStatus.2, rateStatus.2⟩
      enforced := h }
  else throw .configuration

/-! ## Assessments -/

/-- `HttpAdapterName`. -/
inductive HttpAdapterName
  | express
  | fastify
  | hono
  deriving DecidableEq, Repr

/-- `HttpAssessment`. -/
inductive HttpAssessment
  | mapped (mapping : MappedHttpRequest) (verification : Item)
  | rejected (code : HttpMappingErrorCode)

/-- `HttpAuthorization`. -/
inductive HttpAuthorization
  | notEvaluated
  | allowedVerifiedIdentity
  | allowedAnonymous
  | denied
  | rateLimited (retryAfterSeconds : Option ℕ)
  deriving DecidableEq, Repr

/-- `action`. -/
inductive HttpOutcomeAction
  | continue
  | respond
  deriving DecidableEq, Repr

/-- `HttpAdapterOutcome`. -/
structure HttpAdapterOutcome where
  assessment : HttpAssessment
  authorization : HttpAuthorization
  action : HttpOutcomeAction
  responseStatus : Option ℕ
  retryAfterSeconds : Option ℕ

/-- An object with properties; one that is none is left out. -/
def Item.record (properties : List (Text × Option Item)) : Item :=
  .object (properties.filterMap fun e => e.2.map fun item => (.name e.1, item))

/-- An array without holes. -/
def Item.list (items : List Item) : Item :=
  .array items.length (items.zipIdx.map fun e => (.index e.2, e.1))

/-- A header field as a value. -/
def headerItem (h : HeaderField) : Item :=
  .list [.text h.name, match h.value with
    | .text t => .text t
    | .octets bs => .bytes bs]

/-- The text of a version. -/
def versionText : HttpVersion → Text
  | .http11 => ascii "1.1"
  | .http2 => ascii "2"
  | .http3 => ascii "3"

/-- A request as a value. -/
def requestItem (r : RequestParts) : Item :=
  .record [(ascii "method", some (.text r.method)), (ascii "targetUri", some (.text r.targetUri)),
    (ascii "rawRequestTarget", r.rawRequestTarget.map .text),
    (ascii "httpVersion", r.httpVersion.map fun v => .text (versionText v)),
    (ascii "headers", some (.list (r.headers.map headerItem)))]

/-- An observed client as a value. -/
def clientItem (c : ObservedClient) : Item :=
  .record [(ascii "kind", some (.text c.kind.text)), (ascii "address", some (.text c.address)),
    (ascii "port", c.port.map .text), (ascii "source", some (.text (ascii "trusted-ingress"))),
    (ascii "authenticated", some (.boolean false))]

/-- An assessment as a value. -/
def HttpAssessment.item : HttpAssessment → Item
  | .mapped m verification => .record [(ascii "status", some (.text (ascii "mapped"))),
      (ascii "request", some (requestItem m.request)),
      (ascii "targetSource", some (.text m.targetSource.text)),
      (ascii "internalAuthority", some (.text m.internalAuthority)),
      (ascii "bodyPresent", some (.boolean m.bodyPresent)),
      (ascii "observedClient", m.observedClient.map clientItem),
      (ascii "verification", some verification),
      (ascii "bodyIntegrity", some (.text (ascii "unverified")))]
  | .rejected code => .record [(ascii "status", some (.text (ascii "mapping-rejected"))),
      (ascii "code", some (.text code.text)),
      (ascii "bodyIntegrity", some (.text (ascii "unverified")))]

/-- An authorization as a value. -/
def HttpAuthorization.item : HttpAuthorization → Item
  | .notEvaluated => .record [(ascii "status", some (.text (ascii "not-evaluated")))]
  | .allowedVerifiedIdentity => .record [(ascii "status", some (.text (ascii "allowed"))),
      (ascii "basis", some (.text (ascii "verified-identity")))]
  | .allowedAnonymous => .record [(ascii "status", some (.text (ascii "allowed"))),
      (ascii "basis", some (.text (ascii "anonymous")))]
  | .denied => .record [(ascii "status", some (.text (ascii "denied")))]
  | .rateLimited retryAfterSeconds => .record [(ascii "status", some (.text (ascii "rate-limited"))),
      (ascii "retryAfterSeconds", retryAfterSeconds.map fun n => .number n)]

/-- The context of an outcome as a value. -/
def HttpAdapterOutcome.contextItem (o : HttpAdapterOutcome) : Item :=
  .record [(ascii "assessment", some o.assessment.item),
    (ascii "authorization", some o.authorization.item)]

/-- An outcome as a value. -/
def HttpAdapterOutcome.item (o : HttpAdapterOutcome) : Item :=
  .record [(ascii "context", some o.contextItem),
    (ascii "action", some (.text (match o.action with
      | .continue => ascii "continue"
      | .respond => ascii "respond"))),
    (ascii "responseStatus", o.responseStatus.map fun n => .number n),
    (ascii "retryAfterSeconds", o.retryAfterSeconds.map fun n => .number n)]

/-- Whether the status of a result, or of a candidate, is verified. -/
def isVerifiedStatus (result : Item) : Bool :=
  (result.get (ascii "status")).isText (ascii "verified")

/-- What `evaluate` checks of a result that a verifier returns. -/
def validVerification (verification : Item) : Bool :=
  [ascii "verified", ascii "unsigned", ascii "invalid", ascii "unverified"].any
      (verification.get (ascii "status")).isText &&
    (verification.get (ascii "candidates")).isArray &&
    (!isVerifiedStatus verification ||
      match verification.get (ascii "verifiedCandidates") with
      | .array length properties => length ≠ 0 && properties.all fun e =>
          match e.1 with
          | .index _ => isVerifiedStatus e.2
          | .name _ => true
      | _ => false)

/-! ## The policy -/

/-- What a hook returns, or passes to a tool: an object that an integration made, or anything else. -/
inductive HookValue
  | object (id : ℕ)
  | foreign
  deriving DecidableEq, Repr

/-- `Decision`. -/
inductive Decision
  | allowVerified
  | allowAnonymous
  | deny
  | rateLimit (retryAfterSeconds : Option ℕ)
  deriving DecidableEq, Repr

/-- A call of `HttpPolicyTools`. -/
inductive ToolCall
  | allowVerified (candidate : HookValue)
  | allowAnonymous
  | deny
  | rateLimit (retryAfterSeconds : HttpOption)
  deriving DecidableEq, Repr

/-- `Result`. -/
inductive PolicyResult
  | value (value : HookValue)
  | error
  | timeout
  deriving DecidableEq, Repr

/-- `reason` of a `policy-denied` event. -/
inductive PolicyDenial
  | error
  | timeout
  | invalidDecision
  | bodyUnverified
  deriving DecidableEq, Repr

/-- Where `evaluate` is with a request. While the hook decides, the tools are active. -/
inductive EvaluatePhase
  | mapping
  | verifying (mapping : MappedHttpRequest)
  | deciding (assessment : HttpAssessment) (view : ℕ) (decisions : List (ℕ × Decision)) (started : ℚ)
    (settled : Bool) (race : Option PolicyResult)
  /-- `evaluate` has returned, or thrown. -/
  | ended (outcome : Option HttpAdapterOutcome)

/-- What the history of the integrations records. -/
inductive HttpEvent
  | mappingRejected (request : ℕ) (code : HttpMappingErrorCode)
  | verificationError (request : ℕ)
  | policyDenied (request : ℕ) (reason : PolicyDenial)
  /-- A verifier has returned a result that `evaluate` accepts. -/
  | verified (request : ℕ) (result : Item)
  /-- The hook is called with a view and the tools. -/
  | viewed (request view : ℕ) (started : ℚ)
  | minted (request : ℕ) (call : ToolCall) (handle : ℕ)
  | toolThrew (request : ℕ) (call : ToolCall)
  /-- The hook has returned a value, or has thrown. -/
  | returned (request : ℕ) (value : HookValue)
  | failed (request : ℕ)
  | expired (request : ℕ)
  /-- The clock is read after the race. -/
  | checked (request : ℕ) (now : ℚ)
  | aborted (request : ℕ)
  | completed (request : ℕ) (outcome : Option HttpAdapterOutcome)
  /-- `assess` refuses a request that another integration owns. -/
  | refused (request : ℕ)
  /-- A promise of `assess` is settled, with an outcome or with an error. -/
  | delivered (request : ℕ) (config : Configuration) (outcome : Option HttpAdapterOutcome)

section Policy

variable (A : Rounding) (config : Configuration) (assessment : HttpAssessment)

/-- `eligibleVerified`. -/
def eligibleVerified : HttpAssessment → Bool
  | .mapped _ verification => isVerifiedStatus verification
  | .rejected _ => false

/-- `bodyRejected`. -/
def bodyRejected : HttpAssessment → Bool
  | .mapped mapping _ => mapping.bodyPresent && config.bodyPolicy = .reject
  | .rejected _ => false

/-- `denyStatus`. -/
def denyStatus : HttpAssessment → ℕ
  | .mapped _ _ => config.denyStatus
  | .rejected _ => config.mappingStatus

/-- The outcome that denies a request. -/
def denyOutcome : HttpAdapterOutcome :=
  ⟨assessment, .denied, .respond, some (denyStatus config assessment), none⟩

/-- The part of `evaluate` from the assessment to the call of the hook. -/
def beginPolicy (request objects : ℕ) (started : ℚ) : EvaluatePhase × ℕ × List HttpEvent :=
  match config.mode with
  | .observe =>
    let outcome := some ⟨assessment, .notEvaluated, .continue, none, none⟩
    (.ended outcome, objects, [.completed request outcome])
  | .enforce =>
    match Item.ownedCopy assessment.item with
    | none => (.ended none, objects, [.completed request none])
    | some _ => (.deciding assessment objects [] started false none, objects + 1,
        [.viewed request objects started])

/-- The decision that a call of a tool asks for, where the tools belong to a view. -/
def askedDecision (view : ℕ) : ToolCall → Option Decision
  | .allowVerified candidate =>
    if candidate ≠ .object view ∨ eligibleVerified assessment = false ∨
        bodyRejected config assessment then none
    else some .allowVerified
  | .allowAnonymous => some .allowAnonymous
  | .deny => some .deny
  | .rateLimit .undefined => some (.rateLimit none)
  | .rateLimit (.number n) =>
    match n.safeInteger? with
    | some z => if 0 ≤ z ∧ z ≤ 2147483647 then some (.rateLimit (some z.toNat)) else none
    | none => none
  | .rateLimit _ => none

/-- The part of `evaluate` after the race: the outcome, if it does not throw, and the reason of a denial. -/
def concludePolicy (decisions : List (ℕ × Decision)) (started : ℚ) (race : PolicyResult) (now : ℚ) :
    Option HttpAdapterOutcome × Option PolicyDenial :=
  let deny := denyOutcome config assessment
  if config.timeout ≤ A.round (now - started) then (some deny, some .timeout)
  else match race with
    | .timeout => (some deny, some .timeout)
    | .error => (some deny, some .error)
    | .value .foreign => (some deny, some .invalidDecision)
    | .value (.object id) =>
      match OrderedMap.lookup decisions id with
      | none => (some deny, some .invalidDecision)
      | some (.rateLimit retryAfterSeconds) => (some ⟨assessment, .rateLimited retryAfterSeconds,
          .respond, some config.rateStatus, retryAfterSeconds⟩, none)
      | some decision =>
        if bodyRejected config assessment then (some deny, some .bodyUnverified)
        else match assessment, decision with
          | .rejected _, _ => (some deny, none)
          | _, .deny => (some deny, none)
          | .mapped _ _, .allowVerified =>
            if eligibleVerified assessment then
              (some ⟨assessment, .allowedVerifiedIdentity, .continue, none, none⟩, none)
            else (none, none)
          | .mapped _ _, _ => (some ⟨assessment, .allowedAnonymous, .continue, none, none⟩, none)

end Policy

/-! ## The system -/

/-- What is registered for a request. -/
structure RequestState where
  config : Configuration
  adapter : HttpAdapterName
  phase : EvaluatePhase

/-- The requests that have been assessed, and how many objects the integrations have made. -/
structure HttpSystem where
  requests : ℕ → Option RequestState
  objects : ℕ

/-- No requests. -/
def HttpSystem.create : HttpSystem := ⟨fun _ => none, 0⟩

/-- What happens next, in any order: a call of `assess`, a step of `evaluate`, or an act of the hook. -/
inductive HttpAction
  | assess (config : Configuration) (request : ℕ) (adapter : HttpAdapterName)
  | map (request : ℕ) (mapping : HttpMappingResult) (started : ℚ)
  | verify (request : ℕ) (answer : Option Item) (started : ℚ)
  | tool (request : ℕ) (call : ToolCall)
  | settle (request : ℕ) (value : Option HookValue)
  | expire (request : ℕ)
  | conclude (request : ℕ) (now : ℚ)
  | deliver (request : ℕ)

/-- A request is in another phase, and so many objects have been made. -/
def HttpSystem.enter (s : HttpSystem) (request : ℕ) (state : RequestState) (phase : EvaluatePhase)
    (objects : ℕ) : HttpSystem :=
  ⟨Function.update s.requests request (some { state with phase }), objects⟩

/-- The part of `evaluate` up to the call of the verifier. -/
def evaluateMapping (s : HttpSystem) (request : ℕ) (state : RequestState) (started : ℚ) :
    HttpMappingResult → HttpSystem × List HttpEvent
  | .rejected code =>
    let (phase, objects, events) := beginPolicy state.config (.rejected code) request s.objects started
    (s.enter request state phase objects, .mappingRejected request code :: events)
  | .mapped mapping =>
    match Item.ownedCopy (requestItem mapping.request) with
    | none => (s.enter request state (.ended none) s.objects,
        [.verificationError request, .completed request none])
    | some _ => (s.enter request state (.verifying mapping) s.objects, [])

/-- The part of `evaluate` from the answer of the verifier on; a rejection has no answer. -/
def evaluateVerification (s : HttpSystem) (request : ℕ) (state : RequestState)
    (mapping : MappedHttpRequest) (answer : Option Item) (started : ℚ) : HttpSystem × List HttpEvent :=
  match (answer.bind Item.ownedCopy).filter validVerification with
  | none => (s.enter request state (.ended none) s.objects,
      [.verificationError request, .completed request none])
  | some result =>
    match Item.ownedCopy (HttpAssessment.mapped mapping result).item with
    | none => (s.enter request state (.ended none) s.objects,
        [.verified request result, .completed request none])
    | some copy =>
      let (phase, objects, events) := beginPolicy state.config
        (.mapped mapping (copy.get (ascii "verification"))) request s.objects started
      (s.enter request state phase objects, .verified request result :: events)

/-- A call of a tool. Before the hook is called there are no tools, and afterwards they throw. -/
def useTool (s : HttpSystem) (request : ℕ) (state : RequestState) (call : ToolCall) :
    Option (HttpSystem × List HttpEvent) :=
  match state.phase with
  | .deciding assessment view decisions started settled race =>
    match askedDecision state.config assessment view call with
    | none => some (s, [.toolThrew request call])
    | some decision => some (s.enter request state
        (.deciding assessment view ((s.objects, decision) :: decisions) started settled race)
        (s.objects + 1), [.minted request call s.objects])
  | .ended _ => some (s, [.toolThrew request call])
  | _ => none

/-- Whether a value is foreign, or an object that has been made. -/
def HookValue.made (objects : ℕ) : HookValue → Bool
  | .object id => id < objects
  | .foreign => true

/-- A step of the system, if the action is one of its state. -/
def httpStep (A : Rounding) (s : HttpSystem) : HttpAction → Option (HttpSystem × List HttpEvent)
  | .assess config request adapter =>
    match s.requests request with
    | none => some (s.enter request ⟨config, adapter, .mapping⟩ .mapping s.objects, [])
    | some state =>
      if state.config = config ∧ state.adapter = adapter then some (s, [])
      else some (s, [.refused request])
  | .map request mapping started =>
    match s.requests request with
    | some ⟨config, adapter, .mapping⟩ =>
      some (evaluateMapping s request ⟨config, adapter, .mapping⟩ started mapping)
    | _ => none
  | .verify request answer started =>
    match s.requests request with
    | some ⟨config, adapter, .verifying mapping⟩ =>
      some (evaluateVerification s request ⟨config, adapter, .verifying mapping⟩ mapping answer started)
    | _ => none
  | .tool request call =>
    (s.requests request).bind fun state => useTool s request state call
  | .settle request value =>
    match s.requests request with
    | some ⟨config, adapter, .deciding assessment view decisions started false race⟩ =>
      if value.all (·.made s.objects) then
        let result := match value with
          | some value => PolicyResult.value value
          | none => .error
        some (s.enter request ⟨config, adapter, .mapping⟩ (.deciding assessment view decisions started
          true (some (race.getD result))) s.objects, [match value with
            | some value => .returned request value
            | none => .failed request])
      else none
    | _ => none
  | .expire request =>
    match s.requests request with
    | some ⟨config, adapter, .deciding assessment view decisions started settled race⟩ =>
      some (s.enter request ⟨config, adapter, .mapping⟩ (.deciding assessment view decisions started
        settled (some (race.getD .timeout))) s.objects, [.expired request])
    | _ => none
  | .conclude request now =>
    match s.requests request with
    | some ⟨config, adapter, .deciding assessment _ decisions started _ (some race)⟩ =>
      let (outcome, reason) := concludePolicy A config assessment decisions started race now
      let aborts := config.timeout ≤ A.round (now - started) ∨ race = .timeout
      some (s.enter request ⟨config, adapter, .mapping⟩ (.ended outcome) s.objects,
        .checked request now :: (if aborts then [.aborted request] else []) ++
          (reason.map (HttpEvent.policyDenied request)).toList ++ [.completed request outcome])
    | _ => none
  | .deliver request =>
    match s.requests request with
    | some ⟨config, _, .ended outcome⟩ => some (s, [.delivered request config
        (outcome.filter fun outcome => (Item.ownedCopy outcome.item).isSome)])
    | _ => none

/-- The runs of the integrations. -/
abbrev HttpRun (A : Rounding) : List HttpEvent → HttpSystem → Prop :=
  Run (· = .create) fun s events t => ∃ action, httpStep A s action = some (t, events)

end AgentSig.Http
