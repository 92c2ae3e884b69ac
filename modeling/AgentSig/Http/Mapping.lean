import AgentSig.Http.Forwarding

/-!
# The mapping of requests

A captured request is mapped to the request that the core reads: its fields are checked, and its target is
assembled from the scheme, the authority and the request target. The authority is that of the host field, or
the one that a trusted ingress states.

## Main definitions

* `HttpMappingLimits`, `ResolvedHttpConfiguration`: the configuration of a mapper
* `snapshotHttpRequest`: the checks on a captured request
* `mapTarget`: the scheme and the authority of the target
* `mapHttpSnapshot`: the mapping
-/

namespace AgentSig.Http

open Commons Core Profiles

/-! ## Configuration -/

/-- `HttpMappingLimits`, resolved. -/
structure HttpMappingLimits where
  maxHeaderBytes : ℕ
  maxTargetUriBytes : ℕ
  header_bounds : 1 ≤ maxHeaderBytes ∧ maxHeaderBytes ≤ 1048576
  target_bounds : 1 ≤ maxTargetUriBytes ∧ maxTargetUriBytes ≤ 1048576
  deriving DecidableEq

/-- `DEFAULT_HTTP_MAPPING_LIMITS`. -/
def DEFAULT_HTTP_MAPPING_LIMITS : HttpMappingLimits := ⟨16384, 16384, by decide, by decide⟩

/-- `family`. -/
inductive ForwardingFamily
  | forwarded
  | xForwarded
  deriving DecidableEq, Repr

/-- The ingress of a configuration: a trusted one has a family, and tells its peers. -/
inductive ResolvedIngress
  | direct
  | trustedIngress (family : ForwardingFamily) (trustsPeer : Option Text → Bool)

/-- `mode`. -/
def ResolvedIngress.mode : ResolvedIngress → IngressMode
  | .direct => .direct
  | .trustedIngress _ _ => .trustedIngress

/-- `ResolvedHttpConfiguration`. -/
structure ResolvedHttpConfiguration where
  ingress : ResolvedIngress
  limits : HttpMappingLimits
  allowsOrigin : Text → Bool

/-! ## Captured requests -/

/-- A value of a captured request. An element of an array is none where it is no own string. -/
inductive SnapshotValue
  | undefined
  | text (value : Text)
  | boolean (value : Bool)
  | array (elements : List (Option Text))
  | other
  deriving DecidableEq, Repr

/-- A property of a captured request; one that it does not have is undefined. -/
inductive SnapshotProperty
  | accessor
  | value (value : SnapshotValue)
  deriving DecidableEq, Repr

/-- A captured request, untrusted. -/
structure SnapshotInput where
  method : SnapshotProperty
  url : SnapshotProperty
  httpVersion : SnapshotProperty
  rawHeaders : SnapshotProperty
  peerAddress : SnapshotProperty
  encrypted : SnapshotProperty
  deriving DecidableEq, Repr

/-- `HttpSnapshot`, whose version is `1.1`. Its raw headers are pairs. -/
structure HttpSnapshot where
  method : Text
  url : Text
  rawHeaders : List (Text × Text)
  peerAddress : Option Text
  encrypted : Bool
  deriving DecidableEq, Repr

/-- `ownValue`. -/
def ownValue : SnapshotProperty → Except MappingFailure SnapshotValue
  | .accessor => throw (rejectMapping .requestMalformed)
  | .value value => return value

/-- A character of `[\t\x20-\x7e\x80-\xff]`. -/
def valueChar (c : UInt16) : Bool := c == 9 || (32 ≤ c && c ≤ 126) || (128 ≤ c && c ≤ 255)

/-- The loop of `snapshotHttpRequest` over the raw headers, with the bytes charged so far. -/
def snapshotHeaders (limits : HttpMappingLimits) : ℕ → List (Option Text) →
    Except MappingFailure (List (Text × Text))
  | _, [] => return []
  | total, some name :: some value :: rest => do
    let total := total + (name.length + value.length + 4)
    require (total ≤ limits.maxHeaderBytes) (rejectMapping .resourceLimit)
    require (isFieldName name ∧ value.all valueChar) (rejectMapping .headersMalformed)
    let headers ← snapshotHeaders limits total rest
    return (name, value) :: headers
  | _, _ => throw (rejectMapping .headersMalformed)

/-- `snapshotHttpRequest`; an input that is no object is none. -/
def snapshotHttpRequest (limits : HttpMappingLimits) (input : Option SnapshotInput) :
    Except MappingFailure HttpSnapshot := do
  let some input := input | throw (rejectMapping .requestMalformed)
  let httpVersion ← ownValue input.httpVersion
  require (httpVersion ≠ .text (ascii "2") ∧ httpVersion ≠ .text (ascii "2.0"))
    (rejectMapping .http2Unsupported)
  require (httpVersion = .text (ascii "1.1")) (rejectMapping .requestUnsupported)
  let method ← ownValue input.method
  let url ← ownValue input.url
  let (.text method, .text url) := (method, url) | throw (rejectMapping .requestMalformed)
  require (method.length ≤ limits.maxHeaderBytes ∧ url.length ≤ limits.maxTargetUriBytes)
    (rejectMapping .resourceLimit)
  require (isFieldName method ∧ url ≠ []) (rejectMapping .requestMalformed)
  require (method ≠ ascii "CONNECT" ∧ url.head? = some 47) (rejectMapping .requestUnsupported)
  require (url.all targetChar ∧ escapesValid url) (rejectMapping .requestMalformed)
  let .array raw ← ownValue input.rawHeaders | throw (rejectMapping .headersMalformed)
  require (raw.length % 2 = 0) (rejectMapping .headersMalformed)
  require (raw.length / 2 ≤ limits.maxHeaderBytes / 4) (rejectMapping .resourceLimit)
  let rawHeaders ← snapshotHeaders limits 0 raw
  let peerAddress ← ownValue input.peerAddress
  let encrypted ← ownValue input.encrypted
  let peerAddress ← (match peerAddress with
    | .undefined => return none
    | .text peer => do
      require (peer.length ≤ 128) (rejectMapping .requestMalformed)
      return some peer
    | _ => throw (rejectMapping .requestMalformed) : Except MappingFailure (Option Text))
  let .boolean encrypted := encrypted | throw (rejectMapping .requestMalformed)
  return ⟨method, url, rawHeaders, peerAddress, encrypted⟩

/-! ## The mapping -/

/-- The value of a field: octets if it is not ASCII. -/
def mappedValue (value : Text) : HeaderValue :=
  if isAscii value then .text value else .octets (value.map fun c => .ofNat c.toNat)

/-- `fields.get(name)`: the occurrences of a field, none if there are none. -/
def occurrences (rawHeaders : List (Text × Text)) (name : Text) : List Text :=
  (rawHeaders.filter fun h => toLowerCase h.1 = name).map Prod.snd

/-- `single`. -/
def single (rawHeaders : List (Text × Text)) (name : Text) (required : Bool) :
    Except MappingFailure (Option Text) :=
  match occurrences rawHeaders name with
  | [] => if required then throw (rejectMapping .forwardingMissing) else return none
  | [value] => do
    require (¬ value.contains 44) (rejectMapping .forwardingChainRejected)
    require (value ≠ []) (rejectMapping .forwardingMalformed)
    return some value
  | _ => throw (rejectMapping .forwardingChainRejected)

/-- `xFields`. -/
def xFields : List Text :=
  [ascii "x-forwarded-host", ascii "x-forwarded-proto", ascii "x-forwarded-port",
    ascii "x-forwarded-for"]

/-- What the field `Forwarded` states: the host, the protocol and the client. -/
def forwardedTarget (O : OriginPlatform) (rawHeaders : List (Text × Text)) :
    Except MappingFailure (Text × Text × Option ObservedClient) :=
  match occurrences rawHeaders (ascii "forwarded") with
  | [] => throw (rejectMapping .forwardingMissing)
  | [value] => do
    let pairs ← parseForwarded value
    match OrderedMap.lookup pairs .host, OrderedMap.lookup pairs .proto with
    | some externalHost, some protocol => do
      let observedClient ← (OrderedMap.lookup pairs .for).mapM (forwardedNode O)
      let _ ← (OrderedMap.lookup pairs .by).mapM (forwardedNode O)
      return (externalHost, protocol, observedClient)
    | _, _ => throw (rejectMapping .forwardingMissing)
  | _ => throw (rejectMapping .forwardingChainRejected)

/-- What the `X-Forwarded` fields state; a stated port is that of the host. -/
def xForwardedTarget (O : OriginPlatform) (rawHeaders : List (Text × Text)) :
    Except MappingFailure (Text × Text × Option ObservedClient) := do
  let some externalHost ← single rawHeaders (ascii "x-forwarded-host") true
    | throw (rejectMapping .forwardingMissing)
  let some protocol ← single rawHeaders (ascii "x-forwarded-proto") true
    | throw (rejectMapping .forwardingMissing)
  let port ← single rawHeaders (ascii "x-forwarded-port") false
  let client ← single rawHeaders (ascii "x-forwarded-for") false
  let observedClient ← client.mapM (xForwardedClient O)
  let authority ← parseHttpAuthority O externalHost
  match port with
  | none => return (externalHost, protocol, observedClient)
  | some port => do
    require (1 ≤ port.length ∧ port.length ≤ 5 ∧ port.all digit ∧ 1 ≤ readDigits 0 port ∧
      readDigits 0 port ≤ 65535) (rejectMapping .forwardingMalformed)
    require (readDigits 0 port = authority.port.getD 443) (rejectMapping .forwardingPortInconsistent)
    return (externalHost, protocol, observedClient)

/-- Whether a field of the family that is not selected occurs. -/
def otherFamily (rawHeaders : List (Text × Text)) : ForwardingFamily → Bool
  | .forwarded => xFields.any fun name => occurrences rawHeaders name ≠ []
  | .xForwarded => occurrences rawHeaders (ascii "forwarded") ≠ []

/-- What the fields of the selected family state. -/
def familyTarget (O : OriginPlatform) (rawHeaders : List (Text × Text)) :
    ForwardingFamily → Except MappingFailure (Text × Text × Option ObservedClient)
  | .forwarded => forwardedTarget O rawHeaders
  | .xForwarded => xForwardedTarget O rawHeaders

/-- The scheme and the authority of the target, with the client that is stated. -/
def mapTarget (O : OriginPlatform) (config : ResolvedHttpConfiguration) (snapshot : HttpSnapshot)
    (internal : HttpAuthority) :
    Except MappingFailure (HttpScheme × HttpAuthority × Option ObservedClient) :=
  match config.ingress with
  | .direct => return (if snapshot.encrypted then .https else .http, internal, none)
  | .trustedIngress family trustsPeer => do
    require (trustsPeer snapshot.peerAddress) (rejectMapping .ingressPeerUntrusted)
    -- The family that is not selected is never evidence.
    require (otherFamily snapshot.rawHeaders family = false) (rejectMapping .forwardingFamiliesMixed)
    let (externalHost, protocol, observedClient) ← familyTarget O snapshot.rawHeaders family
    require (protocol = ascii "https") (rejectMapping .ingressHttpsRequired)
    let authority ← parseHttpAuthority O externalHost
    return (.https, authority, observedClient)

/-- Whether a body is present, where the fields frame it in one way. -/
def mapBody (rawHeaders : List (Text × Text)) : Except MappingFailure Bool := do
  let contentLength := occurrences rawHeaders (ascii "content-length")
  let transferEncoding := occurrences rawHeaders (ascii "transfer-encoding")
  require (contentLength ≠ [] → contentLength.length = 1 ∧
    contentLength.all fun value => value ≠ [] ∧ value.all digit) (rejectMapping .headersMalformed)
  require (transferEncoding ≠ [] → contentLength = [] ∧ transferEncoding.length = 1 ∧
    transferEncoding.all fun value => toLowerCase value = ascii "chunked")
    (rejectMapping .headersMalformed)
  return transferEncoding ≠ [] ∨ contentLength.any fun value => value.any fun c => 49 ≤ c && c ≤ 57

/-- The mapping of a request, before errors are results. -/
def mapSnapshot (O : OriginPlatform) (config : ResolvedHttpConfiguration) (input : Option SnapshotInput) :
    Except MappingFailure MappedHttpRequest := do
  let snapshot ← snapshotHttpRequest config.limits input
  match occurrences snapshot.rawHeaders (ascii "host") with
  | [] => throw (rejectMapping .hostMissing)
  | [host] => do
    let internal ← parseHttpAuthority O host
    let (scheme, authority, observedClient) ← mapTarget O config snapshot internal
    require (config.allowsOrigin (httpOriginKey scheme authority)) (rejectMapping .originDisallowed)
    require (scheme.text.length + 3 + authority.original.length + snapshot.url.length ≤
      config.limits.maxTargetUriBytes) (rejectMapping .resourceLimit)
    let bodyPresent ← mapBody snapshot.rawHeaders
    return {
      request := {
        method := snapshot.method
        targetUri := scheme.text ++ ascii "://" ++ authority.original ++ snapshot.url
        rawRequestTarget := some snapshot.url
        headers := snapshot.rawHeaders.map fun h => ⟨h.1, mappedValue h.2⟩
        httpVersion := some .http11 }
      targetSource := config.ingress.mode
      internalAuthority := internal.original
      bodyPresent, observedClient }
  | _ => throw (rejectMapping .hostAmbiguous)

/-- `mapHttpSnapshot`, or none if it throws. -/
def mapHttpSnapshot (O : OriginPlatform) (config : ResolvedHttpConfiguration)
    (input : Option SnapshotInput) : Option HttpMappingResult :=
  match mapSnapshot O config input with
  | .ok mapping => some (.mapped mapping)
  | .error (.rejected code) => some (.rejected code)
  | .error .thrown => none

end AgentSig.Http
