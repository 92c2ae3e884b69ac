import AgentSig.Discovery.Freshness
import AgentSig.Profiles.AgentOrigin
import AgentSig.Profiles.Jwks
import AgentSig.Profiles.ProfileLimits

/-!
# The directory cache

The cache holds the key set that an origin has published last, while it is fresh. A response is prepared
without changing what the cache holds, and its ticket is committed once. A commit removes the older set
before it decides whether to keep the newer one. A clock that fails once never recovers.

## Main definitions

* `DirectoryCacheOptions`, `DirectoryCacheConfiguration`: the options, and what they resolve to
* `DirectoryDocument`, `PreparedDirectory`, `Entry`: key sets
* `DirectoryCache`: the state of a cache
* `DirectoryCache.prepare`, `commit`, `replace`, `lookup`, `recheck`, `recordFailure`, `fetchBlocked`: the
  operations
-/

namespace AgentSig.Discovery

open Commons Profiles StructuredFields

/-! ## Options -/

/-- `DirectoryCacheOptions`, untrusted: an option that is no own property is none. -/
structure DirectoryCacheOptions where
  /-- Whether the input is no object, or has an unknown property or one that is no data property. -/
  malformed : Bool
  negativeSeconds : Option PropertyValue
  maxPositiveEntries : Option PropertyValue
  maxPositiveAccountedBytes : Option PropertyValue
  maxNegativeEntries : Option PropertyValue
  fallbackSeconds : Option PropertyValue
  maximumLifetimeSeconds : Option PropertyValue

/-- What `configuration` returns. -/
structure DirectoryCacheConfiguration where
  negativeSeconds : ℕ
  maxPositiveEntries : ℕ
  maxPositiveAccountedBytes : ℕ
  maxNegativeEntries : ℕ
  freshness : DirectoryFreshnessPolicy
  ceilings : negativeSeconds ≤ 300 ∧ maxPositiveEntries ≤ 1000 ∧
    maxPositiveAccountedBytes ≤ 16777216 ∧ maxNegativeEntries ≤ 1000
  deriving DecidableEq, Repr

/-- One option: a safe integer that is not negative, and within its ceiling. -/
def resolveOption (defaultValue ceiling : ℕ) : Option PropertyValue → Except ProfileError ℕ
  | none => return defaultValue
  | some value =>
    match value.integer? with
    | some z => do
      require (0 ≤ z ∧ z ≤ ceiling) (.configuration .invalidResourceLimits)
      return z.toNat
    | none => throw (.configuration .invalidResourceLimits)

/-- `configuration`. -/
def configuration (input : DirectoryCacheOptions) : Except ProfileError DirectoryCacheConfiguration := do
  require (input.malformed = false) (.configuration .invalidResourceLimits)
  let negativeSeconds ← resolveOption 60 300 input.negativeSeconds
  let maxPositiveEntries ← resolveOption 1000 1000 input.maxPositiveEntries
  let maxPositiveAccountedBytes ← resolveOption 16777216 16777216 input.maxPositiveAccountedBytes
  let maxNegativeEntries ← resolveOption 1000 1000 input.maxNegativeEntries
  let fallbackSeconds ← resolveOption 60 300 input.fallbackSeconds
  let maximumLifetimeSeconds ← resolveOption 300 300 input.maximumLifetimeSeconds
  if h : (fallbackSeconds ≤ 300 ∧ maximumLifetimeSeconds ≤ 300) ∧ negativeSeconds ≤ 300 ∧
      maxPositiveEntries ≤ 1000 ∧ maxPositiveAccountedBytes ≤ 16777216 ∧ maxNegativeEntries ≤ 1000 then
    return {
      negativeSeconds
      maxPositiveEntries
      maxPositiveAccountedBytes
      maxNegativeEntries
      freshness := ⟨fallbackSeconds, maximumLifetimeSeconds, h.1⟩
      ceilings := h.2 }
  else throw (.configuration .invalidResourceLimits)

/-! ## Key sets -/

/-- What the operations of a cache throw: errors of the configuration or of internal checks, and
`DirectoryDocumentError`. -/
inductive DirectoryError
  | profile (error : ProfileError)
  | document (rule : String) (keyIndex : Option ℕ)
  deriving DecidableEq, Repr

/-- `DirectoryDocument`. -/
structure DirectoryDocument where
  jwks : LoadedJwks
  bodyBytes : ℕ
  deriving DecidableEq, Repr

/-- `accountedBytes` of a document. -/
def DirectoryDocument.accountedBytes (document : DirectoryDocument) : ℕ :=
  document.bodyBytes + 1024 + (document.jwks.keys.length + document.jwks.skipped.length) * 1024

/-- What is prepared of a response. -/
structure PreparedDirectory where
  document : DirectoryDocument
  freshness : DirectoryFreshness
  deriving DecidableEq, Repr

/-- `Entry`. -/
structure Entry where
  document : DirectoryDocument
  freshness : DirectoryFreshness
  accountedBytes : ℕ
  deriving DecidableEq, Repr

/-- `DirectoryKeySelection`, with a number that stands for the identity of the object. -/
structure DirectoryKeySelection where
  id : ℕ
  origin : Text
  key : LoadedVerificationKey
  deriving DecidableEq, Repr

/-- What the cache knows of a selection. -/
structure Selected where
  origin : Text
  thumbprint : Text
  deriving DecidableEq, Repr

/-- `DirectoryCacheLookup`; the reason is `unknown-key` or `unsupported-algorithm`. -/
inductive DirectoryCacheLookup
  | found (selection : DirectoryKeySelection)
  | missing (reason : UnverifiedCode)
  deriving DecidableEq, Repr

/-! ## The cache -/

/-- A `DirectoryCache`. Tickets and selections are numbers, in the order in which they are made. -/
structure DirectoryCache where
  options : DirectoryCacheConfiguration
  positive : List (Text × Entry)
  negative : List (Text × ℚ)
  prepared : List (ℕ × PreparedDirectory)
  selections : List (ℕ × Selected)
  tickets : ℕ
  bytes : ℤ
  lastTime : ℚ
  healthy : Bool
  overflowUntil : ℚ
  deriving DecidableEq

namespace DirectoryCache

/-- A new cache. -/
def create (options : DirectoryCacheConfiguration) : DirectoryCache where
  options
  positive := []
  negative := []
  prepared := []
  selections := []
  tickets := 0
  bytes := 0
  lastTime := 0
  healthy := true
  overflowUntil := 0

/-- `#now`, when the clock shows a sample. -/
def now (c : DirectoryCache) (sample : Sample) : DirectoryCache × Option ℚ :=
  if c.healthy then
    match sample with
    | none => ({ c with healthy := false }, none)
    | some now =>
      if now < c.lastTime ∨ maxSafeInteger < now then ({ c with healthy := false }, none)
      else ({ c with lastTime := now }, some now)
  else (c, none)

/-- `#remove`. -/
def remove (c : DirectoryCache) (origin : Text) : DirectoryCache :=
  match OrderedMap.lookup c.positive origin with
  | some entry => { c with
    bytes := c.bytes - entry.accountedBytes
    positive := c.positive.filter (·.1 ≠ origin) }
  | none => c

/-- The loop of `commit` that evicts the oldest entries, and whether there is room. -/
def evict (options : DirectoryCacheConfiguration) (accountedBytes : ℕ) :
    List (Text × Entry) → ℤ → List (Text × Entry) × ℤ × Bool
  | [], bytes =>
    ([], bytes, ¬ (options.maxPositiveEntries ≤ 0 ∨
      options.maxPositiveAccountedBytes < bytes + accountedBytes))
  | (origin, entry) :: rest, bytes =>
    if options.maxPositiveEntries ≤ rest.length + 1 ∨
        options.maxPositiveAccountedBytes < bytes + accountedBytes then
      evict options accountedBytes rest (bytes - entry.accountedBytes)
    else ((origin, entry) :: rest, bytes, true)

/-- `#pruneNegative`. -/
def pruneNegative (c : DirectoryCache) (now : ℚ) : DirectoryCache :=
  { c with negative := c.negative.filter fun e => now < e.2 }

section Operations

variable {ρ : Type} (read : ρ → Except DirectoryError PreparedDirectory) (O : OriginPlatform)
  (A : Rounding)

/-- `configuredAgentOrigin` under the default limit. -/
def configuredOrigin (originInput : Text) : Except DirectoryError Text :=
  (configuredAgentOrigin O originInput DEFAULT_PROFILE_LIMITS.maxAgentUrlBytes).mapError .profile

/-- `prepare`; what the response says is read by `parseDirectoryDocument` and
`calculateDirectoryFreshness`. -/
def prepare (c : DirectoryCache) (response : ρ) : DirectoryCache × Except DirectoryError ℕ :=
  match read response with
  | .error e => (c, .error e)
  | .ok prepared => ({ c with
      prepared := (c.tickets, prepared) :: c.prepared
      tickets := c.tickets + 1 }, .ok c.tickets)

/-- The part of `commit` that keeps a set, when the clock is healthy. -/
def keep (c : DirectoryCache) (origin : Text) (prepared : PreparedDirectory) (now : ℚ) :
    DirectoryCache × Bool :=
  let accountedBytes := prepared.document.accountedBytes + origin.length * 2 + 256
  if prepared.freshness.persist = false ∨ c.options.maxPositiveEntries = 0 ∨
      c.options.maxPositiveAccountedBytes < accountedBytes ∨
      prepared.freshness.receivedMonotonicMs.exceeds now then (c, false)
  else match evict c.options accountedBytes c.positive c.bytes with
  | (positive, bytes, false) => ({ c with positive, bytes }, false)
  | (positive, bytes, true) => ({ c with
      positive := OrderedMap.set positive origin ⟨prepared.document, prepared.freshness, accountedBytes⟩
      bytes := bytes + accountedBytes }, true)

/-- `commit`. -/
def commit (c : DirectoryCache) (originInput : Text) (ticket : ℕ) (sample : Sample) :
    DirectoryCache × Except DirectoryError Bool :=
  match configuredOrigin O originInput with
  | .error e => (c, .error e)
  | .ok origin =>
    match OrderedMap.lookup c.prepared ticket with
    | none => (c, .error (.profile (.internal "Invalid or consumed directory preparation")))
    | some prepared =>
      match { c with prepared := c.prepared.filter (·.1 ≠ ticket) }.now sample with
      | (c, none) => (c, .ok false)
      | (c, some now) =>
        let c := c.remove origin
        let kept := { c with negative := c.negative.filter (·.1 ≠ origin) }.keep origin prepared now
        (kept.1, .ok kept.2)

/-- `replace`. -/
def replace (c : DirectoryCache) (originInput : Text) (response : ρ) (sample : Sample) :
    DirectoryCache × Except DirectoryError Bool :=
  match configuredOrigin O originInput with
  | .error e => (c, .error e)
  | .ok origin =>
    match c.prepare read response with
    | (c, .error e) => (c, .error e)
    | (c, .ok ticket) => c.commit O origin ticket sample

/-- `lookup`. -/
def lookup (c : DirectoryCache) (originInput thumbprint : Text) (sample : Sample) :
    DirectoryCache × Except DirectoryError DirectoryCacheLookup :=
  match configuredOrigin O originInput with
  | .error e => (c, .error e)
  | .ok origin =>
    match c.now sample with
    | (c, none) => (c, .ok (.missing .unknownKey))
    | (c, some now) =>
      match OrderedMap.lookup c.positive origin with
      | none => (c, .ok (.missing .unknownKey))
      | some entry =>
        if isDirectoryFresh A entry.freshness now then
          match entry.document.jwks.lookup thumbprint with
          | .unverified reason => (c, .ok (.missing reason))
          | .found key =>
            ({ c with selections := c.selections ++ [(c.selections.length, ⟨origin, key.thumbprint⟩)] },
              .ok (.found ⟨c.selections.length, origin, key⟩))
        else (c, .ok (.missing .unknownKey))

/-- `recheck`, of the object with an identity. -/
def recheck (c : DirectoryCache) (selection : ℕ) (sample : Sample) : DirectoryCache × Bool :=
  match c.now sample with
  | (c, none) => (c, false)
  | (c, some now) =>
    match OrderedMap.lookup c.selections selection with
    | none => (c, false)
    | some selected =>
      match OrderedMap.lookup c.positive selected.origin with
      | none => (c, false)
      | some current =>
        if isDirectoryFresh A current.freshness now then
          match current.document.jwks.lookup selected.thumbprint with
          | .unverified _ => (c, false)
          | .found key => (c, key.thumbprint = selected.thumbprint)
        else (c, false)

/-- `recordFailure`. -/
def recordFailure (c : DirectoryCache) (originInput : Text) (sample : Sample) :
    DirectoryCache × Except DirectoryError Unit :=
  match configuredOrigin O originInput with
  | .error e => (c, .error e)
  | .ok origin =>
    match c.now sample with
    | (c, none) => (c, .ok ())
    | (c, some now) =>
      let c := c.pruneNegative now
      if c.options.negativeSeconds = 0 then (c, .ok ())
      else
        let deadline := A.round (now + c.options.negativeSeconds * 1000)
        if maxSafeInteger < deadline then ({ c with healthy := false }, .ok ())
        else match OrderedMap.lookup c.negative origin with
        | some previous =>
          ({ c with negative := OrderedMap.set c.negative origin (max deadline previous) }, .ok ())
        | none =>
          if c.negative.length < c.options.maxNegativeEntries then
            ({ c with negative := OrderedMap.set c.negative origin (max deadline 0) }, .ok ())
          else ({ c with overflowUntil := max c.overflowUntil deadline }, .ok ())

/-- `fetchBlocked`. -/
def fetchBlocked (c : DirectoryCache) (originInput : Text) (sample : Sample) :
    DirectoryCache × Except DirectoryError Bool :=
  match configuredOrigin O originInput with
  | .error e => (c, .error e)
  | .ok origin =>
    match c.now sample with
    | (c, none) => (c, .ok true)
    | (c, some now) =>
      let c := c.pruneNegative now
      (c, .ok (now < c.overflowUntil ∨ now < (OrderedMap.lookup c.negative origin).getD 0))

end Operations

end DirectoryCache

end AgentSig.Discovery
