import AgentSig.Core.Uri
import AgentSig.Profiles.Codes

/-!
# Agent origins

The identity that an agent claims is an HTTPS origin. Its spelling is checked before the URL
parser of the platform sees it, and the parser must then agree with the spelling.

## Main definitions

* `UrlParts`, `OriginPlatform`: `URL` and `isIP`
* `canonicalAgentOrigin`: the origin of a claimed URL
* `configuredAgentOrigin`: the origin of a configured URL
-/

namespace AgentSig.Profiles

open Commons Core StructuredFields

/-- The attributes of a parsed `URL`. -/
structure UrlParts where
  protocol : Text
  username : Text
  password : Text
  hostname : Text
  port : Text
  pathname : Text
  search : Text
  hash : Text
  deriving DecidableEq, Repr

/-- The platform functions that the check of an origin calls. -/
structure OriginPlatform where
  /-- `new URL(value)`, or none if it throws. -/
  url : Text → Option UrlParts
  /-- `isIP(value)`. -/
  isIP : Text → ℕ

/-- The authority of `/^https:\/\/([^/?#]+)(\/?)$/i`. -/
def originAuthority (value : Text) : Option Text :=
  let rest := value.drop 8
  let authority := rest.takeWhile fun c => c != 47 && c != 63 && c != 35
  let slash := rest.dropWhile fun c => c != 47 && c != 63 && c != 35
  if toLowerCase (value.take 8) = ascii "https://" ∧ authority ≠ [] ∧ (slash = [] ∨ slash = [47]) then
    some authority
  else none

/-- The groups of `/^([^:]+)(?::([0-9]+))?$/`. -/
def hostPort (authority : Text) : Option (Text × Option Text) :=
  let host := authority.takeWhile (· != 58)
  if host = [] then none
  else match authority.dropWhile (· != 58) with
    | [] => some (host, none)
    | _ :: port => if port ≠ [] ∧ port.all digit then some (host, some port) else none

/-- The parsed URL repeats the host, and has no other part. -/
def originAgrees (O : OriginPlatform) (parsed : UrlParts) (lowerHost : Text) : Bool :=
  parsed.protocol = ascii "https:" ∧ parsed.hostname ≠ [] ∧ parsed.username = [] ∧
    parsed.password = [] ∧ parsed.port = [] ∧ parsed.search = [] ∧ parsed.hash = [] ∧
    parsed.pathname = [47] ∧ O.isIP lowerHost = 0 ∧ O.isIP parsed.hostname = 0 ∧
    parsed.hostname = lowerHost

/-- `canonicalAgentOrigin`, of a string. -/
def canonicalAgentOrigin (O : OriginPlatform) (value : Text) (maximumBytes : ℤ) :
    Except ProfileError Text := do
  require (0 ≤ maximumBytes ∧ maximumBytes ≤ maxSafeInteger) (.configuration .invalidResourceLimits)
  require (value.length ≤ maximumBytes) (unverified .resourceLimit)
  require (value ≠ [] ∧ value.all fun c => 0x21 ≤ c && c ≤ 0x7e) (invalid .malformedAgent)
  match originAuthority value with
  | none => throw (invalid .malformedAgent)
  | some authority => do
    require (¬ authority.any fun c => (ascii "\\@%[]").contains c) (invalid .malformedAgent)
    match hostPort authority with
    | none => throw (invalid .malformedAgent)
    | some (host, port) => do
      require (port = none ∨ port = some (ascii "443")) (invalid .malformedAgent)
      match O.url value with
      | none => throw (invalid .malformedAgent)
      | some parsed => do
        let lowerHost := toLowerCase host
        require (originAgrees O parsed lowerHost) (invalid .malformedAgent)
        return ascii "https://" ++ lowerHost

/-- `configuredAgentOrigin`, of a string. -/
def configuredAgentOrigin (O : OriginPlatform) (value : Text) (maximumBytes : ℤ) :
    Except ProfileError Text :=
  (canonicalAgentOrigin O value maximumBytes).mapError fun e =>
    if e.rejection?.isSome then .configuration .invalidAgentBinding else e

/-- A URL parser that agrees with the spelling of an origin. -/
def spelledOrigins : OriginPlatform where
  url value := (originAuthority value).map fun host =>
    ⟨ascii "https:", [], [], toLowerCase host, [], [47], [], []⟩
  isIP _ := 0

end AgentSig.Profiles
