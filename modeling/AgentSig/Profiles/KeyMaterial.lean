import AgentSig.Profiles.Metadata

/-!
# Key material

The public material of an Ed25519 key, read from a configured key. Private material is refused rather than
dropped, and the public octets have one spelling.

## Main definitions

* `KeyInput`: a configured key, untrusted
* `publicMaterial`: the checks on it
* `isKnownTestKey`: the keys of published examples
-/

namespace AgentSig.Profiles

open Commons

/-- An own property of a configured key. -/
inductive KeyProperty
  | accessor
  | text (value : Text)
  | other
  deriving DecidableEq, Repr

/-- A configured key: whether it has an own `d`, and the own properties that are read. -/
structure KeyInput where
  hasD : Bool
  kty : Option KeyProperty
  crv : Option KeyProperty
  x : Option KeyProperty
  deriving DecidableEq, Repr

/-- `Ed25519PublicMaterial`, whose `kty` is `OKP` and whose `crv` is `Ed25519`. -/
structure Ed25519PublicMaterial where
  x : Text
  deriving DecidableEq, Repr

/-- `ownValue`; a value that is no string is none. -/
def ownValue : Option KeyProperty → Except ProfileError (Option Text)
  | none => throw (.configuration .invalidKeyConfiguration)
  | some .accessor => throw (.configuration .invalidKeyConfiguration)
  | some (.text value) => return some value
  | some .other => return none

/-- `publicMaterial`. An input that is no object, or an array, is none. -/
def publicMaterial (input : Option KeyInput) : Except ProfileError Ed25519PublicMaterial := do
  let some input := input | throw (.configuration .invalidKeyConfiguration)
  -- Presence is sufficient: a private field that is undefined is refused too.
  require (input.hasD = false) (.configuration .invalidKeyConfiguration)
  let kty ← ownValue input.kty
  let crv ← ownValue input.crv
  let x ← ownValue input.x
  require (kty = some (ascii "OKP") ∧ crv = some (ascii "Ed25519")) (.configuration .invalidKeyConfiguration)
  let some x := x | throw (.configuration .invalidKeyConfiguration)
  require (x.length = 43 ∧ x.all base64UrlChar) (.configuration .invalidKeyConfiguration)
  let bytes := (Base64.urlDecode x).getD []
  require (bytes.length = 32 ∧ Base64.urlEncode bytes = x) (.configuration .invalidKeyConfiguration)
  return ⟨x⟩

/-- `KNOWN_TEST_KEY_THUMBPRINTS`. -/
def KNOWN_TEST_KEY_THUMBPRINTS : List Text :=
  [ascii "poqkLGiymh_W0uP6PZFw-dvez3QJT5SolqXBCW38r0U", ascii "DR68nui99ukl-GUgfzQGaU3VwqRtArw-_DCN4LFtY84"]

/-- `isKnownTestKey`. -/
def isKnownTestKey (thumbprintValue : Text) : Bool := KNOWN_TEST_KEY_THUMBPRINTS.contains thumbprintValue

end AgentSig.Profiles
