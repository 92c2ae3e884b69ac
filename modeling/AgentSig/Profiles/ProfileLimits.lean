import AgentSig.Profiles.ReplayStore

/-!
# Profile limits

The local resource budgets of a security context.

## Main definitions

* `ProfileLimits`, `resolveProfileLimits`: resolved budgets
* `encodedNonceLength`: the length of a generated nonce
* `ReplayLimits.admitsScope`: a scope that a verifier configuration accepts
-/

namespace AgentSig.Profiles

open Commons Core StructuredFields

/-- `ProfileLimits`. -/
structure ProfileLimits where
  maxJwksBytes : ℕ
  maxKeys : ℕ
  maxCandidates : ℕ
  maxNonceBytes : ℕ
  generatedNonceBytes : ℕ
  maxScopeBytes : ℕ
  maxAgentBindings : ℕ
  maxAgentUrlBytes : ℕ
  deriving DecidableEq, Repr

/-- `DEFAULT_PROFILE_LIMITS`. -/
def DEFAULT_PROFILE_LIMITS : ProfileLimits where
  maxJwksBytes := 262144
  maxKeys := 64
  maxCandidates := 16
  maxNonceBytes := 256
  generatedNonceBytes := 32
  maxScopeBytes := 256
  maxAgentBindings := 64
  maxAgentUrlBytes := 2048

/-- The part of the limits that stores read. -/
def ProfileLimits.replay (limits : ProfileLimits) : ReplayLimits :=
  ⟨limits.maxScopeBytes, limits.maxNonceBytes⟩

/-- `Partial<ProfileLimits>`. -/
structure ProfileLimitOverrides where
  maxJwksBytes : Option Number
  maxKeys : Option Number
  maxCandidates : Option Number
  maxNonceBytes : Option Number
  generatedNonceBytes : Option Number
  maxScopeBytes : Option Number
  maxAgentBindings : Option Number
  maxAgentUrlBytes : Option Number

/-- No overrides. -/
def ProfileLimitOverrides.none : ProfileLimitOverrides := ⟨.none, .none, .none, .none, .none, .none,
  .none, .none⟩

/-- `Math.ceil(bytes * 4 / 3)`: from `2 ^ 52` on the quotient is rounded to the nearest integer. -/
def encodedNonceLength (bytes : ℕ) : ℕ :=
  if bytes * 4 < 3 * 2 ^ 52 then (bytes * 4 + 2) / 3 else (bytes * 8 + 3) / 6

/-- `resolveProfileLimits`. -/
def resolveProfileLimits (overrides : ProfileLimitOverrides) : Except ProfileError ProfileLimits := do
  let resolve := resolveNumericOption .invalidResourceLimits
  let limits : ProfileLimits := {
    maxJwksBytes := ← resolve DEFAULT_PROFILE_LIMITS.maxJwksBytes true overrides.maxJwksBytes
    maxKeys := ← resolve DEFAULT_PROFILE_LIMITS.maxKeys true overrides.maxKeys
    maxCandidates := ← resolve DEFAULT_PROFILE_LIMITS.maxCandidates true overrides.maxCandidates
    maxNonceBytes := ← resolve DEFAULT_PROFILE_LIMITS.maxNonceBytes true overrides.maxNonceBytes
    generatedNonceBytes :=
      ← resolve DEFAULT_PROFILE_LIMITS.generatedNonceBytes false overrides.generatedNonceBytes
    maxScopeBytes := ← resolve DEFAULT_PROFILE_LIMITS.maxScopeBytes true overrides.maxScopeBytes
    maxAgentBindings :=
      ← resolve DEFAULT_PROFILE_LIMITS.maxAgentBindings true overrides.maxAgentBindings
    maxAgentUrlBytes :=
      ← resolve DEFAULT_PROFILE_LIMITS.maxAgentUrlBytes true overrides.maxAgentUrlBytes }
  require (encodedNonceLength limits.generatedNonceBytes ≤ maxSafeInteger ∧
    encodedNonceLength limits.generatedNonceBytes ≤ limits.maxNonceBytes)
    (.configuration .invalidResourceLimits)
  return limits

/-- A scope that `resolveVerificationConfiguration` accepts. -/
def ReplayLimits.admitsScope (limits : ReplayLimits) (scope : Text) : Bool :=
  scope ≠ [] ∧ scope.length ≤ limits.maxScopeBytes ∧ isAscii scope

end AgentSig.Profiles
