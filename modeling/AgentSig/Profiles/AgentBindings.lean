import AgentSig.Profiles.AgentOrigin
import AgentSig.Profiles.ProfileLimits

/-!
# Agent bindings

The associations of keys and origins that a configuration states, and the identity that is proposed for a
key that was selected. A request never adds an association.

## Main definitions

* `AgentBinding`, `createAgentBindings`: the associations
* `LocalIdentityProposal`, `proposeIdentity`: the identity of a selected key
-/

namespace AgentSig.Profiles

open Commons Core

/-- `AgentBinding`. -/
structure AgentBinding where
  thumbprint : Text
  origin : Text
  deriving DecidableEq, Repr

/-- A configured association: a plain object with the two properties and no other. A property without a data
value, or whose value is no string, is none. -/
structure BindingInput where
  thumbprint : Option Text
  origin : Option Text
  deriving DecidableEq, Repr

/-- `LocalIdentityProposal`. -/
inductive LocalIdentityProposal
  | keyThumbprint (thumbprint : Text)
  | directoryUrl (thumbprint canonicalOrigin directoryUrl : Text)
  deriving DecidableEq, Repr

/-- `validThumbprint`. A value that is no string is none. -/
def validThumbprint (value : Option Text) : Bool :=
  match value with
  | none => false
  | some value =>
    if value.length = 43 ∧ value.all base64UrlChar then
      let bytes := (Base64.urlDecode value).getD []
      bytes.length = 32 ∧ Base64.urlEncode bytes = value
    else false

/-- One round of the loop of `createAgentBindings`. An element that is no such object is none. -/
def addBinding (O : OriginPlatform) (limits : ProfileLimits) (entries : List AgentBinding)
    (input : Option BindingInput) : Except ProfileError (List AgentBinding) := do
  let some input := input | throw (.configuration .invalidAgentBinding)
  require (validThumbprint input.thumbprint) (.configuration .invalidAgentBinding)
  let (some thumbprint, some origin) := (input.thumbprint, input.origin)
    | throw (.configuration .invalidAgentBinding)
  let origin ← configuredAgentOrigin O origin limits.maxAgentUrlBytes
  return if ⟨thumbprint, origin⟩ ∈ entries then entries else entries ++ [⟨thumbprint, origin⟩]

/-- The associations of `createAgentBindings`. Inputs that are no array are none. -/
def createAgentBindings (O : OriginPlatform) (limits : ProfileLimits)
    (input : Option (List (Option BindingInput))) : Except ProfileError (List AgentBinding) := do
  let some input := input | throw (.configuration .invalidAgentBinding)
  require (input.length ≤ limits.maxAgentBindings) (.configuration .invalidAgentBinding)
  input.foldlM (addBinding O limits) []

/-- `proposeIdentity`. Values of other types are none. -/
def proposeIdentity (O : OriginPlatform) (limits : ProfileLimits) (entries : List AgentBinding)
    (selectedThumbprint : Option Text) (signedAgentClaim : Text) (requireBinding : Option Bool) :
    Except ProfileError LocalIdentityProposal := do
  require (validThumbprint selectedThumbprint) (.configuration .invalidAgentBinding)
  let (some thumbprint, some requireBinding) := (selectedThumbprint, requireBinding)
    | throw (.configuration .invalidAgentBinding)
  let origin ← canonicalAgentOrigin O signedAgentClaim limits.maxAgentUrlBytes
  if !requireBinding then return .keyThumbprint thumbprint
  else do
    let associated := entries.filter fun entry => entry.thumbprint = thumbprint
    require (associated ≠ []) (unverified .agentBindingMissing)
    require (associated.any fun entry => entry.origin = origin) (invalid .agentBindingMismatch)
    return .directoryUrl thumbprint origin
      (origin ++ ascii "/.well-known/" ++ ascii "http-message-signatures-directory")

end AgentSig.Profiles
