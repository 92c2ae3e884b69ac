import AgentSig.Profiles.Codes

/-!
# Loaded key sets

The keys of a set that was loaded, and the lookup of a key by its thumbprint. The label of a key never
selects it.

## Main definitions

* `LoadedVerificationKey`, `SkippedJwk`, `LoadedJwks`: a loaded set
* `LoadedJwks.lookup`: the key of a thumbprint
* `LoadedJwks.Contains`: a set has a key of a thumbprint

## Main results

* `LoadedJwks.lookup_eq_found`: what a lookup finds
-/

namespace AgentSig.Profiles

open Commons

/-- `LoadedVerificationKey`; the public key is its octets. -/
structure LoadedVerificationKey where
  keyIndex : ℕ
  kid : Option Text
  thumbprint : Text
  publicKey : List UInt8
  knownTestKey : Bool
  deriving DecidableEq, Repr

/-- `SkippedKeyReason`. -/
inductive SkippedKeyReason
  | unsupportedAlgorithm
  | unknownAlgorithmName
  deriving DecidableEq, Repr

/-- `SkippedJwk`. The reason of a key of another type that has a curve `Ed25519` is undefined. -/
structure SkippedJwk where
  keyIndex : ℕ
  kid : Option Text
  thumbprint : Text
  kty : Text
  curve : Option Text
  alg : Option Text
  reason : Option SkippedKeyReason
  deriving DecidableEq, Repr

/-- `LoadedJwks`. -/
structure LoadedJwks where
  keys : List LoadedVerificationKey
  skipped : List SkippedJwk
  deriving DecidableEq, Repr

/-- `JwksLookup`; the reason is `unsupported-algorithm` or `unknown-key`. -/
inductive JwksLookup
  | found (key : LoadedVerificationKey)
  | unverified (reason : UnverifiedCode)
  deriving DecidableEq, Repr

namespace LoadedJwks

/-- `lookup`. -/
def lookup (jwks : LoadedJwks) (thumbprint : Text) : JwksLookup :=
  match jwks.keys.find? fun entry => entry.thumbprint = thumbprint with
  | some key => .found key
  | none =>
    if jwks.skipped.any fun entry => entry.thumbprint = thumbprint then
      .unverified .unsupportedAlgorithm
    else .unverified .unknownKey

/-- A set has a key of a thumbprint that may be selected. -/
def Contains (jwks : LoadedJwks) (thumbprint : Text) : Prop :=
  ∃ key ∈ jwks.keys, key.thumbprint = thumbprint

variable {jwks : LoadedJwks} {thumbprint : Text} {key : LoadedVerificationKey}

/-- A lookup finds a key of the thumbprint. -/
theorem lookup_eq_found (h : jwks.lookup thumbprint = .found key) :
    key ∈ jwks.keys ∧ key.thumbprint = thumbprint := by
  unfold lookup at h
  split at h
  · rename_i hfind
    obtain rfl := JwksLookup.found.inj h
    exact ⟨List.mem_of_find?_eq_some hfind, by simpa using List.find?_some hfind⟩
  · split at h <;> simp at h

theorem contains_of_lookup (h : jwks.lookup thumbprint = .found key) : jwks.Contains thumbprint := by
  obtain ⟨hmem, hthumbprint⟩ := lookup_eq_found h
  exact ⟨key, hmem, hthumbprint⟩

end LoadedJwks

end AgentSig.Profiles
