import AgentSig.Profiles.JwkPolicy
import AgentSig.Profiles.JwksInput
import AgentSig.Profiles.KeyMaterial
import AgentSig.Profiles.ProfileLimits

/-!
# Loading a key set

A key set is loaded from a snapshot of its input. Every entry passes the checks on its shape, its material,
its usage and its algorithm, or the load fails and reports the entry. The keys that can verify signatures
are kept apart from those that are only reported.

## Main definitions

* `loadEntry`: the checks on one entry
* `loadJwks`: the keys of an input

## Main results

* `loadEntry_reindex`: the position of an entry is only recorded
* `loadEntries_spec`: what was loaded are the results of the entries
* `loadEntries_eq_ok_iff`: a load succeeds when every entry passes
-/

namespace AgentSig.Profiles

open Commons

/-- What `loadJwks` throws: `InvalidJwksError`, or an error of the limits. -/
inductive LoadJwksError
  | invalidJwks (diagnostic : JwksDiagnostic)
  | configuration (error : ProfileError)
  deriving DecidableEq

/-- The member is the string. -/
def JwkRecord.isText (key : JwkRecord) (name : String) (value : String) : Bool :=
  match key.own name with
  | some (.text t) => t = ascii value
  | _ => false

/-- What is recorded of an entry that passed the checks. -/
def loadedKey (keyIndex : ℕ) (key : JwkRecord) (material : PublicJwkMaterial)
    (reason : Option SkippedKeyReason) : LoadedVerificationKey ⊕ SkippedJwk :=
  if material.selectable then
    .inl ⟨keyIndex, key.kidLabel, material.thumbprint, material.publicKey.octets,
      isKnownTestKey material.thumbprint⟩
  else
    .inr ⟨keyIndex, key.kidLabel, material.thumbprint, material.kty, material.curve,
      (key.own "alg").bind textOf, reason⟩

/-- One round of the loop of `loadJwks`: a key for verification, or one that is only reported. -/
def loadEntry (host : JwksHost) (format : JwksFormat) (keyIndex : ℕ) (entry : JsonValue) :
    Except JwksDiagnostic (LoadedVerificationKey ⊕ SkippedJwk) := do
  let .object (key : JwkRecord) := entry | .error ⟨"key must be a JSON object", some keyIndex, none⟩
  require (key.isText "kty" "oct" = false)
    (keyDiagnostic "public JWKS must not contain symmetric keys" keyIndex key)
  require ((key.own "kid").isNone ∨ key.kidLabel.isSome)
    (keyDiagnostic "kid must be a string" keyIndex key)
  let material ← (inspectPublicJwk host key).mapError fun rule => keyDiagnostic rule keyIndex key
  let kid := key.kidLabel
  require (¬ (format = .wgDirectory00 ∧ kid ≠ none ∧ kid ≠ some material.thumbprint))
    (keyDiagnostic "kid must equal the RFC 7638 thumbprint" keyIndex key)
  validateJwkUsage key keyIndex
  let reason ← validateJwkAlgorithm key keyIndex format
  return loadedKey keyIndex key material reason

/-- `keys.push` and `skipped.push`. -/
def LoadedJwks.push (jwks : LoadedJwks) : LoadedVerificationKey ⊕ SkippedJwk → LoadedJwks
  | .inl key => { jwks with keys := jwks.keys ++ [key] }
  | .inr key => { jwks with skipped := jwks.skipped ++ [key] }

/-- The loop of `loadJwks` over the entries from an index on. -/
def loadEntries (host : JwksHost) (format : JwksFormat) (jwks : LoadedJwks) (keyIndex : ℕ) :
    List JsonValue → Except JwksDiagnostic LoadedJwks
  | [] => .ok jwks
  | entry :: entries => do
    let loaded ← loadEntry host format keyIndex entry
    loadEntries host format (jwks.push loaded) (keyIndex + 1) entries

/-- The part of `loadJwks` that reads the snapshot. -/
def loadSnapshot (host : JwksHost) (format : JwksFormat) (limits : ProfileLimits) (snapshot : JsonValue) :
    Except JwksDiagnostic LoadedJwks :=
  match snapshot with
  | .object members =>
    match OrderedMap.lookup members (ascii "keys") with
    | some (.array entries) => do
      require (entries.length ≤ limits.maxKeys) ⟨"keys length must not exceed maxKeys", none, none⟩
      loadEntries host format ⟨[], []⟩ 0 entries
    | _ => .error ⟨"JWKS must be an object with an own keys array", none, none⟩
  | _ => .error ⟨"JWKS must be an object with an own keys array", none, none⟩

/-- `loadJwks`. -/
def loadJwks (host : JwksHost) (heap : Snapshot.Heap) (input : Snapshot.JwksInput) (format : JwksFormat)
    (overrides : ProfileLimitOverrides) : Except LoadJwksError LoadedJwks := do
  let limits ← (resolveProfileLimits overrides).mapError .configuration
  let snapshot ← (Snapshot.snapshotJwksInput host.format heap input limits.maxJwksBytes).mapError fun _ =>
    .invalidJwks ⟨"input must be bounded valid JSON data within maxJwksBytes", none, none⟩
  (loadSnapshot host format limits snapshot).mapError .invalidJwks

/-! ## One entry -/

variable {host : JwksHost} {format : JwksFormat}

theorem mapError_eq_ok {ε ε' α : Type} {x : Except ε α} {f : ε → ε'} {a : α} :
    x.mapError f = .ok a ↔ x = .ok a := by
  cases x <;> simp [Except.mapError]

/-- The checks of an entry besides the ones on its metadata. -/
structure Admits (host : JwksHost) (format : JwksFormat) (key : JwkRecord) (material : PublicJwkMaterial) :
    Prop where
  symmetric : key.isText "kty" "oct" = false
  kid : (key.own "kid").isNone ∨ key.kidLabel.isSome
  inspect : inspectPublicJwk host key = .ok material
  label : ¬ (format = .wgDirectory00 ∧ key.kidLabel ≠ none ∧ key.kidLabel ≠ some material.thumbprint)

/-- An entry passes when it is an object that is admitted and whose metadata the rules admit. -/
theorem loadEntry_eq_ok {i : ℕ} {entry : JsonValue} {r : LoadedVerificationKey ⊕ SkippedJwk} :
    loadEntry host format i entry = .ok r ↔ ∃ (key : JwkRecord) (material : PublicJwkMaterial)
      (reason : Option SkippedKeyReason), entry = .object key ∧ Admits host format key material ∧
        validateJwkUsage key i = .ok () ∧ validateJwkAlgorithm key i format = .ok reason ∧
        r = loadedKey i key material reason := by
  cases entry with
  | object key =>
    simp only [loadEntry, bind_eq_ok, require_eq_ok, exists_const, mapError_eq_ok, pure_eq_ok,
      JsonValue.object.injEq]
    constructor
    · rintro ⟨hsymmetric, hkid, material, hinspect, hlabel, ⟨⟩, husage, reason, halgorithm, rfl⟩
      exact ⟨key, material, reason, rfl, ⟨hsymmetric, hkid, hinspect, hlabel⟩, husage, halgorithm, rfl⟩
    · rintro ⟨key', material, reason, rfl, hadmits, husage, halgorithm, rfl⟩
      exact ⟨hadmits.symmetric, hadmits.kid, material, hadmits.inspect, hadmits.label, (), husage, reason,
        halgorithm, rfl⟩
  | _ => simp [loadEntry]

/-- A record at another position. -/
def atIndex (i : ℕ) : LoadedVerificationKey ⊕ SkippedJwk → LoadedVerificationKey ⊕ SkippedJwk
  | .inl key => .inl { key with keyIndex := i }
  | .inr key => .inr { key with keyIndex := i }

theorem atIndex_loadedKey (i j : ℕ) (key : JwkRecord) (material : PublicJwkMaterial)
    (reason : Option SkippedKeyReason) :
    atIndex j (loadedKey i key material reason) = loadedKey j key material reason := by
  unfold loadedKey
  split <;> rfl

/-- The position of an entry is only recorded. -/
theorem loadEntry_reindex {i : ℕ} {entry : JsonValue} {r : LoadedVerificationKey ⊕ SkippedJwk}
    (h : loadEntry host format i entry = .ok r) (j : ℕ) :
    loadEntry host format j entry = .ok (atIndex j r) := by
  obtain ⟨key, material, reason, rfl, hadmits, husage, halgorithm, rfl⟩ := loadEntry_eq_ok.mp h
  exact loadEntry_eq_ok.mpr ⟨key, material, reason, rfl, hadmits, validateJwkUsage_reindex husage j,
    validateJwkAlgorithm_reindex halgorithm j, atIndex_loadedKey i j key material reason⟩

/-! ## The loop -/

/-- What the loop has recorded: the results of the entries in their order. -/
theorem loadEntries_spec {jwks loaded : LoadedJwks} {n : ℕ} {entries : List JsonValue}
    (h : loadEntries host format jwks n entries = .ok loaded) :
    (∀ key, key ∈ loaded.keys ↔ key ∈ jwks.keys ∨ ∃ i entry, entries[i]? = some entry ∧
      loadEntry host format (n + i) entry = .ok (.inl key)) ∧
    ∀ key, key ∈ loaded.skipped ↔ key ∈ jwks.skipped ∨ ∃ i entry, entries[i]? = some entry ∧
      loadEntry host format (n + i) entry = .ok (.inr key) := by
  induction entries generalizing jwks n with
  | nil =>
    cases h
    simp
  | cons entry entries ih =>
    obtain ⟨r, hentry, hrest⟩ := bind_eq_ok.mp h
    obtain ⟨hkeys, hskipped⟩ := ih hrest
    -- the first entry is at the index of the loop, the others are after it
    have hsplit : ∀ x, (∃ i e, (entry :: entries)[i]? = some e ∧
        loadEntry host format (n + i) e = .ok x) ↔ r = x ∨ ∃ i e, entries[i]? = some e ∧
          loadEntry host format (n + 1 + i) e = .ok x := by
      intro x
      constructor
      · rintro ⟨i, e, hi, he⟩
        cases i with
        | zero =>
          obtain rfl := Option.some.inj hi
          exact .inl (Except.ok.inj (hentry.symm.trans he))
        | succ i =>
          have hindex : n + (i + 1) = n + 1 + i := by omega
          rw [hindex] at he
          exact .inr ⟨i, e, hi, he⟩
      · rintro (rfl | ⟨i, e, hi, he⟩)
        · exact ⟨0, entry, rfl, hentry⟩
        · refine ⟨i + 1, e, hi, ?_⟩
          have hindex : n + (i + 1) = n + 1 + i := by omega
          rwa [hindex]
    constructor
    · intro key
      rw [hkeys, hsplit]
      cases r <;> simp [LoadedJwks.push, or_assoc, eq_comm]
    · intro key
      rw [hskipped, hsplit]
      cases r <;> simp [LoadedJwks.push, or_assoc, eq_comm]

/-- The loop succeeds when every entry passes. -/
theorem loadEntries_eq_ok_iff {jwks : LoadedJwks} {n : ℕ} {entries : List JsonValue} :
    (∃ loaded, loadEntries host format jwks n entries = .ok loaded) ↔
      ∀ entry ∈ entries, ∃ r, loadEntry host format 0 entry = .ok r := by
  induction entries generalizing jwks n with
  | nil => simp [loadEntries]
  | cons entry entries ih =>
    rw [List.forall_mem_cons]
    simp only [loadEntries, bind_eq_ok]
    constructor
    · rintro ⟨loaded, r, hentry, hrest⟩
      exact ⟨⟨_, loadEntry_reindex hentry 0⟩, ih.mp ⟨loaded, hrest⟩⟩
    · rintro ⟨⟨r, hentry⟩, hrest⟩
      obtain ⟨loaded, hloaded⟩ := ih.mpr hrest
      exact ⟨loaded, atIndex n r, loadEntry_reindex hentry n, hloaded⟩

end AgentSig.Profiles
