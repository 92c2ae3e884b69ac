import AgentSig.Profiles.Jwks
import AgentSig.Profiles.PublicJwk

/-!
# Usage and algorithm rules of a key

What the metadata of a key of a set may say. A key that verifies signatures is held to the rules of its
format, and one of another type is not, except for names of the other format.

## Main definitions

* `validateJwkUsage`: the rules for `use` and `key_ops`
* `validateJwkAlgorithm`: the rules for `alg`
* `Ed25519Policy`: what the rules admit for an Ed25519 key

## Main results

* `ed25519Policy_iff`: the rules admit an Ed25519 key exactly when the policy does
* `validateJwkUsage_reindex`, `validateJwkAlgorithm_reindex`: the position of a key is only reported
-/

namespace AgentSig.Profiles

open Commons

/-- `JwksDiagnostic`. -/
structure JwksDiagnostic where
  rule : String
  keyIndex : Option ℕ
  kid : Option Text
  deriving DecidableEq, Repr

/-- `JwksFormat`: `jwks` or `wg-directory-00`. -/
inductive JwksFormat
  | jwks
  | wgDirectory00
  deriving DecidableEq, Repr

/-- The label of a key in a diagnostic. -/
def JwkRecord.kidLabel (key : JwkRecord) : Option Text :=
  match key.own "kid" with
  | some (.text kid) => some kid
  | _ => none

/-- `invalidJwks`, of a key. -/
def keyDiagnostic (rule : String) (keyIndex : ℕ) (key : JwkRecord) : JwksDiagnostic :=
  ⟨rule, some keyIndex, key.kidLabel⟩

/-- The key has the curve `Ed25519`. -/
def JwkRecord.curveEd25519 (key : JwkRecord) : Bool :=
  match key.own "crv" with
  | some (.text curve) => curve = ascii "Ed25519"
  | _ => false

/-! ## Usage -/

/-- `signatureOperations`. -/
def signatureOperations : List Text := [ascii "sign", ascii "verify"]

/-- `encryptionOperations`. -/
def encryptionOperations : List Text :=
  [ascii "encrypt", ascii "decrypt", ascii "wrapKey", ascii "unwrapKey", ascii "deriveKey",
    ascii "deriveBits"]

/-- The text of a value that is a string. -/
def textOf : JsonValue → Option Text
  | .text t => some t
  | _ => none

/-- The part of `validateJwkUsage` that reads `use`. -/
def usageUse (key : JwkRecord) (keyIndex : ℕ) : Except JwksDiagnostic (Option Text) :=
  match key.own "use" with
  | none => .ok none
  | some (.text use) => .ok (some use)
  | some _ => .error (keyDiagnostic "use must be a string" keyIndex key)

/-- The part of `validateJwkUsage` that reads `key_ops`. -/
def usageOperations (key : JwkRecord) (keyIndex : ℕ) : Except JwksDiagnostic (Option (List Text)) :=
  match key.own "key_ops" with
  | none => .ok none
  | some (.array values) => do
    let some operations := values.mapM textOf
      | .error (keyDiagnostic "key_ops must be an array of strings" keyIndex key)
    require operations.Nodup (keyDiagnostic "key_ops must not contain duplicates" keyIndex key)
    return some operations
  | some _ => .error (keyDiagnostic "key_ops must be an array of strings" keyIndex key)

/-- A use and operations that contradict each other. -/
def inconsistentUsage (use : Option Text) (operations : List Text) : Bool :=
  (use == some (ascii "sig") && operations.any encryptionOperations.contains) ||
    (use == some (ascii "enc") && operations.any signatureOperations.contains)

/-- `validateJwkUsage`. -/
def validateJwkUsage (key : JwkRecord) (keyIndex : ℕ) : Except JwksDiagnostic Unit := do
  let use ← usageUse key keyIndex
  let operations ← usageOperations key keyIndex
  require (operations.all fun operations => !inconsistentUsage use operations)
    (keyDiagnostic "use and key_ops must be consistent" keyIndex key)
  if key.curveEd25519 then do
    require (use = none ∨ use = some (ascii "sig"))
      (keyDiagnostic "Ed25519 use must be sig" keyIndex key)
    require (operations.all fun operations => operations.contains (ascii "verify") &&
        operations.all signatureOperations.contains)
      (keyDiagnostic "Ed25519 key_ops must include verify and only sign/verify" keyIndex key)
  else return ()

/-! ## Algorithms -/

/-- `JOSE_ALGORITHM_NAMES`. -/
def JOSE_ALGORITHM_NAMES : List Text :=
  [ascii "HS256", ascii "HS384", ascii "HS512", ascii "RS256", ascii "RS384", ascii "RS512",
    ascii "ES256", ascii "ES384", ascii "ES512", ascii "PS256", ascii "PS384", ascii "PS512", ascii "none",
    ascii "RSA1_5", ascii "RSA-OAEP", ascii "RSA-OAEP-256", ascii "A128KW", ascii "A192KW", ascii "A256KW",
    ascii "dir", ascii "ECDH-ES", ascii "ECDH-ES+A128KW", ascii "ECDH-ES+A192KW", ascii "ECDH-ES+A256KW",
    ascii "A128GCMKW", ascii "A192GCMKW", ascii "A256GCMKW", ascii "PBES2-HS256+A128KW",
    ascii "PBES2-HS384+A192KW", ascii "PBES2-HS512+A256KW", ascii "EdDSA"]

/-- `HTTP_SIGNATURE_ALGORITHM_NAMES`. -/
def HTTP_SIGNATURE_ALGORITHM_NAMES : List Text :=
  [ascii "rsa-pss-sha512", ascii "rsa-v1_5-sha256", ascii "hmac-sha256", ascii "ecdsa-p256-sha256",
    ascii "ecdsa-p384-sha384", ascii "ed25519"]

namespace JwksFormat

/-- The name of the supported algorithm in a format. -/
def supportedName : JwksFormat → Text
  | .jwks => ascii "EdDSA"
  | .wgDirectory00 => ascii "ed25519"

/-- The algorithm names of a format. -/
def ownNames : JwksFormat → List Text
  | .jwks => JOSE_ALGORITHM_NAMES
  | .wgDirectory00 => HTTP_SIGNATURE_ALGORITHM_NAMES

/-- The algorithm names of the other format. -/
def otherNames : JwksFormat → List Text
  | .jwks => HTTP_SIGNATURE_ALGORITHM_NAMES
  | .wgDirectory00 => JOSE_ALGORITHM_NAMES

end JwksFormat

/-- The part of `validateJwkAlgorithm` that reads `alg`. -/
def algorithmName (key : JwkRecord) (keyIndex : ℕ) : Except JwksDiagnostic (Option Text) :=
  match key.own "alg" with
  | none => .ok none
  | some (.text alg) =>
    if isAscii alg then .ok (some alg)
    else .error (keyDiagnostic "alg must be an ASCII string" keyIndex key)
  | some _ => .error (keyDiagnostic "alg must be an ASCII string" keyIndex key)

/-- `validateJwkAlgorithm`. -/
def validateJwkAlgorithm (key : JwkRecord) (keyIndex : ℕ) (format : JwksFormat) :
    Except JwksDiagnostic (Option SkippedKeyReason) := do
  let alg ← algorithmName key keyIndex
  if key.curveEd25519 then do
    require (alg = none ∨ alg = some format.supportedName)
      (keyDiagnostic "Ed25519 alg must match the selected JWKS format" keyIndex key)
    return none
  else
    match alg with
    | none => return some .unsupportedAlgorithm
    | some alg =>
      require (alg ∉ format.otherNames)
        (keyDiagnostic "alg belongs to the opposite JWKS format" keyIndex key)
      require (alg ≠ format.supportedName)
        (keyDiagnostic "Ed25519 algorithm name requires crv Ed25519" keyIndex key)
      return some (if alg ∈ format.ownNames then .unsupportedAlgorithm else .unknownAlgorithmName)

/-! ## What the rules admit -/

/-- What the rules admit for an Ed25519 key: the use and the operations are those of signatures, and the
algorithm is the one of the format, each if it is there. -/
structure Ed25519Policy (format : JwksFormat) (key : JwkRecord) : Prop where
  use : key.own "use" = none ∨ key.own "use" = some (.text (ascii "sig"))
  operations : key.own "key_ops" = none ∨ ∃ operations : List Text,
    key.own "key_ops" = some (.array (operations.map .text)) ∧ operations.Nodup ∧
      ascii "verify" ∈ operations ∧
        ∀ operation ∈ operations, operation = ascii "sign" ∨ operation = ascii "verify"
  alg : key.own "alg" = none ∨ key.own "alg" = some (.text format.supportedName)

theorem mapM_textOf {values : List JsonValue} {operations : List Text} :
    values.mapM textOf = some operations ↔ values = operations.map .text := by
  induction values generalizing operations with
  | nil => cases operations <;> simp
  | cons v vs ih =>
    cases operations with
    | nil =>
      simp only [List.mapM_cons, Option.bind_eq_bind, Option.bind_eq_some_iff, Option.pure_def,
        List.map_nil]
      simp
    | cons t ts =>
      simp only [List.mapM_cons, Option.bind_eq_bind, Option.bind_eq_some_iff, Option.pure_def, ih,
        Option.some.injEq, List.cons.injEq, List.map_cons]
      cases v <;> simp [textOf]

theorem usageUse_eq_ok {key : JwkRecord} {keyIndex : ℕ} {use : Option Text} :
    usageUse key keyIndex = .ok use ↔ key.own "use" = use.map .text := by
  unfold usageUse
  split
  · rename_i hown
    rw [hown]
    cases use <;> simp
  · rename_i u hown
    rw [hown]
    cases use <;> simp
  · rename_i v hv hown
    rw [hown]
    cases use with
    | none => simp
    | some u =>
      simp only [reduceCtorEq, Option.map_some, Option.some.injEq, false_iff]
      exact fun heq => hv u heq

theorem usageOperations_eq_ok {key : JwkRecord} {keyIndex : ℕ} {operations : Option (List Text)} :
    usageOperations key keyIndex = .ok operations ↔
      key.own "key_ops" = operations.map (fun ops => .array (ops.map .text)) ∧
        ∀ ops ∈ operations, ops.Nodup := by
  unfold usageOperations
  split
  · rename_i hown
    rw [hown]
    cases operations <;> simp
  · rename_i values hown
    rw [hown]
    cases hmap : values.mapM textOf with
    | none =>
      have hnone : ∀ ops : List Text, values ≠ ops.map .text := by
        intro ops heq
        rw [mapM_textOf.mpr heq] at hmap
        cases hmap
      cases operations with
      | none => simp
      | some ops => simp [hnone ops]
    | some ops =>
      have hvalues := mapM_textOf.mp hmap
      have hinj : ∀ ops' : List Text, ops.map JsonValue.text = ops'.map .text ↔ ops = ops' := fun ops' =>
        List.map_inj_right fun a b h => by simpa using h
      cases operations with
      | none => simp
      | some ops' =>
        simp only [bind_eq_ok, require_eq_ok, exists_const, pure_eq_ok, Option.some.injEq,
          Option.map_some, JsonValue.array.injEq, hvalues, hinj, Option.mem_def]
        constructor
        · rintro ⟨hnodup, rfl⟩
          exact ⟨rfl, by rintro ops rfl; exact hnodup⟩
        · rintro ⟨rfl, hnodup⟩
          exact ⟨hnodup ops rfl, rfl⟩
  · rename_i v hv hown
    rw [hown]
    cases operations with
    | none => simp
    | some ops =>
      simp only [reduceCtorEq, Option.map_some, Option.some.injEq, false_iff]
      exact fun heq => hv _ heq.1

theorem algorithmName_eq_ok {key : JwkRecord} {keyIndex : ℕ} {alg : Option Text} :
    algorithmName key keyIndex = .ok alg ↔
      key.own "alg" = alg.map .text ∧ ∀ name ∈ alg, isAscii name := by
  unfold algorithmName
  split
  · rename_i hown
    rw [hown]
    cases alg <;> simp
  · rename_i name hown
    rw [hown]
    split
    · rename_i hascii
      cases alg with
      | none => simp
      | some other =>
        simp only [Except.ok.injEq, Option.map_some, Option.some.injEq, JsonValue.text.injEq,
          Option.mem_def, iff_self_and]
        rintro rfl _ rfl
        exact hascii
    · cases alg with
      | none => simp
      | some other =>
        simp only [reduceCtorEq, Option.map_some, Option.some.injEq, JsonValue.text.injEq,
          Option.mem_def, false_iff, not_and, not_forall]
        rintro rfl
        exact ⟨name, rfl, by assumption⟩
  · rename_i v hv hown
    rw [hown]
    cases alg with
    | none => simp
    | some name =>
      simp only [reduceCtorEq, Option.map_some, Option.some.injEq, false_iff]
      exact fun heq => hv _ heq.1

/-- The usage rules read the metadata of a key and not its position. -/
theorem validateJwkUsage_eq_ok {key : JwkRecord} {keyIndex : ℕ} :
    validateJwkUsage key keyIndex = .ok () ↔ ∃ (use : Option Text) (operations : Option (List Text)),
      key.own "use" = use.map .text ∧
      (key.own "key_ops" = operations.map (fun ops => .array (ops.map .text)) ∧
        ∀ ops ∈ operations, ops.Nodup) ∧
      (operations.all fun operations => !inconsistentUsage use operations) ∧
      (key.curveEd25519 → (use = none ∨ use = some (ascii "sig")) ∧
        operations.all fun operations => operations.contains (ascii "verify") &&
          operations.all signatureOperations.contains) := by
  unfold validateJwkUsage
  simp only [bind_eq_ok, usageUse_eq_ok, usageOperations_eq_ok, require_eq_ok, exists_const]
  by_cases hcurve : key.curveEd25519
  · simp only [hcurve, if_true, bind_eq_ok, require_eq_ok, exists_const, true_implies, exists_and_left]
  · simp only [hcurve, Bool.false_eq_true, if_false, pure_eq_ok, false_implies, and_true,
      exists_and_left]

/-- The algorithm rules read the metadata of a key and not its position. -/
theorem validateJwkAlgorithm_eq_ok {key : JwkRecord} {keyIndex : ℕ} {format : JwksFormat}
    {reason : Option SkippedKeyReason} :
    validateJwkAlgorithm key keyIndex format = .ok reason ↔ ∃ alg : Option Text,
      (key.own "alg" = alg.map .text ∧ ∀ name ∈ alg, isAscii name) ∧
      if key.curveEd25519 then (alg = none ∨ alg = some format.supportedName) ∧ reason = none
      else match alg with
        | none => reason = some .unsupportedAlgorithm
        | some alg => alg ∉ format.otherNames ∧ alg ≠ format.supportedName ∧
          reason = some (if alg ∈ format.ownNames then .unsupportedAlgorithm else .unknownAlgorithmName) := by
  unfold validateJwkAlgorithm
  simp only [bind_eq_ok, algorithmName_eq_ok]
  refine exists_congr fun alg => and_congr_right fun _ => ?_
  split
  · simp only [bind_eq_ok, require_eq_ok, exists_const, pure_eq_ok]
    exact and_congr_right fun _ => eq_comm
  · cases alg with
    | none =>
      rw [pure_eq_ok]
      exact eq_comm
    | some alg =>
      simp only [bind_eq_ok, require_eq_ok, exists_const, pure_eq_ok]
      exact and_congr_right fun _ => and_congr_right fun _ => eq_comm

/-- The position of a key is only reported by the usage rules. -/
theorem validateJwkUsage_reindex {key : JwkRecord} {i : ℕ} (h : validateJwkUsage key i = .ok ()) (j : ℕ) :
    validateJwkUsage key j = .ok () := validateJwkUsage_eq_ok.mpr (validateJwkUsage_eq_ok.mp h)

/-- The position of a key is only reported by the algorithm rules. -/
theorem validateJwkAlgorithm_reindex {key : JwkRecord} {i : ℕ} {format : JwksFormat}
    {reason : Option SkippedKeyReason} (h : validateJwkAlgorithm key i format = .ok reason) (j : ℕ) :
    validateJwkAlgorithm key j format = .ok reason :=
  validateJwkAlgorithm_eq_ok.mpr (validateJwkAlgorithm_eq_ok.mp h)

theorem mem_signatureOperations {operation : Text} : signatureOperations.contains operation ↔
    operation = ascii "sign" ∨ operation = ascii "verify" := by
  simp [signatureOperations]

/-- Operations of signatures contradict no use of signatures. -/
theorem consistent_of_signature {use : Option Text} (huse : use = none ∨ use = some (ascii "sig"))
    {operations : List Text} (h : operations.all signatureOperations.contains) :
    inconsistentUsage use operations = false := by
  have henc : (use == some (ascii "enc")) = false := by
    rcases huse with rfl | rfl <;> decide
  have hany : operations.any encryptionOperations.contains = false := by
    rw [Bool.eq_false_iff]
    intro hany
    obtain ⟨operation, hmem, hencryption⟩ := List.any_eq_true.mp hany
    rcases mem_signatureOperations.mp (List.all_eq_true.mp h operation hmem) with rfl | rfl <;>
      revert hencryption <;> decide
  rw [inconsistentUsage, henc, hany, Bool.and_false, Bool.false_and, Bool.or_false]

/-- The rules admit an Ed25519 key exactly when the policy does. -/
theorem ed25519Policy_iff {key : JwkRecord} (hcurve : key.curveEd25519) (i : ℕ) (format : JwksFormat) :
    (validateJwkUsage key i = .ok () ∧ ∃ reason, validateJwkAlgorithm key i format = .ok reason) ↔
      Ed25519Policy format key := by
  simp only [validateJwkUsage_eq_ok, validateJwkAlgorithm_eq_ok, hcurve, if_true, true_implies]
  constructor
  · rintro ⟨⟨use, operations, huse, ⟨hoperations, hnodup⟩, -, huseRule, hrule⟩, -, alg, ⟨halg, -⟩,
      halgRule, -⟩
    constructor
    · rcases huseRule with rfl | rfl
      · exact .inl huse
      · exact .inr huse
    · cases operations with
      | none => exact .inl hoperations
      | some operations =>
        simp only [Option.all_some, Bool.and_eq_true, List.all_eq_true] at hrule
        refine .inr ⟨operations, hoperations, hnodup operations rfl, ?_, ?_⟩
        · exact List.contains_iff_mem.mp hrule.1
        · exact fun operation hmem => mem_signatureOperations.mp (hrule.2 operation hmem)
    · rcases halgRule with rfl | rfl
      · exact .inl halg
      · exact .inr halg
  · rintro ⟨huse, hoperations, halg⟩
    have hname : ∀ name ∈ some format.supportedName, isAscii name := by
      rintro name ⟨⟩
      cases format <;> decide
    constructor
    · obtain ⟨use, hown, huseRule⟩ : ∃ use : Option Text, key.own "use" = use.map .text ∧
          (use = none ∨ use = some (ascii "sig")) := by
        rcases huse with huse | huse
        · exact ⟨none, huse, .inl rfl⟩
        · exact ⟨some _, huse, .inr rfl⟩
      rcases hoperations with hnone | ⟨operations, hown', hnodup, hverify, hall⟩
      · exact ⟨use, none, hown, ⟨hnone, by simp⟩, rfl, huseRule, rfl⟩
      · have hsignature : operations.all signatureOperations.contains :=
          List.all_eq_true.mpr fun operation hmem => mem_signatureOperations.mpr (hall operation hmem)
        refine ⟨use, some operations, hown, ⟨hown', ?_⟩, ?_, huseRule, ?_⟩
        · rintro ops ⟨⟩
          exact hnodup
        · rw [Option.all_some, consistent_of_signature huseRule hsignature]
          rfl
        · rw [Option.all_some, hsignature, Bool.and_true]
          exact List.contains_iff_mem.mpr hverify
    · rcases halg with halg | halg
      · exact ⟨none, none, ⟨halg, by simp⟩, .inl rfl, rfl⟩
      · exact ⟨none, some _, ⟨halg, hname⟩, .inr rfl, rfl⟩

end AgentSig.Profiles
