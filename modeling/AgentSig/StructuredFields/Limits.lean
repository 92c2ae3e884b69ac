import AgentSig.Commons.Outcome
import AgentSig.Commons.Text

/-!
# Limits and errors of structured fields

Every operation runs under resolved limits, and charges what it observes against one of
them before it grows anything. Resolved limits are safe integers, so a charge fails only
because it exceeds its limit.

## Main definitions

* `Number`: a JavaScript number
* `LimitName`, `Limits`, `resolveLimits`: the limits of one operation
* `SfError`: the errors of parsing and serialization
* `Limits.check`: one charge

## Main results

* `Limits.check_eq_ok`: a charge passes exactly when it is within its limit
-/

namespace AgentSig.StructuredFields

open Commons

/-- `Number.MAX_SAFE_INTEGER`. -/
def maxSafeInteger : ℕ := 9007199254740991

/-- A JavaScript number. Fractions, infinities and NaN are told apart from integers only. -/
inductive Number
  | integer (z : ℤ)
  | negativeZero
  | fractional
  deriving DecidableEq, Repr

/-- The integer a number denotes; `-0` denotes 0. -/
def Number.toInt? : Number → Option ℤ
  | .integer z => some z
  | .negativeZero => some 0
  | .fractional => none

/-- `Number.isSafeInteger`, returning the integer. -/
def Number.safeInteger? (n : Number) : Option ℤ :=
  n.toInt?.filter fun z => z.natAbs ≤ maxSafeInteger

/-- The names of the limits. -/
inductive LimitName
  | maxInputBytes
  | maxOutputBytes
  | maxMembers
  | maxInnerListItems
  | maxParameters
  | maxKeyLength
  | maxTokenLength
  | maxDecodedBytes
  | maxTotalOccurrences
  deriving DecidableEq, Repr

/-- The property name of a limit. -/
def LimitName.text : LimitName → String
  | .maxInputBytes => "maxInputBytes"
  | .maxOutputBytes => "maxOutputBytes"
  | .maxMembers => "maxMembers"
  | .maxInnerListItems => "maxInnerListItems"
  | .maxParameters => "maxParameters"
  | .maxKeyLength => "maxKeyLength"
  | .maxTokenLength => "maxTokenLength"
  | .maxDecodedBytes => "maxDecodedBytes"
  | .maxTotalOccurrences => "maxTotalOccurrences"

/-- All limit names. -/
def LimitName.all : List LimitName :=
  [.maxInputBytes, .maxOutputBytes, .maxMembers, .maxInnerListItems, .maxParameters,
    .maxKeyLength, .maxTokenLength, .maxDecodedBytes, .maxTotalOccurrences]

/-- Why a text is not a structured field. -/
inductive SyntaxReason
  | nonAscii
  | unexpectedCharacter
  | unexpectedEnd
  | trailingData
  | invalidKey
  | invalidNumber
  | invalidEscape
  | invalidBase64
  | invalidUtf8
  | invalidBoolean
  deriving DecidableEq, Repr

/-- Why a value cannot be serialized. -/
inductive SerializationReason
  | invalidStructure
  | invalidKey
  | duplicateKey
  | invalidNumber
  | invalidString
  | invalidToken
  | invalidBytes
  | invalidBoolean
  | invalidUnicode
  deriving DecidableEq, Repr

/-- `SfSyntaxError`, `SfLimitError`, `SfConfigurationError` and `SfSerializationError`. -/
inductive SfError
  | invalidSyntax (reason : SyntaxReason) (offset : ℕ)
  | limit (limit : LimitName) (maximum observed : ℕ)
  | configuration (option : String)
  | serialization (reason : SerializationReason)
  deriving DecidableEq, Repr

/-- Resolved limits: safe non-negative integers. -/
structure Limits where
  get : LimitName → ℕ
  safe : ∀ name, get name ≤ maxSafeInteger

/-- `DEFAULT_LIMITS`. -/
def defaultLimit : LimitName → ℕ
  | .maxInputBytes => 1048576
  | .maxOutputBytes => 1048576
  | .maxMembers => 1024
  | .maxInnerListItems => 256
  | .maxParameters => 256
  | .maxKeyLength => 1024
  | .maxTokenLength => 8192
  | .maxDecodedBytes => 65536
  | .maxTotalOccurrences => 65536

/-- Every default passes the check that overrides have to pass. -/
theorem defaultLimit_safe (name : LimitName) : defaultLimit name ≤ maxSafeInteger := by
  cases name <;> decide

/-- `DEFAULT_LIMITS`, resolved. -/
def DEFAULT_LIMITS : Limits := ⟨defaultLimit, defaultLimit_safe⟩

/-- The value of an overridden limit: a safe integer that is not negative. -/
def resolveLimit (n : Number) : Option {k : ℕ // k ≤ maxSafeInteger} :=
  match n.safeInteger? with
  | some (.ofNat k) => if h : k ≤ maxSafeInteger then some ⟨k, h⟩ else none
  | _ => none

/-- `resolveLimits`: own overrides by name, on top of `base`. -/
def resolveLimitsFrom (base : Limits) (overrides : List (String × Number)) :
    Except SfError Limits := do
  match overrides.find? fun e => !(LimitName.all.any fun name => name.text = e.1) with
  | some e => throw (.configuration e.1)
  | none =>
    match LimitName.all.find? fun name =>
        overrides.any fun e => e.1 = name.text && (resolveLimit e.2).isNone with
    | some name => throw (.configuration name.text)
    | none =>
      let value name : {k : ℕ // k ≤ maxSafeInteger} :=
        ((overrides.find? fun e => e.1 = name.text).bind fun e => resolveLimit e.2).getD
          ⟨base.get name, base.safe name⟩
      return ⟨fun name => (value name).1, fun name => (value name).2⟩

/-- `resolveLimits`. -/
def resolveLimits (overrides : List (String × Number)) : Except SfError Limits :=
  resolveLimitsFrom DEFAULT_LIMITS overrides

/-- `Budget.check`. -/
def Limits.check (L : Limits) (limit : LimitName) (observed : ℕ) : Except SfError Unit := do
  require (observed ≤ maxSafeInteger) (.configuration ("observed:" ++ limit.text))
  require (observed ≤ L.get limit) (.limit limit (L.get limit) observed)

/-- A charge passes exactly when it is within its limit. -/
@[simp] theorem Limits.check_eq_ok {L : Limits} {limit : LimitName} {observed : ℕ} {u : Unit} :
    L.check limit observed = .ok u ↔ observed ≤ L.get limit := by
  have := L.safe limit
  simp only [check, bind_eq_ok, require_eq_ok, exists_const]
  exact ⟨And.right, fun h => ⟨h.trans this, h⟩⟩

theorem Limits.check_of_le {L : Limits} {limit : LimitName} {observed : ℕ}
    (h : observed ≤ L.get limit) : L.check limit observed = .ok () :=
  check_eq_ok.mpr h

/-- `M` allows whatever a value charges within `L`. Values charge neither the budget of the input
nor that of the output: texts do. -/
def Limits.Admits (M L : Limits) : Prop :=
  ∀ name, name ≠ .maxInputBytes → name ≠ .maxOutputBytes → L.get name ≤ M.get name

/-- The pointwise larger of two limits. -/
def Limits.max (L M : Limits) : Limits :=
  ⟨fun name => Max.max (L.get name) (M.get name), fun name => Nat.max_le.mpr ⟨L.safe name, M.safe name⟩⟩

end AgentSig.StructuredFields
