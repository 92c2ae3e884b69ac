import AgentSig.Commons.Text
import AgentSig.Core.Limits
import Mathlib.Data.List.DropRight

/-!
# Header fields

Header fields are validated as a section, and normalized one occurrence at a time:
obsolete line folds become spaces in HTTP/1.1, and blanks around a value are dropped. What
remains has no control character, so no line break.

## Main definitions

* `HeaderField`, `HttpVersion`: occurrences of fields
* `validateHeaders`: the checks on a section
* `normalizeValue`, `fieldValues`, `combineValues`: the values of a field

## Main results

* `normalizeValue_spec`: a normalized value has no line break
-/

namespace AgentSig.Core

open Commons

/-- A field value: an ASCII string or octets. -/
inductive HeaderValue
  | text (value : Text)
  | octets (value : List UInt8)
  deriving DecidableEq, Repr

/-- The length of a value. -/
def HeaderValue.length : HeaderValue → ℕ
  | .text t => t.length
  | .octets bs => bs.length

/-- The value as a string; octets are read as Latin-1. -/
def HeaderValue.string : HeaderValue → Text
  | .text t => t
  | .octets bs => bs.map UInt8.toUInt16

/-- An occurrence of a field. -/
structure HeaderField where
  name : Text
  value : HeaderValue
  deriving DecidableEq, Repr

/-- The HTTP versions that a message may state. -/
inductive HttpVersion
  | http11
  | http2
  | http3
  deriving DecidableEq, Repr

/-- A character of `FIELD_NAME`. -/
def fieldNameChar (c : UInt16) : Bool :=
  (48 ≤ c && c ≤ 57) || (65 ≤ c && c ≤ 90) || (97 ≤ c && c ≤ 122) ||
    (ascii "!#$%&'*+-.^_`|~").contains c

/-- `isFieldName`. -/
def isFieldName (value : Text) : Bool := value ≠ [] && value.all fieldNameChar

/-- `toLowerCase`, of an ASCII string. -/
def toLowerCase (t : Text) : Text := t.map fun c => if 65 ≤ c ∧ c ≤ 90 then c + 32 else c

/-- The loop of `validateHeaders`, with `total` charged so far. -/
def validateHeadersLoop (L : CoreLimits) : (total : ℕ) → List HeaderField → Except CoreError Unit
  | _, [] => .ok ()
  | total, ⟨name, value⟩ :: rest => do
    let total := total + (name.length + value.length + 4)
    checkLimit L .maxMessageHeaderBytes total
    require (isFieldName name) malformed
    match value with
    | .text t => require (isAscii t) malformed
    | .octets _ => pure ()
    validateHeadersLoop L total rest

/-- `validateHeaders`. -/
def validateHeaders (L : CoreLimits) (headers : List HeaderField) : Except CoreError Unit :=
  validateHeadersLoop L 0 headers

/-- A space or a tab. -/
def blank (c : UInt16) : Bool := c == 32 || c == 9

/-- `replace(/\r\n[ \t]+/g, " ")`, with fuel for the rounds. -/
def unfoldLines : ℕ → Text → Text
  | 0, t => t
  | _, [] => []
  | fuel + 1, c :: rest =>
    match c, rest with
    | 13, 10 :: d :: rest =>
      if blank d then 32 :: unfoldLines fuel (rest.dropWhile blank)
      else 13 :: unfoldLines fuel (10 :: d :: rest)
    | c, rest => c :: unfoldLines fuel rest

/-- A control character that no field value may contain. -/
def control (c : UInt16) : Bool := (c < 32 && c != 9) || c == 127

/-- `replace(/^[ \t]+|[ \t]+$/g, "")`. -/
def trimBlanks (t : Text) : Text := (t.dropWhile blank).rdropWhile blank

/-- `normalizeValue`. -/
def normalizeValue (value : HeaderValue) (version : Option HttpVersion) : Except CoreError Text := do
  let text := value.string
  let text := if version = some .http11 then unfoldLines text.length text else text
  require (¬ text.any control) malformed
  return trimBlanks text

/-- `fieldValues`. -/
def fieldValues (headers : List HeaderField) (name : Text) (version : Option HttpVersion) :
    Except CoreError (List Text) :=
  (headers.filter fun h => toLowerCase h.name = name).mapM fun h => normalizeValue h.value version

/-- `requireAscii`. -/
def requireAscii (value : Text) : Except CoreError Text := do
  require (isAscii value) malformed
  return value

/-- The loop of `combineValues` that charges the combined length. -/
def chargeValues (L : CoreLimits) (limit : CoreLimitName) :
    (index length : ℕ) → List Text → Except CoreError Unit
  | _, _, [] => .ok ()
  | index, length, value :: rest => do
    let length := length + (value.length + if index = 0 then 0 else 2)
    checkLimit L limit length
    chargeValues L limit (index + 1) length rest

/-- `combineValues`. -/
def combineValues (L : CoreLimits) (limit : CoreLimitName) (values : List Text) :
    Except CoreError Text := do
  chargeValues L limit 0 0 values
  return [44, 32].intercalate values

@[simp] theorem requireAscii_eq_ok {t u : Text} :
    requireAscii t = .ok u ↔ isAscii t ∧ t = u := by
  simp [requireAscii]

theorem control_of_newline : control 10 ∧ control 13 := by decide

theorem mem_of_mem_trimBlanks {t : Text} {c : UInt16} (h : c ∈ trimBlanks t) : c ∈ t :=
  (List.dropWhile_sublist _).subset ((List.rdropWhile_prefix _ _).subset h)

/-- A normalized value has no control character, so no line break. -/
theorem normalizeValue_spec {value : HeaderValue} {version : Option HttpVersion} {t : Text}
    (h : normalizeValue value version = .ok t) : ∀ c ∈ t, ¬ control c := by
  simp only [normalizeValue, bind_eq_ok, require_eq_ok, exists_const, pure_eq_ok] at h
  obtain ⟨hc, rfl⟩ := h
  intro c hmem hcontrol
  exact hc (List.any_eq_true.mpr ⟨c, mem_of_mem_trimBlanks hmem, hcontrol⟩)

end AgentSig.Core
