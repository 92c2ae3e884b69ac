import AgentSig.Core.Headers
import AgentSig.StructuredFields.Parse
import AgentSig.StructuredFields.Serializer

/-!
# Signature inputs

A signature input is a label, the covered components and the signature parameters. It is
validated against the older structured fields of RFC 8941, and serialized as an inner list.
Signature headers are parsed into inputs and signatures, label by label.

## Main definitions

* `CoveredComponent`, `SignatureInput`, `ParsedSignature`
* `signatureInnerList`: the inner list of a valid input
* `signatureParameters`: its text, the value of `@signature-params`
* `parseSignatureHeaders`: the signatures of a header section

## Main results

* `parsedSignature_spec`: a parsed signature has the label and the member of its entry
-/

namespace AgentSig.Core

open Commons StructuredFields

/-- A covered component. -/
structure CoveredComponent where
  name : Text
  parameters : Parameters
  deriving DecidableEq, Repr

/-- The item that identifies a component. -/
def CoveredComponent.item (c : CoveredComponent) : Item := ⟨.string c.name, c.parameters⟩

/-- A signature input. -/
structure SignatureInput where
  label : Text
  components : List CoveredComponent
  parameters : Parameters
  deriving DecidableEq, Repr

/-- The inner list of a signature input. -/
def SignatureInput.innerList (i : SignatureInput) : InnerList :=
  ⟨i.components.map CoveredComponent.item, i.parameters⟩

/-- A signature with its input. -/
structure ParsedSignature where
  input : SignatureInput
  signature : List UInt8
  deriving DecidableEq, Repr

/-- The bare items that RFC 8941 does not know. -/
def recent : BareItem → Bool
  | .date _ | .displayString _ => true
  | _ => false

/-- `validateParameters`. -/
def validateParameters (L : CoreLimits) (parameters : Parameters) : Except CoreError Unit := do
  checkLimit L .maxParameters parameters.length
  require (∀ p ∈ parameters, ¬ recent p.2) unsupported

/-- The kind of value that a known signature parameter must have. -/
def signatureParameterTyped (name : Text) (value : BareItem) : Bool :=
  if name = ascii "created" ∨ name = ascii "expires" then value matches .integer _
  else if name = ascii "nonce" ∨ name = ascii "alg" ∨ name = ascii "keyid" ∨ name = ascii "tag" then
    value matches .string _
  else true

/-- A lowercase letter. -/
def lower (c : UInt16) : Bool := 97 ≤ c && c ≤ 122

/-- `/^@[a-z][a-z0-9-]*$/`. -/
def derivedName : Text → Bool
  | 64 :: c :: rest => lower c && rest.all fun c => lower c || (48 ≤ c && c ≤ 57) || c == 45
  | _ => false

/-- `name.startsWith("@")`. -/
def isDerived (name : Text) : Bool := name.head? = some 64

/-- The checks on a covered component. -/
def validateComponent (L : CoreLimits) (component : CoveredComponent) : Except CoreError Unit := do
  let name := component.name
  require (name = toLowerCase name ∧
    if isDerived name then derivedName name else isFieldName name) malformed
  require (name ≠ ascii "@signature-params") malformed
  validateParameters L component.parameters

/-- `signatureInnerList`. -/
def signatureInnerList (L : CoreLimits) (input : SignatureInput) : Except CoreError InnerList := do
  checkLimit L .maxComponentsPerSignature input.components.length
  validateParameters L input.parameters
  require (∀ p ∈ input.parameters, signatureParameterTyped p.1 p.2) malformed
  input.components.forM (validateComponent L)
  let _ ← withSfErrors (serialize L.structuredFields
    (.dictionary [(input.label, .innerList input.innerList)]))
  return input.innerList

/-- `signatureParameters`. -/
def signatureParameters (L : CoreLimits) (input : SignatureInput) : Except CoreError Text := do
  let inner ← signatureInnerList L input
  withSfErrors (serializeMember L.structuredFields (.innerList inner))

/-! ## Parsing signature headers -/

/-- The components of an inner list: every item is a string. -/
def components (items : List Item) : Except CoreError (List CoveredComponent) :=
  items.mapM fun item =>
    match item.bare with
    | .string name => return { name, parameters := item.parameters }
    | _ => throw malformed

/-- One label of `parseSignatureHeaders`. -/
def parsedSignature (L : CoreLimits) (values : List (Text × Member)) (entry : Text × Member) :
    Except CoreError ParsedSignature :=
  match entry.2, OrderedMap.lookup values entry.1 with
  | .innerList member, some (.item ⟨.bytes signature, parameters⟩) => do
    validateParameters L parameters
    let components ← components member.items
    let input := { label := entry.1, components, parameters := member.parameters }
    let _ ← signatureInnerList L input
    return { input, signature }
  | _, _ => throw malformed

theorem components_spec {items : List Item} {cs : List CoveredComponent}
    (h : components items = .ok cs) : items = cs.map CoveredComponent.item := by
  induction items generalizing cs with
  | nil =>
    obtain rfl : [] = cs := by simpa [components] using h
    rfl
  | cons item items ih =>
    simp only [components, List.mapM_cons, bind_eq_ok, pure_eq_ok] at h
    obtain ⟨c, hc, cs', hcs, rfl⟩ := h
    rw [List.map_cons, ← ih hcs]
    split at hc
    · rename_i name hname
      obtain rfl := pure_eq_ok.mp hc
      simp [CoveredComponent.item, ← hname]
    · simp at hc

/-- A parsed signature has the label and the member of its entry. -/
theorem parsedSignature_spec {L : CoreLimits} {values : List (Text × Member)}
    {entry : Text × Member} {s : ParsedSignature} (h : parsedSignature L values entry = .ok s) :
    entry = (s.input.label, .innerList s.input.innerList) := by
  unfold parsedSignature at h
  split at h
  · rename_i member signature parameters hmember _
    simp only [bind_eq_ok, pure_eq_ok] at h
    obtain ⟨_, -, cs, hcs, _, -, rfl⟩ := h
    refine Prod.ext rfl ?_
    rw [hmember, SignatureInput.innerList, ← components_spec hcs]
  · simp at h

/-- The entries of a raw document; only dictionaries have any. -/
def rawEntries : RawField → List RawDictionaryEntry
  | .dictionary d => d.entries
  | _ => []

/-- The entries of a field; only dictionaries have any. -/
def fieldEntries : Field → List (Text × Member)
  | .dictionary es => es
  | _ => []

/-- The checks on the raw labels of one header. -/
def validateLabels (L : CoreLimits) (raw : RawDocument) : Except CoreError Unit := do
  checkLimit L .maxSignatures (rawEntries raw.root).length
  require (((rawEntries raw.root).map (·.key)).Nodup) malformed

/-- The part of `parseSignatureHeaders` after the values are combined. -/
def parseSignatureTexts (L : CoreLimits) (inputText signatureText : Text) :
    Except CoreError (List ParsedSignature) := do
  let rawInput ← withSfErrors (parseRaw L.structuredFields (.text inputText) .dictionary)
  let rawSignature ← withSfErrors (parseRaw L.structuredFields (.text signatureText) .dictionary)
  validateLabels L rawInput
  validateLabels L rawSignature
  let inputDictionary ← withSfErrors (parse L.structuredFields (.text inputText) .dictionary)
  let signatureDictionary ← withSfErrors (parse L.structuredFields (.text signatureText) .dictionary)
  let values := fieldEntries signatureDictionary
  require (values.length = (fieldEntries inputDictionary).length) malformed
  (fieldEntries inputDictionary).mapM (parsedSignature L values)

/-- `parseSignatureHeaders`. -/
def parseSignatureHeaders (L : CoreLimits) (headers : List HeaderField) :
    Except CoreError (List ParsedSignature) := do
  validateHeaders L headers
  let inputs ← fieldValues headers (ascii "signature-input") none
  let signatures ← fieldValues headers (ascii "signature") none
  if inputs = [] ∧ signatures = [] then return []
  else do
    require (inputs ≠ [] ∧ signatures ≠ []) malformed
    let inputText ← combineValues L .maxSignatureHeaderBytes inputs
    let inputText ← requireAscii inputText
    let signatureText ← combineValues L .maxSignatureHeaderBytes signatures
    let signatureText ← requireAscii signatureText
    checkLimit L .maxSignatureHeaderBytes (inputText.length + signatureText.length)
    parseSignatureTexts L inputText signatureText

end AgentSig.Core
