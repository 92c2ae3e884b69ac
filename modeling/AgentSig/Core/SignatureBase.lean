import AgentSig.Core.SignatureInput
import AgentSig.Core.Uri

/-!
# The signature base

The text that is signed: one line for each covered component, its identifier and its value,
and a last line with the signature parameters (RFC 9421, Section 2.5).

## Main definitions

* `componentFlags`: the flags that the parameters of a component set
* `headerComponent`, `componentValue`: the value of a component
* `componentLine`: the identifier and the value of one line
* `createSignatureBase`: the signature base
-/

namespace AgentSig.Core

open Commons StructuredFields

/-- `ComponentFlags`. -/
structure ComponentFlags where
  req : Bool
  sf : Bool
  bs : Bool
  key : Option Text
  name : Option Text
  deriving DecidableEq, Repr

/-- No flag. -/
def ComponentFlags.none : ComponentFlags := ⟨false, false, false, Option.none, Option.none⟩

/-- One parameter in the loop of `componentFlags`. -/
def applyParameter (flags : ComponentFlags) (p : Text × BareItem) :
    Except CoreError ComponentFlags :=
  if p.1 = ascii "tr" then throw unsupported
  else if p.1 = ascii "req" ∨ p.1 = ascii "sf" ∨ p.1 = ascii "bs" then do
    require (p.2 = .boolean true) malformed
    return { flags with
      req := flags.req || p.1 = ascii "req"
      sf := flags.sf || p.1 = ascii "sf"
      bs := flags.bs || p.1 = ascii "bs" }
  else if p.1 = ascii "key" ∨ p.1 = ascii "name" then
    match p.2 with
    | .string value =>
      if p.1 = ascii "key" then return { flags with key := some value }
      else return { flags with name := some value }
    | _ => throw malformed
  else throw unsupported

/-- `componentFlags`. -/
def componentFlags (component : CoveredComponent) : Except CoreError ComponentFlags := do
  let flags ← component.parameters.foldlM applyParameter .none
  let derived := isDerived component.name
  require (¬ (derived ∧ (flags.sf ∨ flags.bs ∨ flags.key.isSome))) malformed
  require (¬ ((¬ derived ∨ component.name ≠ ascii "@query-param") ∧ flags.name.isSome)) malformed
  require (¬ (component.name = ascii "@query-param" ∧ flags.name = none)) malformed
  require (¬ (flags.bs ∧ (flags.sf ∨ flags.key.isSome))) malformed
  return flags

/-- `CanonicalizationOptions`, besides the limits: the own properties of
`structuredFieldTypes`. A value that is no field type is none. -/
structure CanonicalizationOptions where
  structuredFieldTypes : List (Text × Option FieldType)

/-- `BUILTIN_FIELD_TYPES`. -/
def BUILTIN_FIELD_TYPES : List (Text × FieldType) :=
  [(ascii "signature-input", .dictionary), (ascii "signature", .dictionary),
    (ascii "content-digest", .dictionary)]

/-- `fieldType`. -/
def fieldType (name : Text) (options : CanonicalizationOptions) :
    Except CoreError (Option FieldType) :=
  match OrderedMap.lookup options.structuredFieldTypes name with
  | some (some type) => return some type
  | some none => throw .configuration
  | none => return OrderedMap.lookup BUILTIN_FIELD_TYPES name

/-- The loop that bounds the base64 expansion of byte sequences. -/
def chargeBytes (L : CoreLimits) : (index size : ℕ) → List Text → Except CoreError Unit
  | _, _, [] => .ok ()
  | index, size, value :: rest => do
    let size := size + (2 + 4 * ((value.length + 2) / 3) + if index = 0 then 0 else 2)
    checkLimit L .maxSignatureBaseBytes size
    chargeBytes L (index + 1) size rest

/-- The member of a parsed field that `key` selects. -/
def selectKey (parsed : Field) (key : Text) : Except CoreError Member :=
  match parsed with
  | .dictionary entries =>
    match OrderedMap.lookup entries key with
    | some selected => return selected
    | none => throw missingComponent
  | _ => throw malformed

/-- The part of `headerComponent` for `sf` and `key`. -/
def structuredComponent (L : CoreLimits) (options : CanonicalizationOptions) (name : Text)
    (key : Option Text) (combined : Text) : Except CoreError Text := do
  match ← fieldType name options with
  | none => throw unsupported
  | some type => do
    require (¬ (key.isSome ∧ type ≠ .dictionary)) malformed
    let parsed ← withSfErrors (parse L.structuredFields (.text combined) type)
    match key with
    | some key => do
      let selected ← selectKey parsed key
      withSfErrors (serializeMember L.structuredFields selected)
    | none => withSfErrors (serialize L.structuredFields parsed)

/-- `headerComponent`. -/
def headerComponent (L : CoreLimits) (options : CanonicalizationOptions)
    (headers : List HeaderField) (version : Option HttpVersion) (component : CoveredComponent)
    (flags : ComponentFlags) : Except CoreError Text := do
  let values ← fieldValues headers component.name version
  require (values ≠ []) missingComponent
  if flags.bs then do
    chargeBytes L 0 0 values
    withSfErrors (serialize L.structuredFields
      (.list (values.map fun value => .item ⟨.bytes (value.map UInt16.toUInt8), []⟩)))
  else do
    let combined ← combineValues L .maxMessageHeaderBytes values
    let combined ← requireAscii combined
    if !flags.sf && flags.key = none then return combined
    else structuredComponent L options component.name flags.key combined

/-- `HttpMessage`. -/
inductive HttpMessage
  | request (request : RequestParts)
  | response (status : Number) (headers : List HeaderField) (httpVersion : Option HttpVersion)
      (request : Option RequestParts)
  deriving DecidableEq, Repr

/-- The request of a message. -/
def HttpMessage.request? : HttpMessage → Option RequestParts
  | .request r => some r
  | .response _ _ _ r => r

/-- The headers of a message. -/
def HttpMessage.headers : HttpMessage → List HeaderField
  | .request r => r.headers
  | .response _ headers _ _ => headers

/-- The version of a message. -/
def HttpMessage.httpVersion : HttpMessage → Option HttpVersion
  | .request r => r.httpVersion
  | .response _ _ version _ => version

/-- `message.kind === "request"`. -/
def HttpMessage.isRequest : HttpMessage → Bool
  | .request _ => true
  | .response .. => false

/-- The value of `@status`. -/
def statusComponent (message : HttpMessage) (flags : ComponentFlags) : Except CoreError Text :=
  match message with
  | .request _ => throw malformed
  | .response status _ _ _ => do
    require (¬ flags.req) malformed
    match status.toInt? with
    | some z => do
      require (100 ≤ z ∧ z ≤ 599) malformed
      return decimal z.natAbs
    | none => throw malformed

/-- The value of a derived component. -/
def derivedComponent (P : Platform) (L : CoreLimits) (message : HttpMessage)
    (component : CoveredComponent) (flags : ComponentFlags) : Except CoreError Text :=
  if component.name = ascii "@status" then statusComponent message flags
  else do
    require (message.isRequest ∨ flags.req) missingComponent
    match message.request? with
    | none => throw missingComponent
    | some request => requestComponent P L request component.name flags.name

/-- The value of a header component, of the message or of its request. -/
def fieldComponent (L : CoreLimits) (options : CanonicalizationOptions) (message : HttpMessage)
    (component : CoveredComponent) (flags : ComponentFlags) : Except CoreError Text :=
  match flags.req, message.request? with
  | true, some request => headerComponent L options request.headers request.httpVersion component flags
  | _, _ => headerComponent L options message.headers message.httpVersion component flags

/-- The value that a component resolves to, before the checks on every value. -/
def resolveComponent (P : Platform) (L : CoreLimits) (options : CanonicalizationOptions)
    (message : HttpMessage) (component : CoveredComponent) (flags : ComponentFlags) :
    Except CoreError Text :=
  if isDerived component.name then derivedComponent P L message component flags
  else fieldComponent L options message component flags

/-- The value of a covered component. -/
def componentValue (P : Platform) (L : CoreLimits) (options : CanonicalizationOptions)
    (message : HttpMessage) (component : CoveredComponent) : Except CoreError Text := do
  let flags ← componentFlags component
  require (¬ (flags.req ∧ message.isRequest)) malformed
  require (¬ (flags.req ∧ message.request? = none)) missingComponent
  let value ← resolveComponent P L options message component flags
  let value ← requireAscii value
  require (¬ (value.contains 13 ∨ value.contains 10)) malformed
  return value

/-- The identifier of a covered component. -/
def componentIdentifier (L : CoreLimits) (component : CoveredComponent) : Except CoreError Text :=
  withSfErrors (serializeMember L.structuredFields (.item component.item))

/-- `"${identifier}: ${value}\n"`. -/
def line (identifier value : Text) : Text := identifier ++ [58, 32] ++ value ++ [10]

/-- The loop over the covered components, with the identifiers seen and the length charged. -/
def componentLines (P : Platform) (L : CoreLimits) (options : CanonicalizationOptions)
    (message : HttpMessage) :
    (seen : List Text) → (length : ℕ) → List CoveredComponent → Except CoreError (List Text × ℕ)
  | _, length, [] => return ([], length)
  | seen, length, component :: rest => do
    let identifier ← componentIdentifier L component
    require (identifier ∉ seen) malformed
    let value ← componentValue P L options message component
    let length := length + (identifier.length + 2 + value.length + 1)
    checkLimit L .maxSignatureBaseBytes length
    let (lines, length) ← componentLines P L options message (identifier :: seen) length rest
    return (line identifier value :: lines, length)

/-- `SignatureBase`. -/
structure SignatureBase where
  text : Text
  bytes : List UInt8
  deriving DecidableEq, Repr

/-- `"\"@signature-params\": "`. -/
def signatureParamsPrefix : Text := ascii "\"@signature-params\": "

/-- The header sections that are validated: the message's and that of a response's request. -/
def validateSections (L : CoreLimits) (message : HttpMessage) : Except CoreError Unit := do
  validateHeaders L message.headers
  match message with
  | .response _ _ _ (some request) => validateHeaders L request.headers
  | _ => return ()

/-- `createSignatureBase`. -/
def createSignatureBase (P : Platform) (L : CoreLimits) (options : CanonicalizationOptions)
    (message : HttpMessage) (input : SignatureInput) : Except CoreError SignatureBase := do
  let parameters ← signatureParameters L input
  validateSections L message
  let (lines, length) ← componentLines P L options message [] 0 input.components
  checkLimit L .maxSignatureBaseBytes (length + signatureParamsPrefix.length + parameters.length)
  let text ← requireAscii (lines.flatten ++ (signatureParamsPrefix ++ parameters))
  return { text, bytes := text.map UInt16.toUInt8 }

end AgentSig.Core
