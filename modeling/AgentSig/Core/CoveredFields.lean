import AgentSig.Core.Transport

/-!
# What a signature base reads

A base depends on the header of its message through the covered fields alone. Any other field may be
added, removed, repeated or changed without changing the base, so a signature says nothing about it.

## Main definitions

* `CoveredAlike`: messages that differ in fields that are not covered
* `SameTypes`: configurations that give the covered fields the same types

## Main results

* `componentValue_alike`: the value of a covered component is the same
* `createSignatureBase_alike`: **the base is the same**
* `createSignatureBase_types`: other field types do not change it either
-/

namespace AgentSig.Core

open Commons StructuredFields

/-- Two headers have the same lines of each field that is named. -/
def SameFields (components : List CoveredComponent) (headers headers' : List HeaderField) : Prop :=
  ∀ c ∈ components, spelledValues headers' c.name = spelledValues headers c.name

/-- A request with another header, that has the same covered fields. -/
def RequestAlike (components : List CoveredComponent) (request request' : RequestParts) : Prop :=
  ∃ headers', request' = { request with headers := headers' } ∧
    SameFields components request.headers headers'

/-- A message with other headers, that have the same covered fields. -/
inductive CoveredAlike (components : List CoveredComponent) : HttpMessage → HttpMessage → Prop
  | request {request request' : RequestParts} : RequestAlike components request request' →
      CoveredAlike components (.request request) (.request request')
  | response {status : Number} {headers headers' : List HeaderField} {version : Option HttpVersion}
      {request request' : Option RequestParts} : SameFields components headers headers' →
      Option.Rel (RequestAlike components) request request' →
      CoveredAlike components (.response status headers version request)
        (.response status headers' version request')

variable {P : Platform} {L : CoreLimits} {options : CanonicalizationOptions}
  {message message' : HttpMessage} {components : List CoveredComponent} {component : CoveredComponent}
  {flags : ComponentFlags} {headers headers' : List HeaderField} {version : Option HttpVersion}

/-! ## Components -/

theorem headerComponent_alike (h : SameFields components headers headers') (hc : component ∈ components)
    (L : CoreLimits) (options : CanonicalizationOptions) (version : Option HttpVersion)
    (flags : ComponentFlags) : headerComponent L options headers' version component flags =
      headerComponent L options headers version component flags := by
  rw [headerComponent, headerComponent, fieldValues_eq, fieldValues_eq, h component hc]

theorem CoveredAlike.isRequest (h : CoveredAlike components message message') :
    message'.isRequest = message.isRequest := by
  cases h <;> rfl

theorem CoveredAlike.httpVersion (h : CoveredAlike components message message') :
    message'.httpVersion = message.httpVersion := by
  cases h with
  | request hrequest =>
    obtain ⟨headers', rfl, -⟩ := hrequest
    rfl
  | response _ _ => rfl

theorem CoveredAlike.request? (h : CoveredAlike components message message') :
    Option.Rel (RequestAlike components) message.request? message'.request? := by
  cases h with
  | request hrequest => exact .some hrequest
  | response _ hrequest => exact hrequest

theorem CoveredAlike.sameFields (h : CoveredAlike components message message') :
    SameFields components message.headers message'.headers := by
  cases h with
  | request hrequest =>
    obtain ⟨headers', rfl, hfields⟩ := hrequest
    exact hfields
  | response hfields _ => exact hfields

theorem derivedComponent_alike (h : CoveredAlike components message message') :
    derivedComponent P L message' component flags = derivedComponent P L message component flags := by
  cases h with
  | request hrequest =>
    obtain ⟨headers', rfl, -⟩ := hrequest
    rfl
  | response _ hrequest =>
    cases hrequest with
    | none => rfl
    | some hrequest =>
      obtain ⟨headers', rfl, -⟩ := hrequest
      rfl

theorem fieldComponent_alike (h : CoveredAlike components message message')
    (hc : component ∈ components) :
    fieldComponent L options message' component flags =
      fieldComponent L options message component flags := by
  have hsection := headerComponent_alike h.sameFields hc L options message.httpVersion flags
  have hrequest := h.request?
  unfold fieldComponent
  rw [h.httpVersion]
  generalize message.request? = old at hrequest ⊢
  generalize message'.request? = new at hrequest ⊢
  cases hrequest with
  | none => cases flags.req <;> exact hsection
  | some hrequest =>
    obtain ⟨headers', rfl, hfields⟩ := hrequest
    cases flags.req with
    | true => exact headerComponent_alike hfields hc _ _ _ _
    | false => exact hsection

/-- The value of a covered component does not depend on other fields. -/
theorem componentValue_alike (h : CoveredAlike components message message')
    (hc : component ∈ components) :
    componentValue P L options message' component = componentValue P L options message component := by
  have hnone : message'.request? = none ↔ message.request? = none := by
    have hrequest := h.request?
    generalize message.request? = old at hrequest ⊢
    generalize message'.request? = new at hrequest ⊢
    cases hrequest <;> simp
  simp only [componentValue, resolveComponent, h.isRequest, hnone, derivedComponent_alike h,
    fieldComponent_alike h hc]

/-! ## The base -/

theorem componentLines_alike {cs : List CoveredComponent} (h : CoveredAlike components message message')
    (hcs : cs ⊆ components) (seen : List Text) (length : ℕ) :
    componentLines P L options message' seen length cs =
      componentLines P L options message seen length cs := by
  induction cs generalizing seen length with
  | nil => rfl
  | cons c cs ih =>
    obtain ⟨hc, hcs⟩ := List.cons_subset.mp hcs
    simp only [componentLines, componentValue_alike h hc, ih hcs]

/-- **A base reads the covered fields only.** Two messages whose headers are valid, and that differ in
fields that are not covered, have the same base, or fail with the same error. -/
theorem createSignatureBase_alike (P : Platform) (L : CoreLimits) (options : CanonicalizationOptions)
    (message message' : HttpMessage) (input : SignatureInput)
    (h : CoveredAlike input.components message message') (hvalid : validateSections L message = .ok ())
    (hvalid' : validateSections L message' = .ok ()) :
    createSignatureBase P L options message' input = createSignatureBase P L options message input := by
  rw [createSignatureBase, createSignatureBase, hvalid, hvalid',
    componentLines_alike h (List.Subset.refl _)]

theorem createSignatureBase_alike_spelledInput :
    createSignatureBase examplePlatform DEFAULT_CORE_LIMITS ⟨[]⟩
        (spelledRequest [textField "Via" "1.1 b", textField "X-Fold" "a"]) spelledInput =
      createSignatureBase examplePlatform DEFAULT_CORE_LIMITS ⟨[]⟩
        (spelledRequest [textField "X-Fold" "a", textField "X-Other" "1"]) spelledInput := by
  apply createSignatureBase_alike
  · refine .request ⟨_, rfl, fun c hc => ?_⟩
    simp only [spelledInput, List.mem_cons, List.not_mem_nil, or_false] at hc
    rcases hc with rfl | rfl <;> decide
  · rfl
  · rfl

/-- A base that was created is that of every message that is alike and has valid headers. -/
theorem createSignatureBase_of_alike {input : SignatureInput} {base : SignatureBase}
    (h : CoveredAlike input.components message message') (hvalid : validateSections L message' = .ok ())
    (hbase : createSignatureBase P L options message input = .ok base) :
    createSignatureBase P L options message' input = .ok base := by
  simp only [createSignatureBase, bind_eq_ok] at hbase ⊢
  obtain ⟨parameters, hparameters, u, -, lines, hlines, hrest⟩ := hbase
  refine ⟨parameters, hparameters, u, hvalid, lines, ?_, hrest⟩
  rw [componentLines_alike h (List.Subset.refl _)]
  exact hlines

/-! ## Field types -/

/-- Two configurations give each covered field the same type. -/
def SameTypes (components : List CoveredComponent) (options options' : CanonicalizationOptions) : Prop :=
  ∀ c ∈ components, fieldType c.name options' = fieldType c.name options

/-- The value of a component depends on the type of its own field. -/
theorem componentValue_types {options' : CanonicalizationOptions}
    (h : fieldType component.name options' = fieldType component.name options) :
    componentValue P L options' message component = componentValue P L options message component := by
  simp only [componentValue, resolveComponent, fieldComponent, headerComponent, structuredComponent, h]

theorem componentLines_types {options' : CanonicalizationOptions} {cs : List CoveredComponent}
    (h : SameTypes components options options') (hcs : cs ⊆ components) (seen : List Text)
    (length : ℕ) : componentLines P L options' message seen length cs =
      componentLines P L options message seen length cs := by
  induction cs generalizing seen length with
  | nil => rfl
  | cons c cs ih =>
    obtain ⟨hc, hcs⟩ := List.cons_subset.mp hcs
    simp only [componentLines, componentValue_types (h c hc), ih hcs]

/-- **A base reads the types of the covered fields only.** -/
theorem createSignatureBase_types {options' : CanonicalizationOptions} {input : SignatureInput}
    (h : SameTypes input.components options options') :
    createSignatureBase P L options' message input = createSignatureBase P L options message input := by
  rw [createSignatureBase, createSignatureBase, componentLines_types h (List.Subset.refl _)]

end AgentSig.Core
