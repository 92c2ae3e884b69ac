import AgentSig.Core.SignatureBase
import AgentSig.StructuredFields.RoundTrip

/-!
# The signature base is injective

A line of the base is an identifier, a colon and a value. No identifier and no value has a
line break, so the base splits into its lines in one way; an identifier is read off its line
by the structured-field parser, whatever the value after the colon is. So the base determines
the covered components, their values and the signature parameters.

## Main results

* `componentFlags_values`: the parameters of an accepted component are strings and flags
* `componentLines_spec`, `createSignatureBase_spec`: the lines of a base
* `createSignatureBase_injective`: **equal bases cover the same components and values**
-/

namespace AgentSig.Core

open Commons StructuredFields

variable {P : Platform} {L : CoreLimits} {options : CanonicalizationOptions}
  {message : HttpMessage}

/-! ## Component parameters -/

theorem applyParameter_value {flags flags' : ComponentFlags} {p : Text × BareItem}
    (h : applyParameter flags p = .ok flags') : p.2 = .boolean true ∨ ∃ s, p.2 = .string s := by
  unfold applyParameter at h
  split at h
  · simp at h
  · split at h
    · simp only [bind_eq_ok, require_eq_ok, exists_const] at h
      exact .inl h.1
    · split at h
      · split at h
        · rename_i s hs
          exact .inr ⟨s, hs⟩
        · simp at h
      · simp at h

theorem foldlM_applyParameter_values {ps : Parameters} {flags flags' : ComponentFlags}
    (h : ps.foldlM applyParameter flags = .ok flags') :
    ∀ p ∈ ps, p.2 = .boolean true ∨ ∃ s, p.2 = .string s := by
  induction ps generalizing flags with
  | nil => simp
  | cons p ps ih =>
    simp only [List.foldlM_cons, bind_eq_ok] at h
    obtain ⟨flags₁, h₁, h⟩ := h
    exact List.forall_mem_cons.mpr ⟨applyParameter_value h₁, ih h⟩

/-- The parameters of a component whose flags are accepted are strings and flags. -/
theorem componentFlags_values {component : CoveredComponent} {flags : ComponentFlags}
    (h : componentFlags component = .ok flags) :
    ∀ p ∈ component.parameters, p.2 = .boolean true ∨ ∃ s, p.2 = .string s := by
  simp only [componentFlags, bind_eq_ok] at h
  obtain ⟨flags₁, h, -⟩ := h
  exact foldlM_applyParameter_values h

theorem canonicalParameters_of_values {ps : Parameters}
    (h : ∀ p ∈ ps, p.2 = .boolean true ∨ ∃ s, p.2 = .string s) : canonicalParameters ps = ps := by
  refine (List.map_congr_left fun p hp => ?_).trans (List.map_id ps)
  obtain ⟨k, v⟩ := p
  obtain rfl | ⟨s, rfl⟩ := h _ hp <;> rfl

/-- A colon extends no item whose parameters are strings and flags. -/
theorem itemFollows_colon {component : CoveredComponent} {t : Text}
    (h : ∀ p ∈ component.parameters, p.2 = .boolean true ∨ ∃ s, p.2 = .string s) :
    ItemFollows component.item (58 :: t) := by
  refine ⟨trivial, startsWithout_cons.mpr (by decide), fun p hp => ?_⟩
  rcases h p hp with hv | ⟨s, hv⟩ <;> rw [hv] <;> trivial

/-! ## Lines -/

/-- `l` is the line of a component. -/
def IsLine (P : Platform) (L : CoreLimits) (options : CanonicalizationOptions)
    (message : HttpMessage) (component : CoveredComponent) (l : Text) : Prop :=
  ∃ identifier value, componentIdentifier L component = .ok identifier ∧
    componentValue P L options message component = .ok value ∧ l = line identifier value

theorem componentValue_values {component : CoveredComponent} {value : Text}
    (h : componentValue P L options message component = .ok value) :
    ∀ p ∈ component.parameters, p.2 = .boolean true ∨ ∃ s, p.2 = .string s := by
  simp only [componentValue, bind_eq_ok] at h
  obtain ⟨flags, hflags, -⟩ := h
  exact componentFlags_values hflags

/-- The value of a component has no line break. -/
theorem componentValue_newline {component : CoveredComponent} {value : Text}
    (h : componentValue P L options message component = .ok value) : 10 ∉ value := by
  simp only [componentValue, bind_eq_ok, require_eq_ok, exists_const, pure_eq_ok] at h
  obtain ⟨flags, -, -, -, value', -, value'', -, hnewline, rfl⟩ := h
  intro hc
  exact hnewline (.inr (by simpa using hc))

theorem notMem_newline {t : Text} (h : isPrintable t) : 10 ∉ t := by
  intro hc
  have := List.all_eq_true.mp h 10 hc
  exact absurd this (by decide)

/-- The line of a component is one line. -/
theorem IsLine.terminated {component : CoveredComponent} {l : Text}
    (h : IsLine P L options message component l) : Terminated 10 l := by
  obtain ⟨identifier, value, hid, hvalue, rfl⟩ := h
  refine ⟨identifier ++ [58, 32] ++ value, rfl, ?_⟩
  have h₁ := notMem_newline (serializeMember_spec (withSfErrors_eq_ok.mp hid)).1
  have h₂ := componentValue_newline hvalue
  simp [h₁, h₂]

/-- Two lines that are equal are lines of one component, with one value. -/
theorem IsLine.inj {L' : CoreLimits} {options' : CanonicalizationOptions}
    {message' : HttpMessage} {c c' : CoveredComponent} {l : Text}
    (h : IsLine P L options message c l) (h' : IsLine P L' options' message' c' l) :
    c = c' ∧ ∃ value, componentValue P L options message c = .ok value ∧
      componentValue P L' options' message' c' = .ok value := by
  obtain ⟨identifier, value, hid, hvalue, rfl⟩ := h
  obtain ⟨identifier', value', hid', hvalue', heq⟩ := h'
  have hv := componentValue_values hvalue
  have hv' := componentValue_values hvalue'
  simp only [line, List.append_assoc, List.cons_append, List.nil_append] at heq
  obtain ⟨hitem, hrest⟩ := serializeMember_append_inj (withSfErrors_eq_ok.mp hid)
    (withSfErrors_eq_ok.mp hid') (itemFollows_colon hv) (itemFollows_colon hv') heq
  simp only [Member.canonical, Item.canonical, CoveredComponent.item, BareItem.canonical,
    canonicalParameters_of_values hv, canonicalParameters_of_values hv', Member.item.injEq,
    Item.mk.injEq, BareItem.string.injEq] at hitem
  simp only [List.cons.injEq, true_and, List.append_cancel_right_eq] at hrest
  subst hrest
  cases c
  cases c'
  obtain ⟨rfl, rfl⟩ := hitem
  exact ⟨rfl, value, hvalue, hvalue'⟩

theorem componentLines_spec {seen : List Text} {n n' : ℕ} {cs : List CoveredComponent}
    {ls : List Text} (h : componentLines P L options message seen n cs = .ok (ls, n')) :
    List.Forall₂ (IsLine P L options message) cs ls := by
  induction cs generalizing seen n ls with
  | nil =>
    simp only [componentLines, pure_eq_ok, Prod.mk.injEq] at h
    obtain ⟨rfl, -⟩ := h
    exact .nil
  | cons c cs ih =>
    simp only [componentLines, bind_eq_ok, require_eq_ok, checkLimit_eq_ok, exists_const,
      Prod.exists, pure_eq_ok, Prod.mk.injEq] at h
    obtain ⟨identifier, hid, -, value, hvalue, -, ls, n'', h, rfl, rfl⟩ := h
    exact .cons ⟨identifier, value, hid, hvalue, rfl⟩ (ih h)

/-- The lines of a base, and its last line. -/
theorem createSignatureBase_spec {input : SignatureInput} {base : SignatureBase}
    (h : createSignatureBase P L options message input = .ok base) :
    ∃ ls parameters, base.text = ls.flatten ++ (signatureParamsPrefix ++ parameters) ∧
      List.Forall₂ (IsLine P L options message) input.components ls ∧
      serializeMember L.structuredFields (.innerList input.innerList) = .ok parameters := by
  simp only [createSignatureBase, bind_eq_ok, checkLimit_eq_ok, exists_const, Prod.exists,
    requireAscii_eq_ok, pure_eq_ok] at h
  obtain ⟨parameters, hparameters, _, -, ls, n, hls, -, text, ⟨-, rfl⟩, rfl⟩ := h
  refine ⟨ls, parameters, rfl, componentLines_spec hls, ?_⟩
  simp only [signatureParameters, signatureInnerList, bind_eq_ok, pure_eq_ok] at hparameters
  obtain ⟨inner, ⟨-, -, -, -, -, -, -, -, -, -, rfl⟩, hparameters⟩ := hparameters
  exact withSfErrors_eq_ok.mp hparameters

theorem terminated_of_lines {cs : List CoveredComponent} {ls : List Text}
    (h : List.Forall₂ (IsLine P L options message) cs ls) : ∀ l ∈ ls, Terminated 10 l := by
  induction h with
  | nil => simp
  | cons h _ ih => exact List.forall_mem_cons.mpr ⟨h.terminated, ih⟩

/-- Equal lines are lines of the same components, with the same values. -/
theorem lines_inj {L' : CoreLimits} {options' : CanonicalizationOptions}
    {message' : HttpMessage} {cs cs' : List CoveredComponent} {ls : List Text}
    (h : List.Forall₂ (IsLine P L options message) cs ls)
    (h' : List.Forall₂ (IsLine P L' options' message') cs' ls) :
    cs = cs' ∧ ∀ c ∈ cs, ∃ value, componentValue P L options message c = .ok value ∧
      componentValue P L' options' message' c = .ok value := by
  induction h generalizing cs' with
  | nil =>
    cases h'
    exact ⟨rfl, by simp⟩
  | cons hc _ ih =>
    cases h' with
    | cons hc' hcs' =>
      obtain ⟨rfl, hvalue⟩ := hc.inj hc'
      obtain ⟨rfl, hvalues⟩ := ih hcs'
      exact ⟨rfl, List.forall_mem_cons.mpr ⟨hvalue, hvalues⟩⟩

/-- The last line of a base has no line break. -/
theorem lastLine_newline {parameters : Text} (h : isPrintable parameters) :
    10 ∉ signatureParamsPrefix ++ parameters := by
  have hnewline : 10 ∉ signatureParamsPrefix := by decide
  simp [hnewline, notMem_newline h]

theorem count_newline {cs : List CoveredComponent} {ls : List Text}
    (h : List.Forall₂ (IsLine P L options message) cs ls) : ls.flatten.count 10 = cs.length := by
  induction h with
  | nil => rfl
  | cons hc _ ih =>
    obtain ⟨s, rfl, hs⟩ := hc.terminated
    rw [List.flatten_cons, List.count_append, ih, List.count_append, List.count_eq_zero.mpr hs]
    simp [Nat.add_comm]

/-- Equal bases have the same lines and the same last line. -/
theorem createSignatureBase_lines {L' : CoreLimits} {options' : CanonicalizationOptions}
    {message' : HttpMessage} {input input' : SignatureInput} {base base' : SignatureBase}
    (h : createSignatureBase P L options message input = .ok base)
    (h' : createSignatureBase P L' options' message' input' = .ok base')
    (heq : base.text = base'.text) :
    input.components = input'.components ∧
      canonicalParameters input.parameters = canonicalParameters input'.parameters ∧
      ∀ c ∈ input.components, ∃ value, componentValue P L options message c = .ok value ∧
        componentValue P L' options' message' c = .ok value := by
  obtain ⟨ls, parameters, htext, hls, hp⟩ := createSignatureBase_spec h
  obtain ⟨ls', parameters', htext', hls', hp'⟩ := createSignatureBase_spec h'
  rw [htext, htext'] at heq
  obtain ⟨rfl, hlast⟩ := flatten_append_inj (terminated_of_lines hls) (terminated_of_lines hls')
    (lastLine_newline (serializeMember_spec hp).1) (lastLine_newline (serializeMember_spec hp').1) heq
  obtain ⟨hcomponents, hvalues⟩ := lines_inj hls hls'
  refine ⟨hcomponents, ?_, hvalues⟩
  obtain ⟨hinner, -⟩ := serializeMember_append_inj hp hp'
    (memberFollows_of_ended .nil _) (memberFollows_of_ended .nil _)
    (by simpa using List.append_cancel_left hlast)
  exact congrArg InnerList.parameters (Member.innerList.inj hinner)

/-- **Equal signature bases cover the same components with the same values, under the same
signature parameters up to `-0`.** A base has one line for each component and a last one. -/
theorem createSignatureBase_injective (P : Platform) (L L' : CoreLimits)
    (options options' : CanonicalizationOptions) (message message' : HttpMessage)
    (input input' : SignatureInput) (base base' : SignatureBase)
    (h : createSignatureBase P L options message input = .ok base)
    (h' : createSignatureBase P L' options' message' input' = .ok base')
    (heq : base.text = base'.text) :
    input.components = input'.components ∧
      canonicalParameters input.parameters = canonicalParameters input'.parameters ∧
      (∀ c ∈ input.components, ∃ value, componentValue P L options message c = .ok value ∧
        componentValue P L' options' message' c = .ok value) ∧
      base.text.count 10 = input.components.length := by
  obtain ⟨hcomponents, hparameters, hvalues⟩ := createSignatureBase_lines h h' heq
  refine ⟨hcomponents, hparameters, hvalues, ?_⟩
  obtain ⟨ls, parameters, htext, hls, hp⟩ := createSignatureBase_spec h
  rw [htext, List.count_append, count_newline hls,
    List.count_eq_zero.mpr (lastLine_newline (serializeMember_spec hp).1), Nat.add_zero]

/-- A request with an uncovered field, whose value is `value`. -/
def exampleRequest (value : String) : HttpMessage :=
  .request ⟨ascii "GET", ascii "https://a.example/", none,
    [⟨ascii "X-Covered", .text (ascii " 1 ")⟩, ⟨ascii "X-Other", .text (ascii value)⟩], none⟩

/-- An input that covers the method and one field. -/
def exampleInput : SignatureInput :=
  ⟨ascii "sig1", [⟨ascii "@method", []⟩, ⟨ascii "x-covered", []⟩],
    [(ascii "created", .integer (.integer 1))]⟩

/-- A platform on which every URL is accepted and no query has parameters. -/
def examplePlatform : Platform := ⟨fun _ => true, fun _ => [], id⟩

theorem createSignatureBase_injective_exampleInput :
    ∃ base base', createSignatureBase examplePlatform DEFAULT_CORE_LIMITS ⟨[]⟩ (exampleRequest "2")
          exampleInput = .ok base ∧
      createSignatureBase examplePlatform DEFAULT_CORE_LIMITS ⟨[]⟩ (exampleRequest "3")
          exampleInput = .ok base' ∧
      base.text = base'.text ∧ base.text.count 10 = 2 := by
  refine ⟨_, _, rfl, rfl, rfl, ?_⟩
  exact (createSignatureBase_injective examplePlatform DEFAULT_CORE_LIMITS DEFAULT_CORE_LIMITS
    ⟨[]⟩ ⟨[]⟩ (exampleRequest "2") (exampleRequest "3") exampleInput exampleInput _ _ rfl rfl
    rfl).2.2.2

end AgentSig.Core
