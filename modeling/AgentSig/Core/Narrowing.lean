import AgentSig.Core.SignatureBase
import AgentSig.StructuredFields.Narrowing

/-!
# Messages under narrower limits

The canonical text of a message and the signatures in its header under smaller limits: they are as under
larger limits, or an exceeded limit is reported. A verifier whose limits are at least those of a signer
therefore computes the text that was signed.

## Main definitions

* `CoreLimits.Below`: each limit is at most the other
* `CoreLimits.Exceeded`: the errors of charges above the smaller limits

## Main results

* `createSignatureBase_narrows`, `parseSignatureHeaders_narrows`: the base and the signatures
-/

namespace AgentSig.Core

open Commons StructuredFields

/-- Each limit of `L` is at most that of `M`. -/
structure CoreLimits.Below (L M : CoreLimits) : Prop where
  get : ∀ name, L.get name ≤ M.get name
  structuredFields : L.structuredFields.Below M.structuredFields

/-- The error of a charge above a limit of `L` that is smaller than that of `M`. -/
def CoreLimits.Exceeded (L M : CoreLimits) (e : CoreError) : Prop :=
  (∃ name observed, e = .limit name.text (L.get name) observed ∧ L.get name < observed ∧
      L.get name < M.get name) ∨
    ∃ e', L.structuredFields.Exceeded M.structuredFields e' ∧ e = .ofSf e'

theorem CoreLimits.Below.refl (L : CoreLimits) : L.Below L := ⟨fun _ => le_rfl, fun _ => le_rfl⟩

variable {L M : CoreLimits} {α : Type}

/-- A charge against a smaller limit. -/
theorem checkLimit_narrows (h : L.Below M) (name : CoreLimitName) (observed : ℕ) :
    Narrows (L.Exceeded M) (checkLimit L name observed) (checkLimit M name observed) := by
  apply Narrows.bind_right
  intro _ _
  rcases (h.get name).eq_or_lt with heq | hlt
  · rw [heq]
    exact .refl _
  · by_cases hfits : observed ≤ L.get name
    · rw [require_of hfits, require_of (hfits.trans hlt.le)]
      exact .refl _
    · rw [require_eq_error.mpr ⟨hfits, rfl⟩]
      exact .of_error (.inl ⟨name, observed, rfl, Nat.lt_of_not_le hfits, hlt⟩)

/-- The translation of errors keeps which run is narrower. -/
theorem withSfErrors_narrows {x y : Except SfError α}
    (h : Narrows (L.structuredFields.Exceeded M.structuredFields) x y) :
    Narrows (L.Exceeded M) (withSfErrors x) (withSfErrors y) := by
  rcases h with rfl | ⟨e, he, rfl⟩
  · exact .refl _
  · exact .of_error (.inr ⟨e, he, rfl⟩)

/-! ## Headers -/

theorem validateHeadersLoop_narrows (h : L.Below M) (total : ℕ) (headers : List HeaderField) :
    Narrows (L.Exceeded M) (validateHeadersLoop L total headers)
      (validateHeadersLoop M total headers) := by
  induction headers generalizing total with
  | nil => exact .refl _
  | cons header rest ih =>
    obtain ⟨name, value⟩ := header
    apply (checkLimit_narrows h _ _).bind
    intro _
    apply Narrows.bind_right
    intro _ _
    cases value with
    | text t => exact Narrows.bind_right fun _ _ => ih _
    | octets bs => exact ih _

theorem validateHeaders_narrows (h : L.Below M) (headers : List HeaderField) :
    Narrows (L.Exceeded M) (validateHeaders L headers) (validateHeaders M headers) :=
  validateHeadersLoop_narrows h 0 headers

theorem chargeValues_narrows (h : L.Below M) (limit : CoreLimitName) (index length : ℕ)
    (values : List Text) : Narrows (L.Exceeded M) (chargeValues L limit index length values)
      (chargeValues M limit index length values) := by
  induction values generalizing index length with
  | nil => exact .refl _
  | cons value rest ih =>
    apply (checkLimit_narrows h _ _).bind
    intro _
    exact ih _ _

theorem combineValues_narrows (h : L.Below M) (limit : CoreLimitName) (values : List Text) :
    Narrows (L.Exceeded M) (combineValues L limit values) (combineValues M limit values) :=
  (chargeValues_narrows h _ _ _ _).bind_left _

/-! ## Signature inputs -/

theorem validateParameters_narrows (h : L.Below M) (parameters : Parameters) :
    Narrows (L.Exceeded M) (validateParameters L parameters) (validateParameters M parameters) :=
  (checkLimit_narrows h _ _).bind_left _

theorem validateComponent_narrows (h : L.Below M) (component : CoveredComponent) :
    Narrows (L.Exceeded M) (validateComponent L component) (validateComponent M component) := by
  apply Narrows.bind_right
  intro _ _
  apply Narrows.bind_right
  intro _ _
  exact validateParameters_narrows h _

theorem signatureInnerList_narrows (h : L.Below M) (input : SignatureInput) :
    Narrows (L.Exceeded M) (signatureInnerList L input) (signatureInnerList M input) := by
  apply (checkLimit_narrows h _ _).bind
  intro _
  apply (validateParameters_narrows h _).bind
  intro _
  apply Narrows.bind_right
  intro _ _
  apply (Narrows.forM fun component _ => validateComponent_narrows h component).bind
  intro _
  exact (withSfErrors_narrows (serialize_narrows h.structuredFields _)).bind_left _

theorem signatureParameters_narrows (h : L.Below M) (input : SignatureInput) :
    Narrows (L.Exceeded M) (signatureParameters L input) (signatureParameters M input) := by
  apply (signatureInnerList_narrows h input).bind
  intro inner
  exact withSfErrors_narrows (serializeMember_narrows h.structuredFields _)

theorem parsedSignature_narrows (h : L.Below M) (values : List (Text × Member))
    (entry : Text × Member) :
    Narrows (L.Exceeded M) (parsedSignature L values entry) (parsedSignature M values entry) := by
  unfold parsedSignature
  split
  · apply (validateParameters_narrows h _).bind
    intro _
    apply Narrows.bind_right
    intro components _
    exact (signatureInnerList_narrows h _).bind_left _
  · exact .refl _

theorem validateLabels_narrows (h : L.Below M) (raw : RawDocument) :
    Narrows (L.Exceeded M) (validateLabels L raw) (validateLabels M raw) :=
  (checkLimit_narrows h _ _).bind_left _

theorem parseSignatureTexts_narrows (h : L.Below M) (inputText signatureText : Text) :
    Narrows (L.Exceeded M) (parseSignatureTexts L inputText signatureText)
      (parseSignatureTexts M inputText signatureText) := by
  have hraw (t : Text) := withSfErrors_narrows
    (parseRaw_narrows h.structuredFields (.text t) .dictionary)
  have hparse (t : Text) := withSfErrors_narrows
    (parse_narrows h.structuredFields (.text t) .dictionary)
  apply (hraw inputText).bind
  intro rawInput
  apply (hraw signatureText).bind
  intro rawSignature
  apply (validateLabels_narrows h _).bind
  intro _
  apply (validateLabels_narrows h _).bind
  intro _
  apply (hparse inputText).bind
  intro inputDictionary
  apply (hparse signatureText).bind
  intro signatureDictionary
  apply Narrows.bind_right
  intro _ _
  exact Narrows.mapM fun entry _ => parsedSignature_narrows h _ entry

theorem parseSignatureHeaders_narrows (h : L.Below M) (headers : List HeaderField) :
    Narrows (L.Exceeded M) (parseSignatureHeaders L headers) (parseSignatureHeaders M headers) := by
  apply (validateHeaders_narrows h _).bind
  intro _
  apply Narrows.bind_right
  intro inputs _
  apply Narrows.bind_right
  intro signatures _
  apply Narrows.ite (.refl _)
  apply Narrows.bind_right
  intro _ _
  apply (combineValues_narrows h _ _).bind
  intro inputText
  apply Narrows.bind_right
  intro inputText _
  apply (combineValues_narrows h _ _).bind
  intro signatureText
  apply Narrows.bind_right
  intro signatureText _
  apply (checkLimit_narrows h _ _).bind
  intro _
  exact parseSignatureTexts_narrows h _ _

/-! ## Components -/

theorem chargeBytes_narrows (h : L.Below M) (index size : ℕ) (values : List Text) :
    Narrows (L.Exceeded M) (chargeBytes L index size values) (chargeBytes M index size values) := by
  induction values generalizing index size with
  | nil => exact .refl _
  | cons value rest ih =>
    apply (checkLimit_narrows h _ _).bind
    intro _
    exact ih _ _

variable {P : Platform} {options : CanonicalizationOptions} {message : HttpMessage}

theorem structuredComponent_narrows (h : L.Below M) (name : Text) (key : Option Text)
    (combined : Text) : Narrows (L.Exceeded M) (structuredComponent L options name key combined)
      (structuredComponent M options name key combined) := by
  apply Narrows.bind_right
  intro type _
  cases type with
  | none => exact .refl _
  | some type =>
    apply Narrows.bind_right
    intro _ _
    apply (withSfErrors_narrows (parse_narrows h.structuredFields _ _)).bind
    intro parsed
    cases key with
    | none => exact withSfErrors_narrows (serialize_narrows h.structuredFields _)
    | some key =>
      apply Narrows.bind_right
      intro selected _
      exact withSfErrors_narrows (serializeMember_narrows h.structuredFields _)

theorem headerComponent_narrows (h : L.Below M) (headers : List HeaderField)
    (version : Option HttpVersion) (component : CoveredComponent) (flags : ComponentFlags) :
    Narrows (L.Exceeded M) (headerComponent L options headers version component flags)
      (headerComponent M options headers version component flags) := by
  apply Narrows.bind_right
  intro values _
  apply Narrows.bind_right
  intro _ _
  apply Narrows.ite
  · apply (chargeBytes_narrows h _ _ _).bind
    intro _
    exact withSfErrors_narrows (serialize_narrows h.structuredFields _)
  · apply (combineValues_narrows h _ _).bind
    intro combined
    apply Narrows.bind_right
    intro combined _
    exact Narrows.ite (.refl _) (structuredComponent_narrows h _ _ _)

theorem targetParts_narrows (h : L.Below M) (target : Text) :
    Narrows (L.Exceeded M) (targetParts P L target) (targetParts P M target) :=
  (checkLimit_narrows h _ _).bind_left _

theorem requestComponent_narrows (h : L.Below M) (request : RequestParts) (name : Text)
    (encodedName : Option Text) : Narrows (L.Exceeded M) (requestComponent P L request name encodedName)
      (requestComponent P M request name encodedName) := by
  apply Narrows.ite ((checkLimit_narrows h _ _).bind_left _)
  apply Narrows.ite
  · cases request.rawRequestTarget with
    | none => exact .refl _
    | some raw => exact (checkLimit_narrows h _ _).bind_left _
  · exact (targetParts_narrows h _).bind_left _

theorem derivedComponent_narrows (h : L.Below M) (component : CoveredComponent) (flags : ComponentFlags) :
    Narrows (L.Exceeded M) (derivedComponent P L message component flags)
      (derivedComponent P M message component flags) := by
  apply Narrows.ite (.refl _)
  apply Narrows.bind_right
  intro _ _
  cases message.request? with
  | none => exact .refl _
  | some request => exact requestComponent_narrows h _ _ _

theorem fieldComponent_narrows (h : L.Below M) (component : CoveredComponent) (flags : ComponentFlags) :
    Narrows (L.Exceeded M) (fieldComponent L options message component flags)
      (fieldComponent M options message component flags) := by
  unfold fieldComponent
  split
  · exact headerComponent_narrows h _ _ _ _
  · exact headerComponent_narrows h _ _ _ _

theorem componentValue_narrows (h : L.Below M) (component : CoveredComponent) :
    Narrows (L.Exceeded M) (componentValue P L options message component)
      (componentValue P M options message component) := by
  apply Narrows.bind_right
  intro flags _
  apply Narrows.bind_right
  intro _ _
  apply Narrows.bind_right
  intro _ _
  apply Narrows.bind_left
  exact Narrows.ite (derivedComponent_narrows h _ _) (fieldComponent_narrows h _ _)

theorem componentIdentifier_narrows (h : L.Below M) (component : CoveredComponent) :
    Narrows (L.Exceeded M) (componentIdentifier L component) (componentIdentifier M component) :=
  withSfErrors_narrows (serializeMember_narrows h.structuredFields _)

theorem componentLines_narrows (h : L.Below M) (seen : List Text) (length : ℕ)
    (components : List CoveredComponent) :
    Narrows (L.Exceeded M) (componentLines P L options message seen length components)
      (componentLines P M options message seen length components) := by
  induction components generalizing seen length with
  | nil => exact .refl _
  | cons component rest ih =>
    apply (componentIdentifier_narrows h component).bind
    intro identifier
    apply Narrows.bind_right
    intro _ _
    apply (componentValue_narrows h component).bind
    intro value
    apply (checkLimit_narrows h _ _).bind
    intro _
    exact (ih _ _).bind_left _

theorem validateSections_narrows (h : L.Below M) :
    Narrows (L.Exceeded M) (validateSections L message) (validateSections M message) := by
  apply (validateHeaders_narrows h _).bind
  intro _
  split
  · exact validateHeaders_narrows h _
  · exact .refl _

theorem createSignatureBase_narrows (h : L.Below M) (input : SignatureInput) :
    Narrows (L.Exceeded M) (createSignatureBase P L options message input)
      (createSignatureBase P M options message input) := by
  apply (signatureParameters_narrows h input).bind
  intro parameters
  apply (validateSections_narrows h).bind
  intro _
  apply (componentLines_narrows h _ _ _).bind
  rintro ⟨lines, length⟩
  exact (checkLimit_narrows h _ _).bind_left _

end AgentSig.Core
