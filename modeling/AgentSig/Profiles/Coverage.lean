import AgentSig.Core.SignatureBase
import AgentSig.Profiles.AgentHeader

/-!
# Covered components

A candidate must cover the method, the target URI and the agent header of its profile, and may
cover nothing that its profile excludes.

## Main definitions

* `assertRequiredCoverage`: what a candidate must cover
* `assertSupportedComponents`: what it must not

## Main results

* `assertRequiredCoverage_spec`: the components that an accepted candidate covers
* `componentFlags_of_matching`: the flags of a component that covers a member of the agent header
-/

namespace AgentSig.Profiles

open Commons Core StructuredFields

/-- `bareComponent`. -/
def bareComponent (component : CoveredComponent) (name : Text) : Bool :=
  component.name = name ∧ component.parameters = []

/-- The loop of `matchingAgentMember`, with the names seen so far. -/
def matchingParameters (label : Text) : (seen : List Text) → (matchingKey : Bool) → Parameters → Bool
  | _, matchingKey, [] => matchingKey
  | seen, matchingKey, (name, value) :: rest =>
    if name ∈ seen then false
    else if name = ascii "key" then
      decide (value = .string label) && matchingParameters label (name :: seen) true rest
    else if name = ascii "sf" then
      decide (value = .boolean true) && matchingParameters label (name :: seen) matchingKey rest
    else false

/-- `matchingAgentMember`. -/
def matchingAgentMember (component : CoveredComponent) (label : Text) : Bool :=
  component.name = signatureAgent && matchingParameters label [] false component.parameters

/-- A component covers the agent header of a profile. -/
def coversAgent (profile : WebBotAuthProfile) (label : Text) (component : CoveredComponent) : Bool :=
  match profile with
  | .ietfWgProtocol00 => matchingAgentMember component label
  | .cloudflareDocs20260701 => bareComponent component signatureAgent

/-- `assertRequiredCoverage`. -/
def assertRequiredCoverage (input : SignatureInput) (profile : WebBotAuthProfile) :
    Except ProfileError Unit :=
  require (input.components.any (bareComponent · (ascii "@method")) ∧
    input.components.any (bareComponent · (ascii "@target-uri")) ∧
    input.components.any (coversAgent profile input.label)) (invalid .insufficientCoverage)

/-- The first parameter of a component that the profile of the documentation excludes. -/
def excludedParameter (component : CoveredComponent) : Option Text :=
  (component.parameters.find? fun p => p.1 = ascii "req" ∨
    (p.1 = ascii "name" ∧ component.name = ascii "@query-param") ∨
    (¬ isDerived component.name ∧
      p.1 ∈ [ascii "sf", ascii "bs", ascii "key"])).map (·.1)

/-- The names that the profile of the documentation excludes. -/
def excludedName (name : Text) : Bool :=
  name ∈ [ascii "@status", ascii "@query-params", ascii "@query-param"]

/-- The check of a component in every profile. -/
def checkCountersignature (profile : WebBotAuthProfile) (component : CoveredComponent) :
    Except ProfileError Unit :=
  require (component.name ≠ ascii "signature" ∧ component.name ≠ ascii "signature-input")
    (.support ⟨profile.text, component.name, none, "agentsig-m2-local-countersignature-limit"⟩)

/-- The check of a component in the profile of the documentation. -/
def checkLimitations (profile : WebBotAuthProfile) (component : CoveredComponent) :
    Except ProfileError Unit :=
  require (¬ excludedName component.name ∧ excludedParameter component = none)
    (.support ⟨profile.text, component.name, excludedParameter component,
      "cloudflare-docs-2026-07-01-limitations"⟩)

/-- `assertSupportedComponents`, of a supported profile. -/
def assertSupportedComponents (input : SignatureInput) (profile : WebBotAuthProfile) :
    Except ProfileError Unit := do
  input.components.forM (checkCountersignature profile)
  if profile ≠ .cloudflareDocs20260701 then return ()
  else input.components.forM (checkLimitations profile)

/-! ## Accepted candidates -/

variable {input : SignatureInput} {profile : WebBotAuthProfile} {component : CoveredComponent}
  {label : Text}

theorem bareComponent_iff {name : Text} :
    bareComponent component name ↔ component = ⟨name, []⟩ := by
  cases component
  simp [bareComponent]

/-- The components that an accepted candidate covers. -/
theorem assertRequiredCoverage_spec {u : Unit}
    (h : assertRequiredCoverage input profile = .ok u) :
    ⟨ascii "@method", []⟩ ∈ input.components ∧ ⟨ascii "@target-uri", []⟩ ∈ input.components ∧
      ∃ c ∈ input.components, coversAgent profile input.label c := by
  simp only [assertRequiredCoverage, require_eq_ok, List.any_eq_true, bareComponent_iff] at h
  obtain ⟨⟨_, hmethod, rfl⟩, ⟨_, htarget, rfl⟩, hagent⟩ := h
  exact ⟨hmethod, htarget, hagent⟩

/-- A component that covers a member of the agent header has its key as a parameter. -/
theorem key_of_matching {seen : List Text} {ps : Parameters}
    (h : matchingParameters label seen false ps) : (ascii "key", .string label) ∈ ps := by
  induction ps generalizing seen with
  | nil => simp [matchingParameters] at h
  | cons p ps ih =>
    obtain ⟨name, value⟩ := p
    unfold matchingParameters at h
    split at h
    · simp at h
    · split at h
      · rename_i hname
        simp only [Bool.and_eq_true, decide_eq_true_eq] at h
        exact hname ▸ h.1 ▸ List.mem_cons_self
      · split at h
        · simp only [Bool.and_eq_true] at h
          exact List.mem_cons_of_mem _ (ih h.2)
        · simp at h

/-- The profile of the documentation excludes components of header fields with a key. -/
theorem excludedParameter_of_key {value : BareItem} (hname : isDerived component.name = false)
    (h : (ascii "key", value) ∈ component.parameters) : excludedParameter component ≠ none := by
  intro hnone
  have := List.find?_eq_none.mp (Option.map_eq_none_iff.mp hnone) _ h
  simp [hname] at this

/-- No component covers the agent headers of both profiles. -/
theorem not_matching_of_supported {u : Unit}
    (h : assertSupportedComponents input .cloudflareDocs20260701 = .ok u)
    (hc : component ∈ input.components) : matchingAgentMember component label = false := by
  simp only [assertSupportedComponents, bind_eq_ok, ne_eq, not_true_eq_false, if_false,
    forM_eq_ok] at h
  obtain ⟨_, -, h⟩ := h
  have hcheck := (require_eq_ok.mp (h component hc)).2
  refine Bool.eq_false_iff.mpr fun hmatch => ?_
  simp only [matchingAgentMember, Bool.and_eq_true, decide_eq_true_eq] at hmatch
  refine excludedParameter_of_key ?_ (key_of_matching hmatch.2) hcheck
  rw [hmatch.1]
  decide

/-! ## Flags -/

/-- The fold of `componentFlags` over the parameters of a matching component. -/
theorem foldlM_of_matching {seen : List Text} {m : Bool} {ps : Parameters}
    {flags flags' : ComponentFlags} (h : matchingParameters label seen m ps)
    (hm : m → flags.key = some label) (hreq : flags.req = false) (hbs : flags.bs = false)
    (hfold : ps.foldlM applyParameter flags = .ok flags') :
    flags'.key = some label ∧ flags'.req = false ∧ flags'.bs = false := by
  induction ps generalizing seen m flags with
  | nil =>
    obtain rfl := pure_eq_ok.mp hfold
    exact ⟨hm h, hreq, hbs⟩
  | cons p ps ih =>
    obtain ⟨name, value⟩ := p
    simp only [List.foldlM_cons, bind_eq_ok] at hfold
    obtain ⟨flags₁, hflags₁, hfold⟩ := hfold
    unfold matchingParameters at h
    split at h
    · simp at h
    · split at h
      · rename_i hname
        simp only [Bool.and_eq_true, decide_eq_true_eq] at h
        obtain ⟨rfl, h⟩ := h
        have hkey : flags₁ = { flags with key := some label } := by
          subst hname
          exact (Except.ok.inj hflags₁).symm
        exact ih h (fun _ => by rw [hkey]) (by rw [hkey, ← hreq]) (by rw [hkey, ← hbs]) hfold
      · split at h
        · rename_i hname
          simp only [Bool.and_eq_true, decide_eq_true_eq] at h
          obtain ⟨rfl, h⟩ := h
          have hsf : flags₁.key = flags.key ∧ flags₁.req = flags.req ∧ flags₁.bs = flags.bs := by
            subst hname
            obtain rfl := Except.ok.inj hflags₁
            exact ⟨rfl, Bool.or_false _, Bool.or_false _⟩
          exact ih h (fun hm' => hsf.1.trans (hm hm')) (hsf.2.1.trans hreq) (hsf.2.2.trans hbs) hfold
        · simp at h

/-- The flags of a component that covers a member of the agent header. -/
theorem componentFlags_of_matching {flags : ComponentFlags}
    (h : matchingAgentMember component label) (hflags : componentFlags component = .ok flags) :
    flags.key = some label ∧ flags.req = false ∧ flags.bs = false := by
  simp only [matchingAgentMember, Bool.and_eq_true] at h
  simp only [componentFlags, bind_eq_ok, require_eq_ok, exists_const, pure_eq_ok] at hflags
  obtain ⟨flags', hfold, -, -, -, -, rfl⟩ := hflags
  exact foldlM_of_matching h.2 (by simp) rfl rfl hfold

end AgentSig.Profiles
