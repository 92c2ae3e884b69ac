import AgentSig.Core.Injectivity

/-!
# Unique component identifiers

Two component identifiers are the same when their names are equal and so are the sets of
their parameters: the order of parameters is not significant (RFC 9421, Section 2). The loop
of `createSignatureBase` compares identifiers as texts, where the order does matter.

## Main definitions

* `SameIdentifier`: the equality of RFC 9421
* `Repeats`, `Reorders`: an input covers one identifier twice, or twice in different orders
* `Admissible`: every check other than that for duplicates passes
* `createSignatureBaseUnchecked`: the base without the check for duplicates

## Main results

* `createSignatureBase_isOk_iff`: when a base is created
* `createSignatureBase_eq_unchecked`: distinct identifiers never fail as duplicates
* `uniqueness_iff`: **identifiers are unique unless two differ in the order of parameters only**
-/

namespace AgentSig.Core

open Commons StructuredFields

variable {P : Platform} {L : CoreLimits} {options : CanonicalizationOptions}
  {message : HttpMessage} {input : SignatureInput}

/-- The names are equal, and so are the sets of parameters. -/
def SameIdentifier (c c' : CoveredComponent) : Prop :=
  c.name = c'.name ∧
    ∀ p, p ∈ canonicalParameters c.parameters ↔ p ∈ canonicalParameters c'.parameters

/-- Two covered components have the same identifier. -/
def Repeats (input : SignatureInput) : Prop :=
  ¬ input.components.Pairwise fun c c' => ¬ SameIdentifier c c'

/-- Two covered components have the same identifier, but are not equal. -/
def Reorders (input : SignatureInput) : Prop :=
  ¬ input.components.Pairwise fun c c' => SameIdentifier c c' → c = c'

/-- Every check other than that for duplicates passes: on the parameters, on the headers, on
each component, and on the size of the base. -/
def Admissible (P : Platform) (L : CoreLimits) (options : CanonicalizationOptions)
    (message : HttpMessage) (input : SignatureInput) : Prop :=
  ∃ ls parameters, signatureParameters L input = .ok parameters ∧
    validateSections L message = .ok () ∧
    List.Forall₂ (IsLine P L options message) input.components ls ∧
    ls.flatten.length + signatureParamsPrefix.length + parameters.length ≤
      L.get .maxSignatureBaseBytes

/-- The loop over the covered components without the check for duplicates. -/
def componentLinesUnchecked (P : Platform) (L : CoreLimits) (options : CanonicalizationOptions)
    (message : HttpMessage) :
    (length : ℕ) → List CoveredComponent → Except CoreError (List Text × ℕ)
  | length, [] => return ([], length)
  | length, component :: rest => do
    let identifier ← componentIdentifier L component
    let value ← componentValue P L options message component
    let length := length + (identifier.length + 2 + value.length + 1)
    checkLimit L .maxSignatureBaseBytes length
    let (lines, length) ← componentLinesUnchecked P L options message length rest
    return (line identifier value :: lines, length)

/-- `createSignatureBase` without the check for duplicates. -/
def createSignatureBaseUnchecked (P : Platform) (L : CoreLimits)
    (options : CanonicalizationOptions) (message : HttpMessage) (input : SignatureInput) :
    Except CoreError SignatureBase := do
  let parameters ← signatureParameters L input
  validateSections L message
  let (lines, length) ← componentLinesUnchecked P L options message 0 input.components
  checkLimit L .maxSignatureBaseBytes (length + signatureParamsPrefix.length + parameters.length)
  let text ← requireAscii (lines.flatten ++ (signatureParamsPrefix ++ parameters))
  return { text, bytes := text.map UInt16.toUInt8 }

/-! ## Identifiers -/

theorem SameIdentifier.refl (c : CoveredComponent) : SameIdentifier c c := ⟨rfl, fun _ => Iff.rfl⟩

/-- Equal texts identify equal components, up to `-0`. -/
theorem componentIdentifier_inj {c c' : CoveredComponent} {identifier : Text}
    (h : componentIdentifier L c = .ok identifier)
    (h' : componentIdentifier L c' = .ok identifier) : c.item.canonical = c'.item.canonical :=
  Member.item.inj (serializeMember_append_inj (withSfErrors_eq_ok.mp h) (withSfErrors_eq_ok.mp h')
    (memberFollows_of_ended .nil _) (memberFollows_of_ended .nil _) rfl).1

theorem sameIdentifier_of_canonical {c c' : CoveredComponent}
    (h : c.item.canonical = c'.item.canonical) : SameIdentifier c c' := by
  obtain ⟨hname, hparameters⟩ := Item.mk.inj h
  simp only [CoveredComponent.item, BareItem.canonical, BareItem.string.injEq] at hname hparameters
  exact ⟨hname, fun p => by rw [hparameters]⟩

/-- Components with equal lines are equal. -/
theorem eq_of_canonical {c c' : CoveredComponent} {value value' : Text}
    (hv : componentValue P L options message c = .ok value)
    (hv' : componentValue P L options message c' = .ok value')
    (h : c.item.canonical = c'.item.canonical) : c = c' := by
  have hc := canonicalParameters_of_values (componentValue_values hv)
  have hc' := canonicalParameters_of_values (componentValue_values hv')
  simp only [Item.canonical, CoveredComponent.item, BareItem.canonical, hc, hc', Item.mk.injEq,
    BareItem.string.injEq] at h
  cases c
  cases c'
  obtain ⟨rfl, rfl⟩ := h
  rfl

/-! ## The loop -/

theorem length_line (identifier value : Text) :
    (line identifier value).length = identifier.length + 2 + value.length + 1 := by
  simp [line]
  omega

theorem isLine_of_mem {cs : List CoveredComponent} {ls : List Text} {c : CoveredComponent}
    (h : List.Forall₂ (IsLine P L options message) cs ls) (hc : c ∈ cs) :
    ∃ l, IsLine P L options message c l := by
  induction h with
  | nil => simp at hc
  | cons h _ ih =>
    rcases List.mem_cons.mp hc with rfl | hc
    · exact ⟨_, h⟩
    · exact ih hc

/-- The loop returns the lines of the components exactly when their identifiers are fresh, the
components are distinct, and the lines fit. -/
theorem componentLines_eq_ok {seen : List Text} {n n' : ℕ} {cs : List CoveredComponent}
    {ls : List Text} :
    componentLines P L options message seen n cs = .ok (ls, n') ↔
      List.Forall₂ (IsLine P L options message) cs ls ∧ n' = n + ls.flatten.length ∧
        (cs ≠ [] → n' ≤ L.get .maxSignatureBaseBytes) ∧
        (∀ c ∈ cs, ∀ identifier ∈ seen, componentIdentifier L c ≠ .ok identifier) ∧ cs.Nodup := by
  induction cs generalizing seen n n' ls with
  | nil =>
    simp only [componentLines, pure_eq_ok, Prod.mk.injEq, List.forall₂_nil_left_iff]
    constructor
    · rintro ⟨rfl, rfl⟩
      simp
    · rintro ⟨rfl, rfl, -⟩
      simp
  | cons c cs ih =>
    simp only [componentLines, bind_eq_ok, require_eq_ok, checkLimit_eq_ok, exists_const,
      Prod.exists, pure_eq_ok, Prod.mk.injEq, ih]
    constructor
    · rintro ⟨identifier, hid, hnew, value, hvalue, hle, ls, n'', ⟨hls, rfl, hfits, hfresh, hnodup⟩,
        rfl, rfl⟩
      refine ⟨.cons ⟨identifier, value, hid, hvalue, rfl⟩ hls, ?_, fun _ => ?_, ?_, ?_⟩
      · rw [List.flatten_cons, List.length_append, length_line]
        omega
      · by_cases hcs : cs = []
        · subst hcs
          cases hls
          simpa using hle
        · exact hfits hcs
      · refine List.forall_mem_cons.mpr ⟨fun i hi he => ?_, fun c' hc' i hi =>
          hfresh c' hc' i (List.mem_cons_of_mem _ hi)⟩
        rw [hid] at he
        exact hnew (Except.ok.inj he ▸ hi)
      · exact List.nodup_cons.mpr
          ⟨fun hc => hfresh c hc identifier List.mem_cons_self hid, hnodup⟩
    · rintro ⟨hls, rfl, hfits, hfresh, hnodup⟩
      have hfits := hfits (by simp)
      cases hls with
      | @cons _ l _ ls hl hls =>
        obtain ⟨identifier, value, hid, hvalue, rfl⟩ := hl
        rw [List.flatten_cons, List.length_append, length_line] at hfits ⊢
        obtain ⟨hc, hcs⟩ := List.nodup_cons.mp hnodup
        obtain ⟨hnew, hfresh⟩ := List.forall_mem_cons.mp hfresh
        refine ⟨identifier, hid, fun hi => hnew identifier hi hid, value, hvalue, by omega, ls, _,
          ⟨hls, rfl, fun _ => by omega, fun c' hc' i hi he => ?_, hcs⟩, rfl, by omega⟩
        rcases List.mem_cons.mp hi with rfl | hi
        · -- The identifier is that of `c`, so `c'` would be `c`.
          obtain ⟨l', i', value', -, hvalue', -⟩ := isLine_of_mem hls hc'
          exact hc (eq_of_canonical hvalue hvalue' (componentIdentifier_inj hid he) ▸ hc')
        · exact hfresh c' hc' i hi he

/-! ## Acceptance -/

theorem isAscii_of_lines {cs : List CoveredComponent} {ls : List Text}
    (h : List.Forall₂ (IsLine P L options message) cs ls) : isAscii ls.flatten := by
  induction h with
  | nil => rfl
  | cons hl _ ih =>
    obtain ⟨identifier, value, hid, hvalue, rfl⟩ := hl
    have h₁ := isAscii_of_isPrintable (serializeMember_spec (withSfErrors_eq_ok.mp hid)).1
    simp only [componentValue, bind_eq_ok, requireAscii_eq_ok, pure_eq_ok] at hvalue
    obtain ⟨flags, -, _, -, _, -, value', -, value'', ⟨h₂, rfl⟩, _, -, rfl⟩ := hvalue
    rw [List.flatten_cons, isAscii_append, ih, line, isAscii_append, isAscii_append,
      isAscii_append, h₁, h₂]
    rfl

/-- **A base is created exactly when every other check passes and no component repeats.** -/
theorem createSignatureBase_isOk_iff :
    (∃ base, createSignatureBase P L options message input = .ok base) ↔
      Admissible P L options message input ∧ input.components.Nodup := by
  constructor
  · rintro ⟨base, h⟩
    simp only [createSignatureBase, bind_eq_ok, checkLimit_eq_ok, exists_const, Prod.exists] at h
    obtain ⟨parameters, hp, _, hsections, ls, n, hloop, hfits, -⟩ := h
    obtain ⟨hls, rfl, -, -, hnodup⟩ := componentLines_eq_ok.mp hloop
    exact ⟨⟨ls, parameters, hp, hsections, hls, by omega⟩, hnodup⟩
  · rintro ⟨⟨ls, parameters, hp, hsections, hls, hfits⟩, hnodup⟩
    have hloop := componentLines_eq_ok.mpr (show _ ∧ _ from ⟨hls, (Nat.zero_add _).symm,
      fun _ => by omega, fun c _ i (hi : i ∈ []) => absurd hi (by simp), hnodup⟩)
    have hprintable : isPrintable parameters := by
      simp only [signatureParameters, bind_eq_ok] at hp
      obtain ⟨inner, -, hp⟩ := hp
      exact (serializeMember_spec (withSfErrors_eq_ok.mp hp)).1
    have hascii : isAscii (ls.flatten ++ (signatureParamsPrefix ++ parameters)) := by
      rw [isAscii_append, isAscii_append, isAscii_of_lines hls, isAscii_of_isPrintable hprintable]
      decide
    simp only [createSignatureBase, hp, hsections, hloop, ok_bind]
    have hcheck : checkLimit L .maxSignatureBaseBytes
        (ls.flatten.length + signatureParamsPrefix.length + parameters.length) = .ok () :=
      checkLimit_eq_ok.mpr hfits
    rw [hcheck, requireAscii_eq_ok.mpr ⟨hascii, rfl⟩]
    exact ⟨_, rfl⟩

/-! ## The check for duplicates -/

/-- The check for duplicates passes on identifiers that differ from each other and from all
that were seen. -/
theorem componentLines_eq_unchecked {seen : List Text} {n : ℕ} {cs : List CoveredComponent}
    (hseen : ∀ c ∈ cs, ∀ identifier ∈ seen, componentIdentifier L c ≠ .ok identifier)
    (hcs : cs.Pairwise fun c c' => ¬ SameIdentifier c c') :
    componentLines P L options message seen n cs =
      componentLinesUnchecked P L options message n cs := by
  induction cs generalizing seen n with
  | nil => rfl
  | cons c cs ih =>
    obtain ⟨hc, hcs⟩ := List.pairwise_cons.mp hcs
    obtain ⟨hnew, hseen⟩ := List.forall_mem_cons.mp hseen
    rw [componentLines, componentLinesUnchecked]
    refine bind_congr_ok fun identifier hid => ?_
    rw [require_of (show identifier ∉ seen from fun hi => hnew identifier hi hid), ok_bind]
    refine bind_congr_ok fun value _ => bind_congr_ok fun _ _ => ?_
    rw [ih (fun c' hc' i hi he => ?_) hcs]
    rcases List.mem_cons.mp hi with rfl | hi
    · exact hc c' hc' (sameIdentifier_of_canonical (componentIdentifier_inj hid he))
    · exact hseen c' hc' i hi he

/-- Identifiers that differ pairwise never fail as duplicates. -/
theorem createSignatureBase_eq_unchecked (h : ¬ Repeats input) :
    createSignatureBase P L options message input =
      createSignatureBaseUnchecked P L options message input := by
  rw [createSignatureBase, createSignatureBaseUnchecked,
    componentLines_eq_unchecked (by simp) (not_not.mp h)]

theorem not_repeats_of_nodup (hreorders : ¬ Reorders input) (hnodup : input.components.Nodup) :
    ¬ Repeats input := by
  rw [Reorders, not_not] at hreorders
  rw [Repeats, not_not]
  exact (hreorders.and hnodup).imp fun ⟨himp, hne⟩ hsame => hne (himp hsame)

theorem repeats_of_reorders (h : Reorders input) : Repeats input :=
  fun hpairwise => h (hpairwise.imp fun hne hsame => absurd hsame hne)

theorem repeats_of_not_nodup (h : ¬ input.components.Nodup) : Repeats input :=
  fun hpairwise => h (hpairwise.imp fun {c c'} hne heq => hne (by rw [heq]; exact .refl c'))

/-- **Covered identifiers are unique, in the sense of RFC 9421, exactly when no two of them
differ in the order of their parameters only, or the input is rejected anyway**: because a
component repeats as it is, or because another check fails. -/
theorem uniqueness_iff (P : Platform) (L : CoreLimits) (options : CanonicalizationOptions)
    (message : HttpMessage) (input : SignatureInput) :
    ((Repeats input → ∀ base, createSignatureBase P L options message input ≠ .ok base) ∧
        (¬ Repeats input → createSignatureBase P L options message input =
          createSignatureBaseUnchecked P L options message input)) ↔
      (Reorders input →
        ¬ input.components.Nodup ∨ ¬ Admissible P L options message input) := by
  constructor
  · rintro ⟨hfails, -⟩ hreorders
    by_contra h
    rw [not_or, not_not, not_not] at h
    obtain ⟨base, hbase⟩ := createSignatureBase_isOk_iff.mpr ⟨h.2, h.1⟩
    exact hfails (repeats_of_reorders hreorders) base hbase
  · refine fun h => ⟨fun hrepeats base hbase => ?_, createSignatureBase_eq_unchecked⟩
    obtain ⟨hadmissible, hnodup⟩ := createSignatureBase_isOk_iff.mp ⟨base, hbase⟩
    by_cases hreorders : Reorders input
    · rcases h hreorders with h | h
      · exact h hnodup
      · exact h hadmissible
    · exact not_repeats_of_nodup hreorders hnodup hrepeats

/-- One dictionary member, covered under two orders of its flags. -/
def reorderedInput : SignatureInput :=
  ⟨ascii "sig1", [⟨ascii "x", [(ascii "sf", .boolean true), (ascii "key", .string (ascii "a"))]⟩,
    ⟨ascii "x", [(ascii "key", .string (ascii "a")), (ascii "sf", .boolean true)]⟩], []⟩

/-- A request with a field `x: a=1`. -/
def dictionaryRequest : HttpMessage :=
  .request ⟨ascii "GET", ascii "https://a.example/", none,
    [⟨ascii "X", .text (ascii "a=1")⟩], none⟩

/-- A base that covers one identifier twice is created. -/
theorem reorderedInput_accepted : Repeats reorderedInput ∧
    ∃ base, createSignatureBase examplePlatform DEFAULT_CORE_LIMITS
      ⟨[(ascii "x", some .dictionary)]⟩ dictionaryRequest reorderedInput = .ok base := by
  constructor
  · intro h
    refine (List.pairwise_cons.mp h).1 _ List.mem_cons_self ⟨rfl, fun p => ?_⟩
    simp [canonicalParameters, BareItem.canonical, or_comm]
  · exact ⟨_, rfl⟩

end AgentSig.Core
