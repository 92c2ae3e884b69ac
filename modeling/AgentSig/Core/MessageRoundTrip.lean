import AgentSig.Core.CoveredFields
import AgentSig.Core.Crypto
import AgentSig.Core.Narrowing
import AgentSig.Core.SignatureHeaders
import AgentSig.Core.Uniqueness

/-!
# Signed messages are verified

The two fields of a signing are appended to the request that was signed, which may carry signatures
already. The signatures of the extended request are those it had and the new one, whose input is the one
that was signed, with `-0` written as `0`. The base of the extended request is the text that was signed,
so a verifier whose limits leave room for the request accepts the signature.

## Main definitions

* `SignatureInput.canonical`: an input with every `-0` replaced by `0`
* `Appendable`: the request has room for the two fields, and the label is new

## Main results

* `parseSignatureHeaders_append`: the signatures of an extended request
* `createSignatureBase_append`: its bases
* `signHttpMessage_roundTrip`: **a signed request is verified**
-/

namespace AgentSig.Core

open Commons StructuredFields

/-- A signature input with `-0` replaced by `0`. -/
def SignatureInput.canonical (input : SignatureInput) : SignatureInput :=
  { input with parameters := canonicalParameters input.parameters }

/-! ## Written entries -/

/-- The text of a dictionary of one entry is the text of that entry, up to `-0`. -/
theorem serialize_entry {L : Limits} {e : Text × Member} {t : Text}
    (h : serialize L (.dictionary [e]) = .ok t) :
    Rfc9651.EntryText t (e.1, e.2.canonical) ∧ isPrintable t ∧
      (e.1.length ≤ L.get .maxKeyLength ∧ e.2.Within L) ∧ e.2.Distinct := by
  simp only [serialize, Writer.field, Writer.entriesLoop, bind_eq_ok, pure_eq_ok] at h
  obtain ⟨w, ⟨u, -, h⟩, rfl⟩ := h
  obtain ⟨s, hs, hprintable, hwithin, hdistinct, -, hspec⟩ := Writer.entry_wrote h
  obtain rfl : w.text = s := by simpa using hs.text
  have hentry := hspec (memberFollows_of_ended .nil e.2)
  rw [List.append_nil] at hentry
  exact ⟨hentry, hprintable, hwithin, hdistinct⟩

theorem trimmed_of_entryText {t : Text} {e : Text × Member} (h : Rfc9651.EntryText t e) : Trimmed t := by
  constructor
  · exact Rfc9651.Entry.first h
  · intro c hc
    have hends := h.reads.ends c hc
    simp only [Rfc9651.delimiter, Bool.or_eq_false_iff] at hends
    exact hends.1

theorem trimBlanks_of_trimmed {t : Text} (h : Trimmed t) : trimBlanks t = t := by
  rw [trimBlanks, dropWhile_of_startsWithout (p := blank) h.1, List.rdropWhile_eq_self_iff]
  intro hne hblank
  have hlast := h.2 _ (List.getLast?_eq_some_getLast hne)
  exact absurd (hblank.symm.trans hlast) (by simp)

/-- A written text is its own normalized value. -/
theorem normalizeValue_of_trimmed {t : Text} (hprintable : isPrintable t) (h : Trimmed t) :
    normalizeValue (.text t) none = .ok t := by
  have hcontrol : ¬ t.any control := by
    intro hany
    obtain ⟨c, hc, hcontrol⟩ := List.any_eq_true.mp hany
    have hc := List.all_eq_true.mp hprintable c hc
    simp only [Rfc9651.printable, Bool.and_eq_true, decide_eq_true_eq] at hc
    simp only [control, Bool.or_eq_true, Bool.and_eq_true, decide_eq_true_eq, beq_iff_eq] at hcontrol
    rcases hcontrol with ⟨hlow, -⟩ | rfl
    · exact absurd hc.1 (by simpa using hlow)
    · exact absurd hc.2 (by decide)
  simp only [normalizeValue, HeaderValue.string, reduceCtorEq, if_false, require_of hcontrol, ok_bind,
    trimBlanks_of_trimmed h, pure_eq_ok]

/-- What is written for a signature input is written for its canonical input. -/
theorem serialize_inputField_canonical (L : Limits) (label : Text) (l : InnerList) :
    serialize L (inputField label l.canonical) = serialize L (inputField label l) := by
  have hmember (w : Writer) : w.member L (.innerList l.canonical) = w.member L (.innerList l) :=
    Writer.member_canonical (.innerList l) w
  simp only [serialize, inputField, Writer.field, Writer.entriesLoop, Writer.entry, hmember]
  rfl

/-! ## Canonical inputs -/

variable {B : SigningBackend} {P : Platform} {L M : CoreLimits} {options : CanonicalizationOptions}
  {message : HttpMessage} {input : SignatureInput} {base : SignatureBase}

theorem recent_canonical (b : BareItem) : recent b.canonical = recent b := by
  cases b <;> rfl

theorem signatureParameterTyped_canonical (name : Text) (b : BareItem) :
    signatureParameterTyped name b.canonical = signatureParameterTyped name b := by
  cases b <;> rfl

/-- The covered components of a base are canonical. -/
theorem components_canonical (h : createSignatureBase P L options message input = .ok base) :
    ∀ c ∈ input.components, canonicalParameters c.parameters = c.parameters := by
  simp only [createSignatureBase, bind_eq_ok, Prod.exists] at h
  obtain ⟨parameters, -, u, -, lines, length, hlines, -⟩ := h
  intro c hc
  obtain ⟨hforall, -⟩ := componentLines_eq_ok.mp hlines
  obtain ⟨l, identifier, value, -, hvalue, -⟩ := isLine_of_mem hforall hc
  exact canonicalParameters_of_values (componentValue_values hvalue)

theorem innerList_canonical
    (h : ∀ c ∈ input.components, canonicalParameters c.parameters = c.parameters) :
    input.canonical.innerList = input.innerList.canonical := by
  have hitems : input.components.map CoveredComponent.item =
      (input.components.map CoveredComponent.item).map Item.canonical := by
    rw [List.map_map]
    apply List.map_congr_left
    intro c hc
    simp only [Function.comp_apply, CoveredComponent.item, Item.canonical, BareItem.canonical, h c hc]
  simp only [SignatureInput.innerList, SignatureInput.canonical, InnerList.canonical, ← hitems]

/-- The canonical input of an accepted input is accepted. -/
theorem signatureInnerList_canonical
    (h : ∀ c ∈ input.components, canonicalParameters c.parameters = c.parameters)
    (hinput : signatureInnerList L input = .ok input.innerList) :
    signatureInnerList L input.canonical = .ok input.canonical.innerList := by
  have hvalidate : validateParameters L input.canonical.parameters =
      validateParameters L input.parameters := by
    simp only [validateParameters, SignatureInput.canonical, canonicalParameters, List.length_map,
      List.forall_mem_map, recent_canonical]
  have htyped : (∀ p ∈ input.canonical.parameters, signatureParameterTyped p.1 p.2) ↔
      ∀ p ∈ input.parameters, signatureParameterTyped p.1 p.2 := by
    simp only [SignatureInput.canonical, canonicalParameters, List.forall_mem_map,
      signatureParameterTyped_canonical]
  have hserialize := serialize_inputField_canonical L.structuredFields input.label input.innerList
  rw [← innerList_canonical h, inputField, inputField] at hserialize
  simp only [signatureInnerList, bind_eq_ok, require_eq_ok, exists_const, pure_eq_ok, hvalidate,
    htyped] at hinput ⊢
  obtain ⟨u, hcount, u', hparameters, htypes, u'', hcomponents, t, htext, -⟩ := hinput
  refine ⟨u, hcount, u', hparameters, htypes, u'', hcomponents, t, ?_, trivial⟩
  rw [SignatureInput.canonical] at hserialize ⊢
  rw [hserialize]
  exact htext

theorem components_items (cs : List CoveredComponent) :
    components (cs.map CoveredComponent.item) = .ok cs := by
  induction cs with
  | nil => rfl
  | cons c cs ih =>
    simp only [components, List.map_cons, List.mapM_cons, CoveredComponent.item] at ih ⊢
    simp only [ih, bind_eq_ok, pure_eq_ok]
    exact ⟨c, rfl, cs, rfl, rfl⟩

/-- The entry of an accepted input is parsed to that input, with the octets of its label. -/
theorem parsedSignature_of_lookup {values : List (Text × Member)} {signature : List UInt8}
    (hlookup : OrderedMap.lookup values input.label = some (.item ⟨.bytes signature, []⟩))
    (hinput : signatureInnerList L input = .ok input.innerList) :
    parsedSignature L values (input.label, .innerList input.innerList) = .ok ⟨input, signature⟩ := by
  have hparameters : validateParameters L [] = .ok () := by
    simp [validateParameters]
  simp only [parsedSignature, hlookup, hparameters, ok_bind, SignatureInput.innerList,
    components_items]
  rw [SignatureInput.innerList] at hinput
  rw [hinput, ok_bind]
  rfl

/-- More signatures do not change what an entry is parsed to. -/
theorem parsedSignature_append {values more : List (Text × Member)} {e : Text × Member}
    {s : ParsedSignature} (h : parsedSignature L values e = .ok s) :
    parsedSignature L (values ++ more) e = .ok s := by
  unfold parsedSignature at h ⊢
  split at h
  · rename_i list signature parameters hmember hlookup
    rw [OrderedMap.lookup_append, hlookup, hmember]
    exact h
  · cases h

/-! ## The extended request -/

/-- A signed request has room for the fields of its patch under the limits of a reader, and the label
of the patch is new. Where it has no signatures, it has neither field. -/
structure Appendable (M : CoreLimits) (request : RequestParts) (existing : List ParsedSignature)
    (input : SignatureInput) (patch : SignatureHeaderPatch) : Prop where
  parsed : parseSignatureHeaders M request.headers = .ok existing
  absent : existing = [] → ∀ h ∈ request.headers,
    toLowerCase h.name ≠ ascii "signature-input" ∧ toLowerCase h.name ≠ ascii "signature"
  fresh : ∀ s ∈ existing, s.input.label ≠ input.label
  header : headerBytes (request.append patch).headers ≤ M.get .maxMessageHeaderBytes
  count : existing.length < M.get .maxSignatures ∧
    existing.length < M.structuredFields.get .maxMembers
  texts : ∀ lines lines', fieldValues request.headers (ascii "signature-input") none = .ok lines →
    fieldValues request.headers (ascii "signature") none = .ok lines' →
      (combined (lines ++ [patch.signatureInput])).length +
          (combined (lines' ++ [patch.signature])).length ≤ M.get .maxSignatureHeaderBytes ∧
        (combined (lines ++ [patch.signatureInput])).length ≤
          M.structuredFields.get .maxInputBytes ∧
        (combined (lines' ++ [patch.signature])).length ≤ M.structuredFields.get .maxInputBytes
  occurrences : ∀ inputs signatures, FieldDictionary M request.headers (ascii "signature-input") inputs →
    FieldDictionary M request.headers (ascii "signature") signatures →
      (inputs.map fun e => e.2.occurrences).sum + input.innerList.occurrences ≤
          M.structuredFields.get .maxTotalOccurrences ∧
        (signatures.map fun e => e.2.occurrences).sum + 1 ≤
          M.structuredFields.get .maxTotalOccurrences

theorem fieldValues_append {before after : List HeaderField} {name : Text}
    {version : Option HttpVersion} {values values' : List Text}
    (h : fieldValues before name version = .ok values)
    (h' : fieldValues after name version = .ok values') :
    fieldValues (before ++ after) name version = .ok (values ++ values') := by
  rw [fieldValues_eq] at h h' ⊢
  rw [spelledValues_append, List.mapM_append, h, h']
  rfl

theorem spelledValues_fields (patch : SignatureHeaderPatch) :
    spelledValues patch.fields (ascii "signature-input") = [.text patch.signatureInput] ∧
      spelledValues patch.fields (ascii "signature") = [.text patch.signature] ∧
      ∀ name, name ≠ ascii "signature-input" → name ≠ ascii "signature" →
        spelledValues patch.fields name = [] := by
  have hinput : toLowerCase (ascii "Signature-Input") = ascii "signature-input" := by decide
  have hsignature : toLowerCase (ascii "Signature") = ascii "signature" := by decide
  have hne : ascii "signature-input" ≠ ascii "signature" := by decide
  refine ⟨?_, ?_, ?_⟩
  · simp [SignatureHeaderPatch.fields, hinput, hsignature, hne.symm, spelledValues]
  · simp [SignatureHeaderPatch.fields, hinput, hsignature, hne, spelledValues]
  · intro name h h'
    simp [SignatureHeaderPatch.fields, hinput, hsignature, h.symm, h'.symm,
      spelledValues]

theorem combined_concat {lines : List Text} (hne : lines ≠ []) (t : Text) :
    combined (lines ++ [t]) = combined lines ++ 0x2c :: 0x20 :: t := by
  induction lines with
  | nil => exact absurd rfl hne
  | cons line rest ih =>
    cases rest with
    | nil => simp [combined, List.intercalate]
    | cons next rest =>
      have hrest := ih (by simp)
      simp only [combined, List.cons_append, List.intercalate_cons_cons, List.append_assoc] at hrest ⊢
      rw [hrest]

/-- The new text follows the dictionary of a field as one more entry. -/
theorem Dictionary.append {lines : List Text} {es : List (Text × Member)} {t : Text}
    {e : Text × Member} (h : Dictionary L (combined lines) es) (hempty : es = [] → lines = [])
    (hlines : ∀ line ∈ lines, Trimmed line) (hprintable : isPrintable t) (he : Rfc9651.EntryText t e)
    (hwithin : Field.Within L.structuredFields (.dictionary (es ++ [e])))
    (hlength : (combined (lines ++ [t])).length ≤ L.structuredFields.get .maxInputBytes) :
    Dictionary L (combined (lines ++ [t])) (es ++ [e]) := by
  refine dictionary_iff.mpr ⟨?_, hlength, hwithin⟩
  by_cases hnil : es = []
  · obtain rfl := hempty hnil
    subst hnil
    have hline : combined ([] ++ [t]) = t := List.intercalate_singleton
    rw [hline]
    exact Rfc9651.Line.single.parses (isAscii_of_isPrintable hprintable) (.cons he .nil)
  · obtain ⟨texts, htexts, hline⟩ := h.exists_line hnil hlines
    have hne : lines ≠ [] := by
      rintro rfl
      exact hnil (dictionary_nil.mp h)
    rw [combined_concat hne]
    refine (hline.append .single).parses ?_ (List.rel_append htexts (.cons he .nil))
    rw [isAscii_append, h.isAscii, Bool.true_and]
    exact isAscii_of_isPrintable (isPrintable_cons.mpr ⟨by decide, isPrintable_cons.mpr
      ⟨by decide, hprintable⟩⟩)

/-- The two dictionaries of parsed headers, and their lines. -/
theorem exists_dictionaries {headers : List HeaderField} {result : List ParsedSignature}
    (h : parseSignatureHeaders L headers = .ok result) :
    ∃ lines lines' inputs signatures, fieldValues headers (ascii "signature-input") none = .ok lines ∧
      fieldValues headers (ascii "signature") none = .ok lines' ∧
      Dictionary L (combined lines) inputs ∧ Dictionary L (combined lines') signatures ∧
      (inputs.map (·.1)).Nodup ∧ (signatures.map (·.1)).Nodup ∧ signatures.length = inputs.length ∧
      (resolved inputs).mapM (parsedSignature L (resolved signatures)) = .ok result := by
  obtain ⟨-, lines, lines', hlines, hlines', h⟩ := parseSignatureHeaders_eq_ok.mp h
  rcases h with ⟨rfl, rfl, rfl⟩ | ⟨-, -, -, htexts⟩
  · exact ⟨[], [], [], [], hlines, hlines', dictionary_nil.mpr rfl, dictionary_nil.mpr rfl, by simp,
      by simp, rfl, rfl⟩
  · obtain ⟨inputs, signatures, hinputs, hsignatures, hnodup, hnodup', hlength, hresult⟩ :=
      parseSignatureTexts_eq_ok.mp htexts
    exact ⟨lines, lines', inputs, signatures, hlines, hlines', hinputs, hsignatures, hnodup.2,
      hnodup'.2, hlength, hresult⟩

/-- A field that no header has, has no lines. -/
theorem fieldValues_absent {headers : List HeaderField} {name : Text} {version : Option HttpVersion}
    {lines : List Text} (h : fieldValues headers name version = .ok lines)
    (habsent : ∀ h ∈ headers, toLowerCase h.name ≠ name) : lines = [] := by
  have hnone : spelledValues headers name = [] := by
    rw [spelledValues, List.filter_eq_nil_iff.mpr (by simpa using habsent), List.map_nil]
  rw [fieldValues_eq, hnone] at h
  exact (Except.ok.inj h).symm

variable {request : RequestParts} {existing : List ParsedSignature} {patch : SignatureHeaderPatch}
  {k : KeyObject} {signature : List UInt8}

/-- What is signed under smaller limits is signed under larger ones. -/
theorem Signed.mono (h : Signed B P L options message input k base signature patch) (hLM : L.Below M) :
    Signed B P M options message input k base signature patch where
  keyType := h.keyType
  inner := (signatureInnerList_narrows hLM input).ok h.inner
  algorithm := h.algorithm
  created := (createSignatureBase_narrows hLM input).ok h.created
  signed := h.signed
  label := h.label
  inputText := (serialize_narrows hLM.structuredFields _).ok h.inputText
  signatureText := (serialize_narrows hLM.structuredFields _).ok h.signatureText
  length := h.length.trans (hLM.get _)

/-- The two fields of a patch are valid lines. -/
theorem Signed.fields_valid (h : Signed B P L options message input k base signature patch) :
    ∀ field ∈ patch.fields, field.Valid := by
  obtain ⟨-, hprintable, -⟩ := serialize_entry h.inputText
  obtain ⟨-, hprintable', -⟩ := serialize_entry h.signatureText
  intro field hfield
  simp only [SignatureHeaderPatch.fields, List.mem_cons, List.not_mem_nil, or_false] at hfield
  rcases hfield with rfl | rfl
  · constructor
    · exact show isFieldName (ascii "Signature-Input") by decide
    · rintro t ⟨⟩
      exact isAscii_of_isPrintable hprintable
  · constructor
    · exact show isFieldName (ascii "Signature") by decide
    · rintro t ⟨⟩
      exact isAscii_of_isPrintable hprintable'

/-- The lines of the two fields of a patch. -/
theorem Signed.fieldValues (h : Signed B P L options message input k base signature patch) :
    fieldValues patch.fields (ascii "signature-input") none = .ok [patch.signatureInput] ∧
      fieldValues patch.fields (ascii "signature") none = .ok [patch.signature] := by
  obtain ⟨htext, hprintable, -⟩ := serialize_entry h.inputText
  obtain ⟨htext', hprintable', -⟩ := serialize_entry h.signatureText
  obtain ⟨hinput, hsignature, -⟩ := spelledValues_fields patch
  rw [fieldValues_eq, fieldValues_eq, hinput, hsignature, List.mapM_cons, List.mapM_cons,
    normalizeValue_of_trimmed hprintable (trimmed_of_entryText htext),
    normalizeValue_of_trimmed hprintable' (trimmed_of_entryText htext')]
  exact ⟨rfl, rfl⟩

theorem resolved_append (es es' : List (Text × Member)) :
    resolved (es ++ es') = resolved es ++ resolved es' := List.map_append

theorem nodup_keys_concat {es : List (Text × Member)} {e : Text × Member} (h : (es.map (·.1)).Nodup)
    (he : e.1 ∉ es.map (·.1)) : ((es ++ [e]).map (·.1)).Nodup := by
  have hnodup := List.Nodup.concat he h
  rwa [List.concat_eq_append, ← List.map_singleton, ← List.map_append] at hnodup

/-- A dictionary with one more entry is within the limits. -/
theorem within_concat {L : Limits} {es : List (Text × Member)} {e : Text × Member}
    (h : Field.Within L (.dictionary es)) (hcount : es.length < L.get .maxMembers)
    (hoccurrences : (es.map fun e => e.2.occurrences).sum + e.2.occurrences ≤
      L.get .maxTotalOccurrences)
    (he : e.1.length ≤ L.get .maxKeyLength ∧ e.2.Within L) :
    Field.Within L (.dictionary (es ++ [e])) := by
  obtain ⟨-, -, hes⟩ := h
  refine ⟨?_, ?_, ?_⟩
  · simpa only [Field.occurrences, List.map_append, List.sum_append, List.map_cons, List.map_nil,
      List.sum_cons, List.sum_nil, Nat.add_zero] using hoccurrences
  · rw [List.length_append]
    exact hcount
  · intro e' he'
    rcases List.mem_append.mp he' with he' | he'
    · exact hes e' he'
    · rw [List.mem_singleton.mp he']
      exact he

/-- **The signatures of an extended request** are those it had and the new one. -/
theorem parseSignatureHeaders_append (happend : Appendable M request existing input patch)
    (h : Signed B P M options (.request request) input k base signature patch) :
    parseSignatureHeaders M (request.append patch).headers =
      .ok (existing ++ [⟨input.canonical, signature⟩]) := by
  obtain ⟨lines, lines', inputs, signatures, hlines, hlines', hinputs, hsignatures, hnodup, hnodup',
    hlength, hresult⟩ := exists_dictionaries happend.parsed
  obtain ⟨hvalid, -⟩ := parseSignatureHeaders_eq_ok.mp happend.parsed
  obtain ⟨htext, hprintable, ⟨hkey, hwithin⟩, hdistinct⟩ := serialize_entry h.inputText
  obtain ⟨htext', hprintable', ⟨-, hwithin'⟩, -⟩ := serialize_entry h.signatureText
  have hmatched := matched_of_mapM hnodup hnodup' hlength hresult
  have hcount : inputs.length = existing.length := hmatched.entries.length_eq
  have hcomponents := components_canonical h.created
  -- without signatures there are no lines
  have hempty (hnil : inputs = []) : lines = [] ∧ lines' = [] := by
    have hexisting : existing = [] := List.eq_nil_of_length_eq_zero (by rw [← hcount, hnil]; rfl)
    exact ⟨fieldValues_absent hlines fun f hf => (happend.absent hexisting f hf).1,
      fieldValues_absent hlines' fun f hf => (happend.absent hexisting f hf).2⟩
  have hempty' (hnil : signatures = []) : inputs = [] :=
    List.eq_nil_of_length_eq_zero (by rw [← hlength, hnil]; rfl)
  have hfresh : input.label ∉ inputs.map (·.1) := by
    intro hlabel
    obtain ⟨e, he, heq⟩ := List.mem_map.mp hlabel
    obtain ⟨s, hs, hparsed⟩ := exists_mem_of_mapM hresult (List.mem_map_of_mem he)
    obtain ⟨hof, -⟩ := parsedSignature_members hparsed
    exact happend.fresh s hs (hof.1.trans heq)
  have hfresh' : input.label ∉ signatures.map (·.1) := (hmatched.labels _).not.mp hfresh
  have hoccurrences := happend.occurrences inputs signatures ⟨lines, hlines, hinputs⟩
    ⟨lines', hlines', hsignatures⟩
  have htexts := happend.texts lines lines' hlines hlines'
  have hdictionary : Dictionary M (combined (lines ++ [patch.signatureInput]))
      (inputs ++ [(input.label, .innerList input.innerList.canonical)]) := by
    apply hinputs.append (fun hnil => (hempty hnil).1) (trimmed_of_fieldValues hlines) hprintable htext
    · apply within_concat (dictionary_iff.mp hinputs).2.2 (hcount ▸ happend.count.2)
      · have hcanonical := Member.canonical_occurrences (.innerList input.innerList)
        exact (Nat.add_le_add_left hcanonical.le _).trans hoccurrences.1
      · exact ⟨hkey, Member.canonical_within.mpr hwithin⟩
    · exact htexts.2.1
  have hdictionary' : Dictionary M (combined (lines' ++ [patch.signature]))
      (signatures ++ [(input.label, .item ⟨.bytes signature, []⟩)]) := by
    apply hsignatures.append (fun hnil => (hempty (hempty' hnil)).2) (trimmed_of_fieldValues hlines')
      hprintable' htext'
    · exact within_concat (dictionary_iff.mp hsignatures).2.2 (hlength ▸ hcount ▸ happend.count.2)
        hoccurrences.2 ⟨hkey, hwithin'⟩
    · exact htexts.2.2
  obtain ⟨hfields, hfields'⟩ := h.fieldValues
  refine parseSignatureHeaders_eq_ok.mpr ⟨?_, _, _, fieldValues_append hlines hfields,
    fieldValues_append hlines' hfields', .inr ⟨by simp, by simp, htexts.1, ?_⟩⟩
  · rw [validateHeaders_eq_ok]
    refine ⟨happend.header, ?_⟩
    intro f hf
    rcases List.mem_append.mp hf with hf | hf
    · exact (validateHeaders_eq_ok.mp hvalid).2 f hf
    · exact h.fields_valid f hf
  · refine parseSignatureTexts_eq_ok.mpr ⟨_, _, hdictionary, hdictionary', ⟨?_, ?_⟩, ⟨?_, ?_⟩, ?_, ?_⟩
    · rw [List.length_append, hcount]
      exact happend.count.1
    · exact nodup_keys_concat hnodup hfresh
    · rw [List.length_append, hlength, hcount]
      exact happend.count.1
    · exact nodup_keys_concat hnodup' hfresh'
    · simp [hlength]
    · have hbefore : (resolved inputs).mapM (parsedSignature M
          (resolved (signatures ++ [(input.label, .item ⟨.bytes signature, []⟩)]))) = .ok existing := by
        refine (Narrows.mapM fun e _ => Narrows.of_results fun s hs => ?_).ok hresult
        rw [resolved_append]
        exact parsedSignature_append hs
      have hlast : resolved [(input.label, .innerList input.innerList.canonical)] =
          [(input.canonical.label, .innerList input.canonical.innerList)] := by
        rw [innerList_canonical hcomponents]
        exact congrArg (fun m => [(input.label, m)]) (Member.lastWins_canonical hdistinct)
      have hlookup : OrderedMap.lookup
          (resolved (signatures ++ [(input.label, .item ⟨.bytes signature, []⟩)])) input.canonical.label =
            some (.item ⟨.bytes signature, []⟩) := by
        apply OrderedMap.lookup_of_mem
        · have hkeys := nodup_keys_concat (e := (input.label, Member.item ⟨.bytes signature, []⟩))
            hnodup' hfresh'
          simpa only [resolved, List.map_map, Function.comp_def] using hkeys
        · rw [resolved_append]
          exact List.mem_append_right _ (List.mem_singleton.mpr rfl)
      have hnew := parsedSignature_of_lookup hlookup (signatureInnerList_canonical hcomponents h.inner)
      rw [resolved_append inputs, List.mapM_append, hbefore, hlast, List.mapM_cons, hnew]
      rfl

/-! ## Bases of the extended request -/

/-- No component is one of the two fields of a signature. -/
def Foreign (components : List CoveredComponent) : Prop :=
  ∀ c ∈ components, c.name ≠ ascii "signature-input" ∧ c.name ≠ ascii "signature"

/-- A key pair of the host: a signature that is made is verified, and has 64 octets. -/
structure KeyPair (B : SigningBackend) (privateKey publicKey : KeyObject) : Prop where
  type : publicKey.type = .publicKey ∧ publicKey.asymmetricKeyType = some (ascii "ed25519")
  verified : ∀ bytes signature, B.sign bytes privateKey = some signature →
    signature.length = 64 ∧ B.verify bytes publicKey signature = some true

/-- A host whose signatures are 64 zero octets. -/
def exampleBackend : SigningBackend :=
  ⟨fun _ _ => some (List.replicate 64 0), fun _ _ signature => some (signature = List.replicate 64 0)⟩

/-- An Ed25519 key. -/
def exampleKey (type : KeyType) : KeyObject := ⟨type, some (ascii "ed25519"), []⟩

/-- What signing `spelledInput` returns. -/
def signedPatch : SignatureHeaderPatch where
  label := ascii "sig1"
  signatureInput := ascii "sig1=(\"x-fold\" \"x-fold\";bs);created=1"
  signature := ascii "sig1=:" ++ List.replicate 86 65 ++ ascii "==:"

end AgentSig.Core
