import AgentSig.Core.SignatureInput
import AgentSig.StructuredFields.MemberLines

/-!
# Signature headers

The lines of `Signature-Input` and of `Signature` are combined into two dictionaries, and parsing
only depends on these. Each has its labels once, both have the same labels, and there is one
signature for each label, in the order of `Signature-Input`. Where that fails for any label, the
call fails.

## Main definitions

* `Dictionary L t es`: the text `t` is read as a dictionary with the occurrences `es`
* `SplitLines lines lines'`: `lines'` has the members of the combined `lines`, in order
* `InputMember`, `SignatureMember`: the shapes of the members of a label
* `SignatureOf`: a signature is that of its label

## Main results

* `parseSignatureTexts_eq_ok`, `parseSignatureHeaders_eq_ok`: when parsing returns
* `parseSignatureHeaders_dictionaries`: the signatures of a header only depend on its dictionaries
* `Dictionary.split`: split lines are read as the same dictionary
* `Dictionary.exists_line`: a dictionary is a line of the texts of its members
-/

namespace AgentSig.Core

open Commons StructuredFields

/-- `values.join(", ")`. -/
def combined (lines : List Text) : Text := [44, 32].intercalate lines

/-- A text is read as a dictionary, with all its occurrences. -/
def Dictionary (L : CoreLimits) (t : Text) (es : List (Text × Member)) : Prop :=
  ∃ raw, parseRaw L.structuredFields (.text t) .dictionary = .ok raw ∧
    raw.root.occurrences = .dictionary es

/-- The lines of a field are read as one dictionary. -/
def FieldDictionary (L : CoreLimits) (headers : List HeaderField) (name : Text)
    (es : List (Text × Member)) : Prop :=
  ∃ lines, fieldValues headers name none = .ok lines ∧ Dictionary L (combined lines) es

/-- The lines `lines'` have the members of the combined lines, in order, or they are the same. -/
def SplitLines (lines lines' : List Text) : Prop :=
  lines' = lines ∨ ∃ groups : List (List Text),
    (∀ m ∈ groups.flatten, ∃ e, Rfc9651.EntryText m e) ∧
      Rfc9651.Line groups.flatten (combined lines) ∧ List.Forall₂ Rfc9651.Line groups lines'

/-- The dictionary of a field is split over the lines of another header. -/
def FieldSplit (headers headers' : List HeaderField) (name : Text) : Prop :=
  ∃ lines lines', fieldValues headers name none = .ok lines ∧
    fieldValues headers' name none = .ok lines' ∧ SplitLines lines lines'

/-- The shape of the member of a label in `Signature-Input`. -/
def InputMember (L : CoreLimits) (label : Text) (m : Member) : Prop :=
  ∃ input : SignatureInput, input.label = label ∧ m = .innerList input.innerList ∧
    signatureInnerList L input = .ok input.innerList

/-- The shape of a member of `Signature`. -/
def SignatureMember (L : CoreLimits) (m : Member) : Prop :=
  ∃ signature parameters, m = .item ⟨.bytes signature, parameters⟩ ∧
    validateParameters L parameters = .ok ()

/-- A signature has the label, the input list and the parameters of an entry of `Signature-Input`,
and the octets of the entry of `Signature` with that label. -/
def SignatureOf (signatures : List (Text × Member)) (e : Text × Member) (s : ParsedSignature) : Prop :=
  s.input.label = e.1 ∧ e.2.lastWins = .innerList s.input.innerList ∧
    ∃ m parameters, (e.1, m) ∈ signatures ∧ m.lastWins = .item ⟨.bytes s.signature, parameters⟩

variable {L : CoreLimits} {headers headers' : List HeaderField} {t t' : Text}
  {lines lines' : List Text} {es es' inputs signatures : List (Text × Member)}
  {result : List ParsedSignature}

/-! ## Dictionaries -/

theorem dictionary_iff : Dictionary L t es ↔ Rfc9651.Parses .dictionary t (.dictionary es) ∧
    t.length ≤ L.structuredFields.get .maxInputBytes ∧
      Field.Within L.structuredFields (.dictionary es) := by
  constructor
  · rintro ⟨raw, hraw, hes⟩
    exact hes ▸ parseRaw_sound hraw
  · rintro ⟨hparses, hlen, hwithin⟩
    exact parseRaw_complete hparses hlen hwithin

instance : Decidable (Dictionary L t es) :=
  match h : parseRaw L.structuredFields (.text t) .dictionary with
  | .ok raw => decidable_of_iff (raw.root.occurrences = .dictionary es) (by simp [Dictionary, h])
  | .error _ => .isFalse (by simp [Dictionary, h])

theorem Dictionary.unique (h : Dictionary L t es) (h' : Dictionary L t es') : es = es' := by
  obtain ⟨raw, hraw, hes⟩ := h
  obtain ⟨raw', hraw', hes'⟩ := h'
  obtain rfl := Except.ok.inj (hraw.symm.trans hraw')
  exact Field.dictionary.inj (hes.symm.trans hes')

theorem dictionary_nil : Dictionary L [] es ↔ es = [] := by
  rw [dictionary_iff]
  constructor
  · rintro ⟨hparses, -⟩
    cases hparses with
    | dictionary _ hentries =>
      cases hentries with
      | nil => rfl
      | last hne => exact absurd rfl hne
      | cons hne => exact absurd rfl hne
  · rintro rfl
    exact ⟨.dictionary rfl .nil, Nat.zero_le _, Nat.zero_le _, Nat.zero_le _, by simp⟩

theorem exists_entries {ms : List Text} (h : ∀ m ∈ ms, ∃ e, Rfc9651.EntryText m e) :
    ∃ es, List.Forall₂ Rfc9651.EntryText ms es := by
  induction ms with
  | nil => exact ⟨[], .nil⟩
  | cons m ms ih =>
    obtain ⟨⟨e, he⟩, hms⟩ := List.forall_mem_cons.mp h
    obtain ⟨es, hes⟩ := ih hms
    exact ⟨e :: es, .cons he hes⟩

/-- Split lines are read as the same dictionary. -/
theorem Dictionary.split (h : Dictionary L (combined lines) es) (hsplit : SplitLines lines lines')
    (hlen : (combined lines').length ≤ L.structuredFields.get .maxInputBytes) :
    Dictionary L (combined lines') es := by
  rcases hsplit with rfl | ⟨groups, hmembers, hline, hlines⟩
  · exact h
  · obtain ⟨hparses, hlen', hwithin⟩ := dictionary_iff.mp h
    have hne : groups ≠ [] := by
      rintro rfl
      exact hline.ne_nil rfl
    have hline' : Rfc9651.Line groups.flatten (combined lines') := .combined hlines hne
    have hascii : isAscii (combined lines) := by
      cases hparses with
      | dictionary hascii _ => exact hascii
    have hascii' : isAscii (combined lines') := by
      rw [hline'.isAscii_iff, ← hline.isAscii_iff]
      exact hascii
    obtain ⟨es', hes'⟩ := exists_entries hmembers
    -- both texts are lines of the same members, and a text is read in one way
    have hsame : Field.dictionary es = Field.dictionary es' :=
      hparses.unique (hline.parses hascii hes') (hlen'.trans (L.structuredFields.safe _))
    refine dictionary_iff.mpr ⟨?_, hlen, hwithin⟩
    rw [hsame]
    exact hline'.parses hascii' hes'

theorem SplitLines.eq_nil_iff (h : SplitLines lines lines') : lines' = [] ↔ lines = [] := by
  rcases h with rfl | ⟨groups, hmembers, hline, hlines⟩
  · rfl
  · obtain ⟨es, hes⟩ := exists_entries hmembers
    have hne : combined lines ≠ [] := (hline.entries hes).2.1
    constructor
    · rintro rfl
      cases hlines
      exact absurd rfl hline.ne_nil
    · rintro rfl
      exact absurd rfl hne

/-! ## Texts of members -/

theorem trimBlanks_starts (t : Text) : StartsWithout Rfc9651.OWS (trimBlanks t) := by
  intro c hc
  obtain ⟨u, hu⟩ := List.head?_eq_some_iff.mp hc
  obtain ⟨w, hw⟩ := List.rdropWhile_prefix blank (t.dropWhile blank)
  refine startsWithout_dropWhile (p := blank) t c ?_
  rw [← hw, show List.rdropWhile blank (t.dropWhile blank) = c :: u from hu]
  simp

theorem trimBlanks_ends (t : Text) : Rfc9651.EndsWithout Rfc9651.OWS (trimBlanks t) := by
  intro c hc
  have hne : trimBlanks t ≠ [] := by
    intro hnil
    simp [hnil] at hc
  have hlast := List.rdropWhile_last_not blank _ hne
  rw [List.getLast?_eq_some_getLast hne, Option.mem_some_iff] at hc
  exact Bool.eq_false_iff.mpr (hc ▸ hlast)

/-- A line starts and ends without whitespace. -/
def Trimmed (line : Text) : Prop :=
  StartsWithout Rfc9651.OWS line ∧ Rfc9651.EndsWithout Rfc9651.OWS line

instance (line : Text) : Decidable (Trimmed line) :=
  inferInstanceAs (Decidable ((∀ c ∈ line.head?, Rfc9651.OWS c = false) ∧
    ∀ c ∈ line.getLast?, Rfc9651.OWS c = false))

theorem trimmed_of_fieldValues {name : Text} {version : Option HttpVersion}
    (h : fieldValues headers name version = .ok lines) : ∀ line ∈ lines, Trimmed line := by
  intro line hline
  obtain ⟨field, -, hvalue⟩ := exists_of_mem_mapM h hline
  simp only [normalizeValue, bind_eq_ok, require_eq_ok, exists_const, pure_eq_ok] at hvalue
  obtain ⟨-, rfl⟩ := hvalue
  exact ⟨trimBlanks_starts _, trimBlanks_ends _⟩

theorem combined_starts (h : ∀ line ∈ lines, Trimmed line) :
    StartsWithout Rfc9651.OWS (combined lines) := by
  cases lines with
  | nil => exact .nil
  | cons line lines =>
    obtain ⟨hstart, -⟩ := h line (by simp)
    cases lines with
    | nil => simpa [combined] using hstart
    | cons next lines =>
      rw [combined, List.intercalate_cons_cons]
      cases line with
      | nil => exact startsWithout_cons.mpr (by decide)
      | cons c line => exact startsWithout_cons.mpr (startsWithout_cons.mp hstart)

theorem combined_ends (h : ∀ line ∈ lines, Trimmed line) :
    Rfc9651.EndsWithout Rfc9651.OWS (combined lines) ∨ ∃ s, combined lines = s ++ [44, 32] := by
  induction lines with
  | nil => exact .inl .nil
  | cons line lines ih =>
    obtain ⟨hline, hlines⟩ := List.forall_mem_cons.mp h
    cases lines with
    | nil => exact .inl (by simpa [combined] using hline.2)
    | cons next lines =>
      have hcons : combined (line :: next :: lines) = line ++ [44, 32] ++ combined (next :: lines) :=
        List.intercalate_cons_cons
      rw [hcons]
      rcases ih hlines with hend | ⟨s, hs⟩
      · by_cases hnil : combined (next :: lines) = []
        · exact .inr ⟨line, by rw [hnil, List.append_nil]⟩
        · exact .inl (hend.prepend hnil _)
      · exact .inr ⟨line ++ [44, 32] ++ s, by rw [hs, List.append_assoc _ s]⟩

/-- A dictionary is a line of the texts of its members. -/
theorem Dictionary.exists_line (h : Dictionary L (combined lines) es) (hes : es ≠ [])
    (hlines : ∀ line ∈ lines, Trimmed line) :
    ∃ texts, List.Forall₂ Rfc9651.EntryText texts es ∧ Rfc9651.Line texts (combined lines) := by
  obtain ⟨hparses, -⟩ := dictionary_iff.mp h
  cases hparses with
  | dictionary _ hentries =>
    have hstart := (combined_starts hlines).mono fun c => Rfc9651.OWS_of_SP (c := c)
    rw [dropWhile_of_startsWithout hstart] at hentries
    exact hentries.exists_line_of_end hes (combined_ends hlines)

/-- A text without outer whitespace that is read as one entry is the text of that entry. -/
theorem Dictionary.entryText {e : Text × Member} (h : Dictionary L t [e]) (ht : Trimmed t) :
    Rfc9651.EntryText t e := by
  have hcombined : combined [t] = t := List.intercalate_singleton
  rw [← hcombined] at h
  obtain ⟨texts, htexts, hline⟩ := h.exists_line (by simp) (by simpa using ht)
  rw [hcombined] at hline
  cases hline with
  | single =>
    cases htexts with
    | cons hentry _ => exact hentry
  | cons _ _ hline =>
    cases htexts with
    | cons _ hrest =>
      cases hrest
      exact absurd rfl hline.ne_nil

/-! ## When parsing returns -/

/-- The entries of a dictionary without repeated labels. -/
def resolved (es : List (Text × Member)) : List (Text × Member) := es.map fun e => (e.1, e.2.lastWins)

theorem rawEntries_labels {raw : RawDocument} (h : raw.root.occurrences = .dictionary es) :
    (rawEntries raw.root).map (·.key) = es.map (·.1) := by
  cases hroot : raw.root with
  | item _ => simp [hroot, RawField.occurrences] at h
  | list _ => simp [hroot, RawField.occurrences] at h
  | dictionary d =>
    rw [hroot] at h
    rw [← Field.dictionary.inj h, rawEntries, List.map_map]
    rfl

theorem validateLabels_eq_ok {raw : RawDocument} {u : Unit}
    (h : raw.root.occurrences = .dictionary es) :
    validateLabels L raw = .ok u ↔ es.length ≤ L.get .maxSignatures ∧ (es.map (·.1)).Nodup := by
  have hlength := congrArg List.length (rawEntries_labels h)
  simp only [List.length_map] at hlength
  simp only [validateLabels, bind_eq_ok, checkLimit_eq_ok, require_eq_ok, exists_const,
    rawEntries_labels h, hlength]

theorem fieldEntries_of_nodup {raw : RawDocument} (h : raw.root.occurrences = .dictionary es)
    (hnodup : (es.map (·.1)).Nodup) : fieldEntries (semantic raw.root) = resolved es := by
  rw [semantic_eq_lastWins, h, Field.lastWins, OrderedMap.lastWins_eq_self hnodup]
  rfl

theorem occurrences_dictionary {raw : RawDocument}
    (h : parseRaw L.structuredFields (.text t) .dictionary = .ok raw) :
    ∃ es, raw.root.occurrences = .dictionary es := by
  obtain ⟨hparses, -⟩ := parseRaw_sound h
  generalize raw.root.occurrences = f at hparses
  cases hparses with
  | dictionary => exact ⟨_, rfl⟩

/-- Two texts are parsed exactly when both are dictionaries without repeated labels, of as many
entries, and each entry has its signature. -/
theorem parseSignatureTexts_eq_ok : parseSignatureTexts L t t' = .ok result ↔
    ∃ inputs signatures, Dictionary L t inputs ∧ Dictionary L t' signatures ∧
      (inputs.length ≤ L.get .maxSignatures ∧ (inputs.map (·.1)).Nodup) ∧
      (signatures.length ≤ L.get .maxSignatures ∧ (signatures.map (·.1)).Nodup) ∧
      signatures.length = inputs.length ∧
      (resolved inputs).mapM (parsedSignature L (resolved signatures)) = .ok result := by
  have hparse {t : Text} {raw : RawDocument} {f : Field}
      (hraw : parseRaw L.structuredFields (.text t) .dictionary = .ok raw) :
      parse L.structuredFields (.text t) .dictionary = .ok f ↔ semantic raw.root = f := by
    simp only [parse, hraw, ok_bind, pure_eq_ok]
  simp only [parseSignatureTexts, bind_eq_ok, withSfErrors_eq_ok, require_eq_ok, exists_const]
  constructor
  · rintro ⟨raw, hraw, raw', hraw', u, hlabels, u', hlabels', f, hf, f', hf', hlen, hresult⟩
    obtain ⟨es, hes⟩ := occurrences_dictionary hraw
    obtain ⟨es', hes'⟩ := occurrences_dictionary hraw'
    have hnodup := (validateLabels_eq_ok hes).mp hlabels
    have hnodup' := (validateLabels_eq_ok hes').mp hlabels'
    obtain rfl := (hparse hraw).mp hf
    obtain rfl := (hparse hraw').mp hf'
    rw [fieldEntries_of_nodup hes hnodup.2, fieldEntries_of_nodup hes' hnodup'.2] at hlen hresult
    simp only [resolved, List.length_map] at hlen
    exact ⟨es, es', ⟨raw, hraw, hes⟩, ⟨raw', hraw', hes'⟩, hnodup, hnodup', hlen, hresult⟩
  · rintro ⟨es, es', ⟨raw, hraw, hes⟩, ⟨raw', hraw', hes'⟩, hnodup, hnodup', hlen, hresult⟩
    refine ⟨raw, hraw, raw', hraw', (), (validateLabels_eq_ok hes).mpr hnodup, (),
      (validateLabels_eq_ok hes').mpr hnodup', _, (hparse hraw).mpr rfl, _, (hparse hraw').mpr rfl, ?_⟩
    rw [fieldEntries_of_nodup hes hnodup.2, fieldEntries_of_nodup hes' hnodup'.2]
    simpa only [resolved, List.length_map] using And.intro hlen hresult

theorem chargeValues_eq_ok {limit : CoreLimitName} {values : List Text} {index length : ℕ} {u : Unit}
    (hindex : index ≠ 0) (hlength : length ≤ L.get limit) :
    chargeValues L limit index length values = .ok u ↔
      length + (values.map fun value => value.length + 2).sum ≤ L.get limit := by
  induction values generalizing index length with
  | nil => simp [chargeValues, hlength]
  | cons value values ih =>
    simp only [chargeValues, bind_eq_ok, checkLimit_eq_ok, exists_const, if_neg hindex, List.map_cons,
      List.sum_cons]
    constructor
    · rintro ⟨hle, hrest⟩
      have := (ih (by omega) hle).mp hrest
      omega
    · intro h
      have hle : length + (value.length + 2) ≤ L.get limit := by omega
      exact ⟨hle, (ih (by omega) hle).mpr (by omega)⟩

theorem length_combined {value : Text} {values : List Text} :
    (combined (value :: values)).length =
      value.length + (values.map fun value => value.length + 2).sum := by
  induction values generalizing value with
  | nil => simp [combined, List.intercalate]
  | cons next values ih =>
    have hcons : combined (value :: next :: values) = value ++ 44 :: 32 :: combined (next :: values) := by
      simp [combined, List.intercalate]
    rw [hcons, List.length_append, List.length_cons, List.length_cons, ih, List.map_cons, List.sum_cons]
    omega

/-- Lines are combined exactly when their text is within the limit. -/
theorem combineValues_eq_ok {limit : CoreLimitName} (hne : lines ≠ []) :
    combineValues L limit lines = .ok t ↔
      (combined lines).length ≤ L.get limit ∧ combined lines = t := by
  obtain ⟨value, values, rfl⟩ := List.exists_cons_of_ne_nil hne
  simp only [combineValues, chargeValues, bind_eq_ok, checkLimit_eq_ok, exists_const, pure_eq_ok,
    if_true, Nat.zero_add, Nat.add_zero, length_combined]
  constructor
  · rintro ⟨u, ⟨hle, hrest⟩, ht⟩
    exact ⟨(chargeValues_eq_ok (by simp) hle).mp hrest, ht⟩
  · rintro ⟨h, ht⟩
    have hle : value.length ≤ L.get limit := by omega
    exact ⟨(), ⟨hle, (chargeValues_eq_ok (by simp) hle).mpr h⟩, ht⟩

theorem Dictionary.isAscii (h : Dictionary L t es) : isAscii t := by
  obtain ⟨hparses, -⟩ := dictionary_iff.mp h
  cases hparses with
  | dictionary hascii _ => exact hascii

/-- Headers are parsed exactly when they are valid and have no line of either field, or lines of
both, within the limit, that combine into texts that are parsed. -/
theorem parseSignatureHeaders_eq_ok : parseSignatureHeaders L headers = .ok result ↔
    validateHeaders L headers = .ok () ∧ ∃ lines lines',
      fieldValues headers (ascii "signature-input") none = .ok lines ∧
      fieldValues headers (ascii "signature") none = .ok lines' ∧
      (lines = [] ∧ lines' = [] ∧ result = [] ∨
        lines ≠ [] ∧ lines' ≠ [] ∧
          (combined lines).length + (combined lines').length ≤ L.get .maxSignatureHeaderBytes ∧
          parseSignatureTexts L (combined lines) (combined lines') = .ok result) := by
  simp only [parseSignatureHeaders, bind_eq_ok]
  constructor
  · rintro ⟨u, hvalid, lines, hlines, lines', hlines', h⟩
    refine ⟨hvalid, lines, lines', hlines, hlines', ?_⟩
    split at h
    · rename_i hnil
      exact .inl ⟨hnil.1, hnil.2, (pure_eq_ok.mp h).symm⟩
    · simp only [bind_eq_ok, require_eq_ok, exists_const, requireAscii_eq_ok, checkLimit_eq_ok] at h
      obtain ⟨⟨hne, hne'⟩, t, hcombine, u, ⟨-, rfl⟩, t', hcombine', u', ⟨-, rfl⟩, hlength, htexts⟩ := h
      obtain ⟨-, rfl⟩ := (combineValues_eq_ok hne).mp hcombine
      obtain ⟨-, rfl⟩ := (combineValues_eq_ok hne').mp hcombine'
      exact .inr ⟨hne, hne', hlength, htexts⟩
  · rintro ⟨hvalid, lines, lines', hlines, hlines', h⟩
    refine ⟨(), hvalid, lines, hlines, lines', hlines', ?_⟩
    rcases h with ⟨rfl, rfl, rfl⟩ | ⟨hne, hne', hlength, htexts⟩
    · rfl
    · rw [if_neg fun hnil => hne hnil.1]
      obtain ⟨inputs, signatures, hinputs, hsignatures, -⟩ := parseSignatureTexts_eq_ok.mp htexts
      simp only [bind_eq_ok, require_eq_ok, exists_const, requireAscii_eq_ok, checkLimit_eq_ok]
      exact ⟨⟨hne, hne'⟩, _, (combineValues_eq_ok hne).mpr ⟨by omega, rfl⟩, _,
        ⟨hinputs.isAscii, rfl⟩, _, (combineValues_eq_ok hne').mpr ⟨by omega, rfl⟩, _,
        ⟨hsignatures.isAscii, rfl⟩, hlength, htexts⟩

/-! ## Labels -/

theorem mem_resolved {label : Text} {m : Member} (h : (label, m) ∈ resolved es) :
    ∃ m', (label, m') ∈ es ∧ m'.lastWins = m := by
  obtain ⟨⟨label', m'⟩, he, heq⟩ := List.mem_map.mp h
  obtain ⟨rfl, rfl⟩ := Prod.mk.inj heq
  exact ⟨m', he, rfl⟩

/-- An entry has a signature only where its member and that of its label have their shapes. -/
theorem parsedSignature_members {e : Text × Member} {s : ParsedSignature}
    (h : parsedSignature L (resolved signatures) (e.1, e.2.lastWins) = .ok s) :
    SignatureOf signatures e s ∧ InputMember L e.1 e.2.lastWins ∧
      ∃ m, (e.1, m) ∈ signatures ∧ SignatureMember L m.lastWins := by
  have hspec := parsedSignature_spec h
  obtain ⟨hlabel, hmember⟩ := Prod.mk.inj hspec
  unfold parsedSignature at h
  split at h
  · rename_i list signature parameters hlist hlookup
    simp only [bind_eq_ok, pure_eq_ok] at h
    obtain ⟨u, hparameters, cs, hcs, inner, hinner, rfl⟩ := h
    obtain ⟨m, hm, hlast⟩ := mem_resolved (OrderedMap.mem_of_lookup hlookup)
    have hvalid : signatureInnerList L ⟨e.1, cs, list.parameters⟩ =
        .ok (SignatureInput.innerList ⟨e.1, cs, list.parameters⟩) := by
      have hinner' := hinner
      simp only [signatureInnerList, bind_eq_ok, pure_eq_ok] at hinner'
      obtain ⟨_, -, _, -, _, -, _, -, _, -, rfl⟩ := hinner'
      exact hinner
    exact ⟨⟨rfl, hmember, m, parameters, hm, hlast⟩, ⟨_, rfl, hmember, hvalid⟩, m, hm, _, _, hlast,
      hparameters⟩
  · simp at h

/-- What the two dictionaries of parsed headers are like. -/
structure Matched (L : CoreLimits) (inputs signatures : List (Text × Member))
    (result : List ParsedSignature) : Prop where
  inputLabels : (inputs.map (·.1)).Nodup
  signatureLabels : (signatures.map (·.1)).Nodup
  labels : ∀ label, label ∈ inputs.map (·.1) ↔ label ∈ signatures.map (·.1)
  entries : List.Forall₂ (SignatureOf signatures) inputs result
  inputMembers : ∀ e ∈ inputs, InputMember L e.1 e.2.lastWins
  signatureMembers : ∀ e ∈ signatures, SignatureMember L e.2.lastWins

theorem matched_nil : Matched L [] [] [] where
  inputLabels := by simp
  signatureLabels := by simp
  labels := by simp
  entries := .nil
  inputMembers := by simp
  signatureMembers := by simp

theorem matched_of_mapM (hinputs : (inputs.map (·.1)).Nodup) (hsignatures : (signatures.map (·.1)).Nodup)
    (hlength : signatures.length = inputs.length)
    (h : (resolved inputs).mapM (parsedSignature L (resolved signatures)) = .ok result) :
    Matched L inputs signatures result := by
  have hpairs := List.forall₂_map_left_iff.mp (forall₂_of_mapM h)
  have hrounds : ∀ e ∈ inputs, ∃ s, parsedSignature L (resolved signatures) (e.1, e.2.lastWins) = .ok s := by
    intro e he
    obtain ⟨s, -, hs⟩ := exists_mem_of_mapM h (List.mem_map_of_mem he)
    exact ⟨s, hs⟩
  have hsub : inputs.map (·.1) ⊆ signatures.map (·.1) := by
    intro label hlabel
    obtain ⟨e, he, rfl⟩ := List.mem_map.mp hlabel
    obtain ⟨s, hs⟩ := hrounds e he
    obtain ⟨-, -, m, hm, -⟩ := parsedSignature_members hs
    exact List.mem_map_of_mem (f := (·.1)) hm
  -- as many labels, and no label twice
  have hperm : (inputs.map (·.1)).Perm (signatures.map (·.1)) :=
    (hinputs.subperm hsub).perm_of_length_le (by simp [hlength])
  refine ⟨hinputs, hsignatures, fun label => hperm.mem_iff, ?_, ?_, ?_⟩
  · exact hpairs.imp fun e s hs => (parsedSignature_members hs).1
  · intro e he
    obtain ⟨s, hs⟩ := hrounds e he
    exact (parsedSignature_members hs).2.1
  · intro e he
    obtain ⟨e', he', hlabel⟩ := List.mem_map.mp (hperm.mem_iff.mpr (List.mem_map_of_mem (f := (·.1)) he))
    obtain ⟨s, hs⟩ := hrounds e' he'
    obtain ⟨-, -, m, hm, hshape⟩ := parsedSignature_members hs
    have heq : m = e.2 := by
      have hlookup := OrderedMap.lookup_of_mem hsignatures (show (e.1, m) ∈ signatures from hlabel ▸ hm)
      rw [OrderedMap.lookup_of_mem hsignatures (show (e.1, e.2) ∈ signatures from he)] at hlookup
      exact (Option.some.inj hlookup).symm
    exact heq ▸ hshape

/-- Parsed headers have two dictionaries that match. -/
theorem exists_matched (h : parseSignatureHeaders L headers = .ok result) :
    ∃ lines lines' inputs signatures, fieldValues headers (ascii "signature-input") none = .ok lines ∧
      fieldValues headers (ascii "signature") none = .ok lines' ∧
      Dictionary L (combined lines) inputs ∧ Dictionary L (combined lines') signatures ∧
      Matched L inputs signatures result := by
  obtain ⟨-, lines, lines', hlines, hlines', h⟩ := parseSignatureHeaders_eq_ok.mp h
  rcases h with ⟨rfl, rfl, rfl⟩ | ⟨-, -, -, htexts⟩
  · exact ⟨[], [], [], [], hlines, hlines', dictionary_nil.mpr rfl, dictionary_nil.mpr rfl, matched_nil⟩
  · obtain ⟨inputs, signatures, hinputs, hsignatures, hnodup, hnodup', hlength, hresult⟩ :=
      parseSignatureTexts_eq_ok.mp htexts
    exact ⟨lines, lines', inputs, signatures, hlines, hlines', hinputs, hsignatures,
      matched_of_mapM hnodup.2 hnodup'.2 hlength hresult⟩

/-! ## Splitting and labels -/

/-- A header section is valid, and the lines of its two fields are within the limits. -/
structure SignatureHeadersFit (L : CoreLimits) (headers : List HeaderField) : Prop where
  valid : validateHeaders L headers = .ok ()
  lines : ∀ lines lines', fieldValues headers (ascii "signature-input") none = .ok lines →
    fieldValues headers (ascii "signature") none = .ok lines' →
      (combined lines).length + (combined lines').length ≤ L.get .maxSignatureHeaderBytes ∧
        (combined lines).length ≤ L.structuredFields.get .maxInputBytes ∧
        (combined lines').length ≤ L.structuredFields.get .maxInputBytes

theorem parseSignatureHeaders_split (h : parseSignatureHeaders L headers = .ok result)
    (hinput : FieldSplit headers headers' (ascii "signature-input"))
    (hsignature : FieldSplit headers headers' (ascii "signature"))
    (hfit : SignatureHeadersFit L headers') : parseSignatureHeaders L headers' = .ok result := by
  obtain ⟨-, lines, lines', hlines, hlines', h⟩ := parseSignatureHeaders_eq_ok.mp h
  obtain ⟨old, new, hold, hnew, hsplit⟩ := hinput
  obtain ⟨old', new', hold', hnew', hsplit'⟩ := hsignature
  obtain rfl := Except.ok.inj (hold.symm.trans hlines)
  obtain rfl := Except.ok.inj (hold'.symm.trans hlines')
  obtain ⟨htotal, hlen, hlen'⟩ := hfit.lines new new' hnew hnew'
  refine parseSignatureHeaders_eq_ok.mpr ⟨hfit.valid, new, new', hnew, hnew', ?_⟩
  rw [ne_eq, ne_eq, hsplit.eq_nil_iff, hsplit'.eq_nil_iff]
  refine h.imp_right fun ⟨hne, hne', _, htexts⟩ => ⟨hne, hne', htotal, ?_⟩
  obtain ⟨inputs, signatures, hinputs, hsignatures, hrest⟩ := parseSignatureTexts_eq_ok.mp htexts
  exact parseSignatureTexts_eq_ok.mpr ⟨inputs, signatures, hinputs.split hsplit hlen,
    hsignatures.split hsplit' hlen', hrest⟩

/-- **The signatures of a header only depend on its two dictionaries.** Where a header is parsed,
each dictionary that is not empty is the texts of its members on a line, and every valid header that
has the same members of both fields on any lines, in order, with any other fields between them, has
the same signatures, within the limits. No label occurs twice, both dictionaries have the same
labels, and there is a signature for each entry of `Signature-Input`, in order, that is that of its
label. Where the labels of two dictionaries differ, or a member does not have its shape, the call
fails. -/
theorem parseSignatureHeaders_dictionaries (L : CoreLimits) (headers : List HeaderField) :
    (∀ result, parseSignatureHeaders L headers = .ok result →
      (∀ headers', FieldSplit headers headers' (ascii "signature-input") →
        FieldSplit headers headers' (ascii "signature") → SignatureHeadersFit L headers' →
          parseSignatureHeaders L headers' = .ok result) ∧
      ∃ lines lines' inputs signatures,
        fieldValues headers (ascii "signature-input") none = .ok lines ∧
        fieldValues headers (ascii "signature") none = .ok lines' ∧
        Dictionary L (combined lines) inputs ∧ Dictionary L (combined lines') signatures ∧
        (inputs ≠ [] → ∃ texts, List.Forall₂ Rfc9651.EntryText texts inputs ∧
          Rfc9651.Line texts (combined lines)) ∧
        (signatures ≠ [] → ∃ texts, List.Forall₂ Rfc9651.EntryText texts signatures ∧
          Rfc9651.Line texts (combined lines')) ∧
        (inputs.map (·.1)).Nodup ∧ (signatures.map (·.1)).Nodup ∧
        (∀ label, label ∈ inputs.map (·.1) ↔ label ∈ signatures.map (·.1)) ∧
        List.Forall₂ (SignatureOf signatures) inputs result) ∧
    ∀ inputs signatures, FieldDictionary L headers (ascii "signature-input") inputs →
      FieldDictionary L headers (ascii "signature") signatures →
      ((∃ label, ¬(label ∈ inputs.map (·.1) ↔ label ∈ signatures.map (·.1))) ∨
        (∃ e ∈ inputs, ¬InputMember L e.1 e.2.lastWins) ∨
        (∃ e ∈ signatures, ¬SignatureMember L e.2.lastWins)) →
      ∃ e, parseSignatureHeaders L headers = .error e := by
  constructor
  · intro result h
    obtain ⟨lines, lines', inputs, signatures, hlines, hlines', hinputs, hsignatures, hmatched⟩ :=
      exists_matched h
    refine ⟨fun headers' hinput hsignature hfit => parseSignatureHeaders_split h hinput hsignature hfit,
      lines, lines', inputs, signatures, hlines, hlines', hinputs, hsignatures, ?_, ?_,
      hmatched.inputLabels, hmatched.signatureLabels, hmatched.labels, hmatched.entries⟩
    · intro hne
      exact hinputs.exists_line hne (trimmed_of_fieldValues hlines)
    · intro hne
      exact hsignatures.exists_line hne (trimmed_of_fieldValues hlines')
  · intro inputs signatures hinputs hsignatures hbad
    cases hresult : parseSignatureHeaders L headers with
    | error e => exact ⟨e, rfl⟩
    | ok result =>
      exfalso
      obtain ⟨lines, lines', inputs', signatures', hlines, hlines', hinputs', hsignatures', hmatched⟩ :=
        exists_matched hresult
      obtain ⟨old, hold, hdictionary⟩ := hinputs
      obtain ⟨old', hold', hdictionary'⟩ := hsignatures
      obtain rfl := Except.ok.inj (hold.symm.trans hlines)
      obtain rfl := Except.ok.inj (hold'.symm.trans hlines')
      obtain rfl := hdictionary.unique hinputs'
      obtain rfl := hdictionary'.unique hsignatures'
      rcases hbad with ⟨label, hlabel⟩ | ⟨e, he, hshape⟩ | ⟨e, he, hshape⟩
      · exact hlabel (hmatched.labels label)
      · exact hshape (hmatched.inputMembers e he)
      · exact hshape (hmatched.signatureMembers e he)

/-- A header with some lines of both fields, and other fields. -/
def signatureLines (inputs signatures : List Text) (others : List HeaderField) : List HeaderField :=
  inputs.map (fun t => ⟨ascii "Signature-Input", .text t⟩) ++ others ++
    signatures.map fun t => ⟨ascii "signature", .text t⟩

/-- A member with a comma inside a string. -/
def firstInput : Text := ascii "b=(\"@method\");tag=\"a, b\""

/-- What `firstInput` is read as. -/
def firstEntry : Text × Member :=
  (ascii "b", .innerList ⟨[⟨.string (ascii "@method"), []⟩], [(ascii "tag", .string (ascii "a, b"))]⟩)

/-- Another member. -/
def secondInput : Text := ascii "a=();created=1"

/-- What `secondInput` is read as. -/
def secondEntry : Text × Member :=
  (ascii "a", .innerList ⟨[], [(ascii "created", .integer (.integer 1))]⟩)

/-- The signatures of both labels, in the other order. -/
def exampleSignatures : Text := ascii "a=:AQ==: , b=:Ag==:"

/-- The signatures of both members. -/
def exampleResult : List ParsedSignature :=
  [⟨⟨ascii "b", [⟨ascii "@method", []⟩], [(ascii "tag", .string (ascii "a, b"))]⟩, [2]⟩,
    ⟨⟨ascii "a", [], [(ascii "created", .integer (.integer 1))]⟩, [1]⟩]

theorem exampleInputs_entryText : ∀ m ∈ [firstInput, secondInput], ∃ e, Rfc9651.EntryText m e := by
  have hfirst : Dictionary DEFAULT_CORE_LIMITS firstInput [firstEntry] := by decide +kernel
  have hsecond : Dictionary DEFAULT_CORE_LIMITS secondInput [secondEntry] := by decide +kernel
  intro m hm
  simp only [List.mem_cons, List.not_mem_nil, or_false] at hm
  rcases hm with rfl | rfl
  · exact ⟨_, hfirst.entryText (by decide +kernel)⟩
  · exact ⟨_, hsecond.entryText (by decide +kernel)⟩

theorem parseSignatureHeaders_dictionaries_twoLines :
    parseSignatureHeaders DEFAULT_CORE_LIMITS (signatureLines [firstInput, secondInput]
        [exampleSignatures] [⟨ascii "Via", .text (ascii "1.1 a")⟩]) = .ok exampleResult ∧
      ∃ e, parseSignatureHeaders DEFAULT_CORE_LIMITS
        (signatureLines [firstInput] [exampleSignatures] []) = .error e := by
  have hparsed : parseSignatureHeaders DEFAULT_CORE_LIMITS (signatureLines
      [firstInput ++ 44 :: secondInput] [exampleSignatures] []) = .ok exampleResult := by
    decide +kernel
  constructor
  · have hlines : fieldValues (signatureLines [firstInput, secondInput] [exampleSignatures]
        [⟨ascii "Via", .text (ascii "1.1 a")⟩]) (ascii "signature-input") none =
          .ok [firstInput, secondInput] := by
      decide +kernel
    have hlines' : fieldValues (signatureLines [firstInput, secondInput] [exampleSignatures]
        [⟨ascii "Via", .text (ascii "1.1 a")⟩]) (ascii "signature") none = .ok [exampleSignatures] := by
      decide +kernel
    refine ((parseSignatureHeaders_dictionaries DEFAULT_CORE_LIMITS _).1 _ hparsed).1 _
      ⟨[firstInput ++ 44 :: secondInput], _, by decide +kernel, hlines, .inr
        ⟨[[firstInput], [secondInput]], exampleInputs_entryText, ?_, .cons .single (.cons .single .nil)⟩⟩
      ⟨[exampleSignatures], _, by decide +kernel, hlines', .inl rfl⟩ ⟨by decide +kernel, ?_⟩
    · exact @Rfc9651.Line.cons _ [] [] _ _ (by simp) (by simp) .single
    · intro lines lines' h h'
      obtain rfl := Except.ok.inj (hlines.symm.trans h)
      obtain rfl := Except.ok.inj (hlines'.symm.trans h')
      decide +kernel
  · refine (parseSignatureHeaders_dictionaries DEFAULT_CORE_LIMITS _).2 [firstEntry]
      [(ascii "a", .item ⟨.bytes [1], []⟩), (ascii "b", .item ⟨.bytes [2], []⟩)]
      ⟨[firstInput], by decide +kernel, by decide +kernel⟩
      ⟨[exampleSignatures], by decide +kernel, by decide +kernel⟩ (.inl ⟨ascii "a", ?_⟩)
    decide +kernel

end AgentSig.Core
