import AgentSig.Profiles.Duplicates
import AgentSig.StructuredFields.Determinism

/-!
# Candidate selection

The signatures whose `tag` parameter is `web-bot-auth` are the candidates. All signatures are
parsed before any is selected, and the headers are screened for repeated names before that, so
that a signature is never hidden by the value of another.

## Main definitions

* `selectWebBotAuthCandidates`: the candidates of a header section
* `SignatureInputEntries headers es`: the Signature-Input lines carry the occurrences `es`
* `Tagged m`: a member carries the tag in some occurrence of a parameter

## Main results

* `selectWebBotAuthCandidates_tagged`: every tagged occurrence is selected
-/

namespace AgentSig.Profiles

open Commons Core StructuredFields

/-- `CandidateSelection`. -/
inductive CandidateSelection
  | unsigned (reason : UnsignedCode)
  | candidates (signatures candidates : List ParsedSignature)
  deriving DecidableEq, Repr

/-- The selected candidates. -/
def CandidateSelection.selected : CandidateSelection → List ParsedSignature
  | .unsigned _ => []
  | .candidates _ selected => selected

/-- The value of `tag` that marks a candidate. -/
def webBotAuth : BareItem := .string (ascii "web-bot-auth")

/-- The last `tag` of a signature is `web-bot-auth`. -/
def isCandidate (signature : ParsedSignature) : Bool :=
  getParameter signature.input.parameters (ascii "tag") = some webBotAuth

/-- The loop of `selectWebBotAuthCandidates`, with the candidates so far. -/
def selectLoop (maxCandidates : ℤ) : (candidates : List ParsedSignature) → List ParsedSignature →
    Except ProfileError (List ParsedSignature)
  | candidates, [] => return candidates
  | candidates, signature :: rest =>
    if isCandidate signature then do
      require (candidates.length < maxCandidates) (unverified .resourceLimit)
      selectLoop maxCandidates (candidates ++ [signature]) rest
    else selectLoop maxCandidates candidates rest

/-- The signatures of a header section, screened and parsed. -/
def screenedSignatures (L : CoreLimits) (headers : List HeaderField) :
    Except ProfileError (List ParsedSignature) :=
  classify .malformedSignature do
    assertNoSignatureDuplicates L headers
    withCore (parseSignatureHeaders L headers)

/-- `selectWebBotAuthCandidates`. -/
def selectWebBotAuthCandidates (L : CoreLimits) (maxCandidates : ℤ) (headers : List HeaderField) :
    Except ProfileError CandidateSelection := do
  require (0 ≤ maxCandidates ∧ maxCandidates ≤ maxSafeInteger)
    (.configuration .invalidResourceLimits)
  let signatures ← screenedSignatures L headers
  if signatures = [] then return .unsigned .noSignature
  else do
    let candidates ← selectLoop maxCandidates [] signatures
    if candidates = [] then return .unsigned .noWebBotAuthCandidate
    else return .candidates signatures candidates

/-! ## What the lines say -/

/-- The lines of the Signature-Input field, combined, carry the occurrences `es`: RFC 9651
reads them from the text, before a repeated name is resolved. -/
def SignatureInputEntries (headers : List HeaderField) (es : List (Text × Member)) : Prop :=
  ∃ values, fieldValues headers (ascii "signature-input") none = .ok values ∧
    Rfc9651.Parses .dictionary ([44, 32].intercalate values) (.dictionary es)

/-- The parameters of a member. -/
def memberParameters : Member → Parameters
  | .item i => i.parameters
  | .innerList l => l.parameters

/-- Some occurrence of `tag` among the parameters of the member is `web-bot-auth`. -/
def Tagged (m : Member) : Prop := (ascii "tag", webBotAuth) ∈ memberParameters m

/-! ## Selection -/

variable {L : CoreLimits} {headers : List HeaderField}

theorem selectLoop_spec {maxCandidates : ℤ} {candidates signatures selected : List ParsedSignature}
    (h : selectLoop maxCandidates candidates signatures = .ok selected) :
    selected = candidates ++ signatures.filter isCandidate := by
  induction signatures generalizing candidates with
  | nil =>
    obtain rfl := pure_eq_ok.mp h
    simp
  | cons signature rest ih =>
    unfold selectLoop at h
    split at h
    · rename_i hcandidate
      simp only [bind_eq_ok, require_eq_ok, exists_const] at h
      rw [ih h.2, List.filter_cons_of_pos hcandidate]
      simp
    · rename_i hcandidate
      rw [ih h, List.filter_cons_of_neg hcandidate]

/-- The candidates are all the signatures that carry the tag. -/
theorem selectWebBotAuthCandidates_selected {maxCandidates : ℤ} {selection : CandidateSelection}
    (h : selectWebBotAuthCandidates L maxCandidates headers = .ok selection) :
    ∃ signatures, screenedSignatures L headers = .ok signatures ∧
      selection.selected = signatures.filter isCandidate := by
  simp only [selectWebBotAuthCandidates, bind_eq_ok, require_eq_ok, exists_const] at h
  obtain ⟨-, signatures, hsignatures, h⟩ := h
  refine ⟨signatures, hsignatures, ?_⟩
  split at h
  · rename_i hnil
    obtain rfl := pure_eq_ok.mp h
    rw [hnil]
    rfl
  · simp only [bind_eq_ok] at h
    obtain ⟨candidates, hcandidates, h⟩ := h
    have hspec := selectLoop_spec hcandidates
    rw [List.nil_append] at hspec
    split at h <;> obtain rfl := pure_eq_ok.mp h
    · rename_i hnil
      rw [← hspec, hnil]
      rfl
    · exact hspec

/-- A screened field that is present is a dictionary without repeated names. -/
theorem screenSignatureHeader_spec {total total' : ℕ} {name : Text} {values : List Text}
    (h : screenSignatureHeader L headers total name = .ok total')
    (hvalues : fieldValues headers name none = .ok values) (hne : values ≠ []) :
    ∃ raw, parseRaw L.structuredFields (.text ([44, 32].intercalate values)) .dictionary =
        .ok raw ∧ Duplicates.dictionary .malformedSignature raw.root = .ok () := by
  have hvalues' : withCore (fieldValues headers name none) = .ok values := withCore_eq_ok.mpr hvalues
  simp only [screenSignatureHeader, hvalues', ok_bind, if_neg hne] at h
  simp only [bind_eq_ok, withCore_eq_ok, withSf_eq_ok, requireAscii_eq_ok, combineValues,
    pure_eq_ok] at h
  obtain ⟨_, ⟨-, -, rfl⟩, _, ⟨-, rfl⟩, -, -, raw, hraw, -, -, _, hdictionary, -⟩ := h
  exact ⟨raw, hraw, hdictionary⟩

/-- The signatures of a header section are those of the entries of its Signature-Input field. -/
theorem parseSignatureHeaders_spec {signatures : List ParsedSignature}
    (h : parseSignatureHeaders L headers = .ok signatures) :
    ∃ values, fieldValues headers (ascii "signature-input") none = .ok values ∧
      (values = [] ∧ signatures = [] ∨ ∃ d bytes,
        parse L.structuredFields (.text ([44, 32].intercalate values)) .dictionary = .ok d ∧
        (fieldEntries d).mapM (parsedSignature L bytes) = .ok signatures) := by
  simp only [parseSignatureHeaders, bind_eq_ok] at h
  obtain ⟨_, -, values, hvalues, signatureValues, -, h⟩ := h
  refine ⟨values, hvalues, ?_⟩
  split at h
  · rename_i hnil
    exact .inl ⟨hnil.1, (pure_eq_ok.mp h).symm⟩
  · simp only [bind_eq_ok, requireAscii_eq_ok, combineValues, pure_eq_ok] at h
    obtain ⟨_, -, _, ⟨_, -, rfl⟩, _, ⟨-, rfl⟩, _, -, _, -, _, -, h⟩ := h
    simp only [parseSignatureTexts, bind_eq_ok, withSfErrors_eq_ok] at h
    obtain ⟨_, -, _, -, _, -, _, -, d, hd, bytes, -, _, -, h⟩ := h
    exact .inr ⟨d, fieldEntries bytes, hd, h⟩

/-- A screened text has the same entries before and after a repeated name is resolved. -/
theorem parse_of_screened {text : Text} {raw : RawDocument} {es : List (Text × Member)}
    (hraw : parseRaw L.structuredFields (.text text) .dictionary = .ok raw)
    (hscreened : Duplicates.dictionary .malformedSignature raw.root = .ok ())
    (hwire : Rfc9651.Parses .dictionary text (.dictionary es)) :
    parse L.structuredFields (.text text) .dictionary = .ok (.dictionary es) ∧
      Field.lastWins (.dictionary es) = .dictionary es := by
  obtain ⟨hparses, hlen, -⟩ := parseRaw_sound hraw
  have hes := hparses.unique hwire (hlen.trans (L.structuredFields.safe _))
  have hlast := Duplicates.lastWins_of_dictionary hscreened hes
  refine ⟨?_, hes ▸ hlast⟩
  simp only [parse, hraw, ok_bind, semantic_eq_lastWins, hlast]
  rfl

/-- The parameters of an entry that is its own resolution have distinct names. -/
theorem nodup_of_lastWins {es : List (Text × Member)}
    (h : Field.lastWins (.dictionary es) = .dictionary es) {e : Text × Member} (he : e ∈ es) :
    ((memberParameters e.2).map (·.1)).Nodup := by
  simp only [Field.lastWins, Field.dictionary.injEq] at h
  rw [← h] at he
  obtain ⟨e', -, rfl⟩ := List.mem_map.mp he
  cases e'.2 with
  | item i => exact OrderedMap.nodup_keys_lastWins _
  | innerList l => exact OrderedMap.nodup_keys_lastWins _

/-- Every entry of a screened field is a parsed signature. -/
theorem screenedSignatures_spec {signatures : List ParsedSignature} {es : List (Text × Member)}
    (h : screenedSignatures L headers = .ok signatures) (hes : SignatureInputEntries headers es)
    {label : Text} {m : Member} (hm : (label, m) ∈ es) :
    ((memberParameters m).map (·.1)).Nodup ∧
      ∃ s ∈ signatures, s.input.label = label ∧ m = .innerList s.input.innerList := by
  obtain ⟨values, hvalues, hwire⟩ := hes
  have hne : values ≠ [] := by
    rintro rfl
    have := hwire.unique (.dictionary rfl .nil) (Nat.zero_le _)
    rw [Field.dictionary.inj this] at hm
    simp at hm
  simp only [screenedSignatures, classify_eq_ok, bind_eq_ok, withCore_eq_ok,
    assertNoSignatureDuplicates, screen, pure_eq_ok] at h
  obtain ⟨_, ⟨_, -, total, hscreen, -⟩, h⟩ := h
  obtain ⟨raw, hraw, hdictionary⟩ := screenSignatureHeader_spec hscreen hvalues hne
  obtain ⟨values', hvalues', h⟩ := parseSignatureHeaders_spec h
  obtain rfl : values = values' := Except.ok.inj (hvalues.symm.trans hvalues')
  obtain ⟨d, bytes, hd, hsignatures⟩ := h.resolve_left fun hnil => hne hnil.1
  obtain ⟨hparse, hlast⟩ := parse_of_screened hraw hdictionary hwire
  rw [hparse] at hd
  obtain rfl := Except.ok.inj hd
  obtain ⟨s, hs, hspec⟩ := exists_mem_of_mapM hsignatures hm
  have heq := parsedSignature_spec hspec
  exact ⟨nodup_of_lastWins hlast hm, s, hs, (congrArg Prod.fst heq).symm, congrArg Prod.snd heq⟩

/-- The parameters of a candidate have no `-0`. -/
theorem canonical_of_selected {maxCandidates : ℤ} {selection : CandidateSelection}
    (h : selectWebBotAuthCandidates L maxCandidates headers = .ok selection) {s : ParsedSignature}
    (hs : s ∈ selection.selected) :
    canonicalParameters s.input.parameters = s.input.parameters := by
  obtain ⟨signatures, hsignatures, hselected⟩ := selectWebBotAuthCandidates_selected h
  have hmem : s ∈ signatures := (List.mem_filter.mp (hselected ▸ hs)).1
  simp only [screenedSignatures, classify_eq_ok, bind_eq_ok, withCore_eq_ok] at hsignatures
  obtain ⟨_, -, hparse⟩ := hsignatures
  obtain ⟨values, -, ⟨-, rfl⟩ | ⟨d, bytes, hd, hmap⟩⟩ := parseSignatureHeaders_spec hparse
  · simp at hmem
  obtain ⟨e, he, hspec⟩ := exists_of_mem_mapM hmap hmem
  have hcanonical := parse_canonical hd
  cases d with
  | item | list => simp [fieldEntries] at he
  | dictionary es =>
    have hentries := (Field.dictionary.inj hcanonical).trans (List.map_id es).symm
    have hentry := List.map_inj_left.mp hentries e he
    rw [parsedSignature_spec hspec] at hentry
    exact congrArg InnerList.parameters (Member.innerList.inj (congrArg Prod.snd hentry))

/-- A field that is screened is a dictionary, or absent. -/
theorem exists_signatureInputEntries {signatures : List ParsedSignature}
    (h : screenedSignatures L headers = .ok signatures) :
    ∃ es, SignatureInputEntries headers es := by
  simp only [screenedSignatures, classify_eq_ok, bind_eq_ok, withCore_eq_ok,
    assertNoSignatureDuplicates, screen, pure_eq_ok] at h
  obtain ⟨_, ⟨_, -, total, hscreen, -⟩, h⟩ := h
  obtain ⟨values, hvalues⟩ : ∃ values,
      fieldValues headers (ascii "signature-input") none = .ok values := by
    simp only [screenSignatureHeader, bind_eq_ok, withCore_eq_ok] at hscreen
    obtain ⟨values, hvalues, -⟩ := hscreen
    exact ⟨values, hvalues⟩
  by_cases hne : values = []
  · exact ⟨[], values, hvalues, hne ▸ .dictionary rfl .nil⟩
  · obtain ⟨raw, hraw, -⟩ := screenSignatureHeader_spec hscreen hvalues hne
    obtain ⟨hparses, -⟩ := parseRaw_sound hraw
    generalize raw.root.occurrences = f at hparses
    cases hparses with
    | @dictionary _ es hascii hentries => exact ⟨es, values, hvalues, .dictionary hascii hentries⟩

/-- **Every tagged occurrence of a signature is selected.** When the selection returns, the
Signature-Input lines are a dictionary, and whatever its entries are, an entry that carries
the tag in any occurrence is the input of a candidate with its label. -/
theorem selectWebBotAuthCandidates_tagged (L : CoreLimits) (maxCandidates : ℤ)
    (headers : List HeaderField) (selection : CandidateSelection)
    (h : selectWebBotAuthCandidates L maxCandidates headers = .ok selection) :
    (∃ es, SignatureInputEntries headers es) ∧
      ∀ es, SignatureInputEntries headers es → ∀ label m, (label, m) ∈ es → Tagged m →
        ∃ c ∈ selection.selected, c.input.label = label ∧ m = .innerList c.input.innerList := by
  obtain ⟨signatures, hsignatures, hselected⟩ := selectWebBotAuthCandidates_selected h
  refine ⟨exists_signatureInputEntries hsignatures, fun es hes label m hm htag => ?_⟩
  obtain ⟨hnodup, s, hs, hlabel, rfl⟩ := screenedSignatures_spec hsignatures hes hm
  have hlookup : getParameter s.input.parameters (ascii "tag") = some webBotAuth :=
    OrderedMap.lookup_of_mem hnodup htag
  refine ⟨s, ?_, hlabel, rfl⟩
  rw [hselected]
  exact List.mem_filter.mpr ⟨hs, by simpa [isCandidate] using hlookup⟩

/-- Two signatures whose inputs are on two lines, the first of them tagged. -/
def splitHeaders : List HeaderField :=
  [⟨ascii "Signature-Input", .text (ascii "sig1=();tag=\"web-bot-auth\"")⟩,
    ⟨ascii "Signature-Input", .text (ascii "sig2=(\"@method\");tag=\"other\"")⟩,
    ⟨ascii "Signature", .text (ascii "sig2=:AAA=:, sig1=:AAAA:")⟩]

/-- The selection of `splitHeaders`. -/
def splitSelection : CandidateSelection :=
  let sig1 : ParsedSignature := ⟨⟨ascii "sig1", [], [(ascii "tag", webBotAuth)]⟩, [0, 0, 0]⟩
  let sig2 : ParsedSignature :=
    ⟨⟨ascii "sig2", [⟨ascii "@method", []⟩], [(ascii "tag", .string (ascii "other"))]⟩, [0, 0]⟩
  .candidates [sig1, sig2] [sig1]

theorem splitHeaders_selected :
    selectWebBotAuthCandidates DEFAULT_CORE_LIMITS 16 splitHeaders = .ok splitSelection := by
  decide +kernel

theorem selectWebBotAuthCandidates_tagged_splitHeaders :
    splitSelection.selected.map (·.input.label) = [ascii "sig1"] ∧
      ∃ es, SignatureInputEntries splitHeaders es :=
  ⟨by decide, (selectWebBotAuthCandidates_tagged DEFAULT_CORE_LIMITS 16 splitHeaders _
    splitHeaders_selected).1⟩

end AgentSig.Profiles
