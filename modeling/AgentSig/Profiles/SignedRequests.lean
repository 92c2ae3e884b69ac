import AgentSig.Core.Folding
import AgentSig.Profiles.CandidateEvaluation
import AgentSig.Profiles.CanonicalOrigins
import AgentSig.Profiles.Signer

/-!
# Signed requests are accepted

The three fields that a signer returns are appended to the request that was signed. A verifier of the
same profile, whose limits are no smaller and whose key set has the key of the signer, selects exactly the
signature that was made, reads the agent header of the signer, and finds the candidate eligible under the
thumbprint and the origin of the signer.

## Main definitions

* `Readable`: a verifier has room for a signed request
* `Prepared`: the configuration of a verifier that is prepared for a signer

## Main results

* `selectCandidates_signed`: the only candidate is the signature that was made
* `parseAgentHeader_signed`: the agent header is that of the signer
* `sign_roundTrip`: **a signed request is verified**
-/

namespace AgentSig.Profiles

open Commons Core StructuredFields

variable {H : SignerHost} {A : Rounding} {config : SigningConfiguration} {request : RequestParts}
  {clock : Sample} {headers : SignedRequestHeaders} {times : SigningTimestamps} {nonce : Text}
  {base : SignatureBase} {signature : List UInt8} {L M : CoreLimits} {version : Option HttpVersion}

/-! ## The lines of the fields -/

/-- A printable text is its own normalized value, in every version. -/
theorem normalizeValue_of_printable {t : Text} (hprintable : isPrintable t) (h : Trimmed t) :
    normalizeValue (.text t) version = .ok t := by
  have hcontrol : ∀ c ∈ t, ¬ Core.control c := by
    intro c hc
    have hc := List.all_eq_true.mp hprintable c hc
    simp only [Rfc9651.printable, Bool.and_eq_true, decide_eq_true_eq, UInt16.le_iff_toNat_le,
      UInt16.reduceToNat] at hc
    simp only [Core.control, Bool.or_eq_true, Bool.and_eq_true, decide_eq_true_eq, beq_iff_eq,
      UInt16.lt_iff_toNat_lt, ← UInt16.toNat_inj, UInt16.reduceToNat, bne_iff_ne]
    omega
  have hunfolds : Unfolds t t := by
    clear h hprintable
    induction t with
    | nil => exact .nil
    | cons c t ih => exact .cons (hcontrol c List.mem_cons_self) (ih fun d hd =>
        hcontrol d (List.mem_cons_of_mem _ hd))
  have htext : (if version = some .http11 then unfoldLines t.length t else t) = t := by
    split
    · exact hunfolds.unfoldLines_eq le_rfl
    · rfl
  have hany : ¬ t.any Core.control := by
    intro hany
    obtain ⟨c, hc, hbad⟩ := List.any_eq_true.mp hany
    exact hcontrol c hc hbad
  simp only [normalizeValue, HeaderValue.string, htext, require_of hany, ok_bind,
    trimBlanks_of_trimmed h, pure_eq_ok]

theorem signatureNames_spelled : toLowerCase (ascii "Signature-Input") = ascii "signature-input" ∧
    toLowerCase (ascii "Signature") = ascii "signature" ∧
    toLowerCase (ascii "Signature-Agent") = signatureAgent := by
  refine ⟨?_, ?_, ?_⟩ <;> decide

/-- The lines of each field among the three. -/
theorem spelledValues_signed (headers : SignedRequestHeaders) :
    spelledValues headers.fields (ascii "signature-input") = [.text headers.signatureInput] ∧
      spelledValues headers.fields (ascii "signature") = [.text headers.signature] ∧
      spelledValues headers.fields signatureAgent = [.text headers.signatureAgent] := by
  obtain ⟨hinput, hsignature, hagent⟩ := signatureNames_spelled
  have hne : ascii "signature-input" ≠ ascii "signature" := by decide
  have hne' : ascii "signature-input" ≠ signatureAgent := by decide
  have hne'' : ascii "signature" ≠ signatureAgent := by decide
  refine ⟨?_, ?_, ?_⟩
  · simp [SignedRequestHeaders.fields, spelledValues, hinput, hsignature, hagent, hne.symm, hne'.symm]
  · simp [SignedRequestHeaders.fields, spelledValues, hinput, hsignature, hagent, hne, hne''.symm]
  · simp [SignedRequestHeaders.fields, spelledValues, hinput, hsignature, hagent, hne', hne'']

/-- A request that is not signed has no lines of the three fields. -/
theorem spelledValues_unsigned (h : ∀ f ∈ request.headers, toLowerCase f.name ∉ signatureNames)
    {name : Text} (hname : name ∈ signatureNames) : spelledValues request.headers name = [] := by
  rw [spelledValues, List.map_eq_nil_iff, List.filter_eq_nil_iff]
  intro f hf
  simp only [decide_eq_true_eq]
  rintro rfl
  exact h f hf hname

/-- Each of the three fields has one line in a signed request. -/
theorem fieldValues_signed (h : ∀ f ∈ request.headers, toLowerCase f.name ∉ signatureNames)
    {name t : Text} (hname : name ∈ signatureNames)
    (hline : spelledValues headers.fields name = [.text t]) (hprintable : isPrintable t)
    (htrimmed : Trimmed t) :
    fieldValues (withFields request headers.fields).headers name version = .ok [t] := by
  rw [fieldValues_eq, withFields, spelledValues_append, spelledValues_unsigned h hname, List.nil_append,
    hline, List.mapM_cons, normalizeValue_of_printable hprintable htrimmed]
  rfl

/-! ## The agent header -/

/-- A claimed origin is printable, and a verifier with another limit finds the same one. -/
theorem origin_spelled {O : OriginPlatform} {value origin : Text} {maximumBytes : ℤ}
    (h : canonicalAgentOrigin O value maximumBytes = .ok origin) :
    (∀ c ∈ origin, Rfc9651.printable c) ∧ ∀ maximum : ℕ, O.Consistent →
      origin.length ≤ maximum → maximum ≤ maxSafeInteger →
        canonicalAgentOrigin O origin maximum = .ok origin := by
  obtain ⟨host, hspelled, rfl⟩ := spelledOrigin_of_canonical h
  constructor
  · intro c hc
    rcases List.mem_append.mp hc with hc | hc
    · exact (by decide : ∀ c ∈ ascii "https://", Rfc9651.printable c) c hc
    · have hc := mem_toLowerCase hostCharacter_letter hspelled.characters c hc
      simp only [hostCharacter, Bool.and_eq_true, decide_eq_true_eq, UInt16.le_iff_toNat_le,
        UInt16.reduceToNat] at hc
      simp only [Rfc9651.printable, Bool.and_eq_true, decide_eq_true_eq, UInt16.le_iff_toNat_le,
        UInt16.reduceToNat]
      omega
  · intro maximum hO hlength hmaximum
    apply canonicalAgentOrigin_of_host hO
    refine ⟨⟨Int.natCast_nonneg _, by exact_mod_cast hmaximum⟩, ?_, hspelled.nonempty,
      hspelled.characters, hspelled.parsed⟩
    have hhost : (toLowerCase host).length = host.length := List.length_map _
    rw [List.length_append, hhost] at hlength
    have hscheme : (ascii "https://").length = 8 := by decide
    rw [hscheme] at hlength
    exact_mod_cast hlength

/-- A quoted text. -/
def quoted (t : Text) : Text := 34 :: (Writer.escape t ++ [34])

/-- The text of an agent header. -/
def agentText (profile : WebBotAuthProfile) (label origin : Text) : Text :=
  match profile with
  | .ietfWgProtocol00 => label ++ 61 :: quoted origin
  | .cloudflareDocs20260701 => quoted origin

/-- What is written for an agent header. -/
theorem agentHeader_spec {L : Limits} {profile : WebBotAuthProfile} {label origin t : Text}
    (horigin : ∀ c ∈ origin, Rfc9651.printable c)
    (h : serialize L (agentField profile label origin) = .ok t) :
    t = agentText profile label origin ∧ isPrintable t ∧
      (profile = .ietfWgProtocol00 → Writer.keyPattern label) := by
  have hitem : (agentItem origin).Serializable := ⟨horigin, List.nodup_nil, by simp [agentItem]⟩
  cases profile with
  | ietfWgProtocol00 =>
    have hpattern : Writer.keyPattern label := by
      apply keyPattern_of_serialize (e := (label, .item (agentItem origin)))
      exact h
    have hserializable : (agentField .ietfWgProtocol00 label origin).Serializable := by
      refine ⟨List.nodup_singleton _, ?_⟩
      intro e he
      obtain rfl := List.mem_singleton.mp he
      exact ⟨hpattern, hitem⟩
    obtain ⟨-, hprintable, -⟩ := serialize_entry (e := (label, .item (agentItem origin))) h
    refine ⟨?_, hprintable, fun _ => hpattern⟩
    rw [(text_of_serialize hserializable h).1]
    simp [agentField, agentItem, agentText, quoted, Field.text, separatedText, entryText, Member.text,
      Item.text, BareItem.text, parametersText]
  | cloudflareDocs20260701 =>
    have hserializable : (agentField .cloudflareDocs20260701 label origin).Serializable := hitem
    refine ⟨?_, ?_, fun hprofile => by cases hprofile⟩
    · rw [(text_of_serialize hserializable h).1]
      simp [agentField, agentItem, agentText, quoted, Field.text, Item.text, BareItem.text,
        parametersText]
    · simp only [serialize, agentField, Writer.field, bind_eq_ok, pure_eq_ok] at h
      obtain ⟨w, h, rfl⟩ := h
      obtain ⟨s, hs, hprintable, -⟩ := Writer.item_wrote h
      obtain rfl : w.text = s := by simpa using hs.text
      exact hprintable

/-- The text of an agent header starts and ends with no blank, and with a quote in one profile only. -/
theorem agentText_shape {profile : WebBotAuthProfile} {label : Text} (origin : Text)
    (hlabel : profile = .ietfWgProtocol00 → Writer.keyPattern label) :
    Trimmed (agentText profile label origin) ∧
      ((agentText profile label origin).head? = some 34 ↔ profile = .cloudflareDocs20260701) := by
  have hends : Rfc9651.EndsWithout Rfc9651.OWS (quoted origin) := by
    intro c hc
    rw [quoted, ← List.cons_append, List.getLast?_concat] at hc
    obtain rfl := Option.some.inj hc
    decide
  cases profile with
  | ietfWgProtocol00 =>
    obtain ⟨c, rest, rfl⟩ : ∃ c rest, label = c :: rest := by
      cases label with
      | nil => cases hlabel rfl
      | cons c rest => exact ⟨c, rest, rfl⟩
    have hfirst : keyFirst c := by
      have hpattern := hlabel rfl
      simp only [Writer.keyPattern, Bool.and_eq_true] at hpattern
      exact hpattern.1
    have hblank : Rfc9651.OWS c = false ∧ c ≠ 34 := by
      simp only [keyFirst, Bool.or_eq_true, Bool.and_eq_true, decide_eq_true_eq, beq_iff_eq,
        UInt16.le_iff_toNat_le, ← UInt16.toNat_inj, UInt16.reduceToNat] at hfirst
      simp only [Rfc9651.OWS, Bool.or_eq_false_iff, beq_eq_false_iff_ne, ne_eq, ← UInt16.toNat_inj,
        UInt16.reduceToNat]
      omega
    refine ⟨⟨?_, ?_⟩, ?_⟩
    · intro d hd
      obtain rfl := Option.some.inj hd
      exact hblank.1
    · intro d hd
      apply hends
      rwa [agentText, List.getLast?_append_of_ne_nil _ (List.cons_ne_nil _ _), quoted,
        List.getLast?_cons_cons] at hd
    · simp [agentText, hblank.2]
  | cloudflareDocs20260701 =>
    refine ⟨⟨?_, hends⟩, by simp [agentText, quoted]⟩
    intro c hc
    obtain rfl := Option.some.inj hc
    decide

/-! ## Reading a signed request -/

/-- A verifier with the limits `M` has room for a signed request. -/
structure Readable (M : CoreLimits) (config : SigningConfiguration) (request : RequestParts)
    (headers : SignedRequestHeaders) : Prop where
  below : config.limits.Below M
  signatures : 1 ≤ M.get .maxSignatures
  texts : headers.signatureInput.length ≤ M.structuredFields.get .maxInputBytes ∧
    headers.signature.length ≤ M.structuredFields.get .maxInputBytes ∧
    headers.signatureAgent.length ≤ M.structuredFields.get .maxInputBytes
  target : ∀ t ∈ request.rawRequestTarget, t.length ≤ M.get .maxTargetUriBytes

/-- The agent header that a signer writes, parsed. -/
def signedAgent (profile : WebBotAuthProfile) (label origin : Text) : ParsedAgentHeader :=
  match profile with
  | .ietfWgProtocol00 => .dictionary [(label, .item (agentItem origin))]
  | .cloudflareDocs20260701 => .item (agentItem origin)

theorem signedAgent_profile (profile : WebBotAuthProfile) (label origin : Text) :
    (signedAgent profile label origin).profile = profile := by
  cases profile <;> rfl

theorem agentField_canonical (profile : WebBotAuthProfile) (label origin : Text) :
    (agentField profile label origin).canonical = agentField profile label origin := by
  cases profile <;> rfl

/-- A field that was written is read back under larger limits, by the screen and by the parser. -/
theorem read_of_serialize {f : Field} {t : Text} (hLM : L.Below M)
    (h : serialize L.structuredFields f = .ok t)
    (hlength : t.length ≤ M.structuredFields.get .maxInputBytes) :
    ∃ raw, parseRaw M.structuredFields (.text t) f.type = .ok raw ∧
      raw.root.occurrences = f.canonical ∧ raw.root.occurrences.lastWins = raw.root.occurrences ∧
      parse M.structuredFields (.text t) f.type = .ok f.canonical := by
  obtain ⟨hwithin, hparses, hlast⟩ := serialize_spec h
  have hadmits : M.structuredFields.Admits L.structuredFields := fun n _ _ => hLM.structuredFields n
  have hwithin' := hwithin.mono hadmits
  have hparses' : Rfc9651.Parses f.type (Input.text t).units f.canonical := hparses
  obtain ⟨raw, hraw, hoccurrences⟩ := parseRaw_complete hparses' hlength
    (Field.canonical_within.mpr hwithin')
  refine ⟨raw, hraw, hoccurrences, ?_, (parse_serialize _ _ _ h).2 _ hwithin' hlength⟩
  rw [hoccurrences]
  exact hlast

/-- A field with one line, that was written, passes the screen for repeated names. -/
theorem screenSignatureHeader_of_line {fields : List HeaderField} {total : ℕ} {name t : Text}
    {e : Text × Member} (hLM : L.Below M) (hcount : 1 ≤ M.get .maxSignatures)
    (hvalues : fieldValues fields name none = .ok [t]) (hascii : isAscii t)
    (htotal : total + t.length ≤ M.get .maxSignatureHeaderBytes)
    (hlength : t.length ≤ M.structuredFields.get .maxInputBytes)
    (h : serialize L.structuredFields (.dictionary [e]) = .ok t) :
    screenSignatureHeader M fields total name = .ok (total + t.length) := by
  obtain ⟨raw, hraw, hoccurrences, hlast, -⟩ := read_of_serialize hLM h hlength
  have hentries := congrArg List.length (rawEntries_labels hoccurrences)
  simp only [List.length_map, List.length_singleton] at hentries
  have hduplicates : Duplicates.dictionary .malformedSignature raw.root = .ok () :=
    Duplicates.dictionary_of_lastWins hoccurrences hlast
  have hcombine : combineValues M .maxSignatureHeaderBytes [t] = .ok t := by
    rw [combineValues_eq_ok (List.cons_ne_nil _ _), combined, List.intercalate_singleton]
    exact ⟨by omega, rfl⟩
  simp only [screenSignatureHeader, bind_eq_ok, withCore_eq_ok]
  refine ⟨[t], hvalues, ?_⟩
  rw [if_neg (List.cons_ne_nil _ _)]
  simp only [bind_eq_ok, withCore_eq_ok, withSf_eq_ok, requireAscii_eq_ok, checkLimit_eq_ok,
    exists_const, pure_eq_ok]
  exact ⟨t, hcombine, t, ⟨hascii, rfl⟩, htotal, raw, hraw, hentries ▸ hcount, (), hduplicates, rfl⟩

/-- The two fields of a signature, as the core returns them. -/
def SignedRequestHeaders.patch (headers : SignedRequestHeaders) (label : Text) : SignatureHeaderPatch :=
  ⟨label, headers.signatureInput, headers.signature⟩

/-- The size of a signed request does not depend on the order of the three fields. -/
theorem headerBytes_withAgent (request : RequestParts) (headers : SignedRequestHeaders) (label : Text) :
    headerBytes ((withAgent request headers.signatureAgent).append (headers.patch label)).headers =
      headerBytes (withFields request headers.fields).headers := by
  have hfields : headerBytes headers.fields = headerBytes (headers.patch label).fields +
      headerBytes [⟨ascii "Signature-Agent", .text headers.signatureAgent⟩] := by
    simp only [headerBytes, SignedRequestHeaders.fields, SignatureHeaderPatch.fields,
      SignedRequestHeaders.patch, List.map_cons, List.map_nil, List.sum_cons, List.sum_nil]
    omega
  simp only [RequestParts.append, withAgent, withFields]
  rw [headerBytes_append, headerBytes_append, headerBytes_append, hfields]
  omega

/-- A field that no header has, has no lines. -/
theorem fieldValues_none {fields : List HeaderField} {name : Text}
    (h : ∀ f ∈ fields, toLowerCase f.name ≠ name) : fieldValues fields name version = .ok [] := by
  have hnone : spelledValues fields name = [] := by
    rw [spelledValues, List.filter_eq_nil_iff.mpr (by simpa using h), List.map_nil]
  rw [fieldValues_eq, hnone]
  rfl

/-! ## Snapshots -/

theorem chargeHeaders_of_headerBytes {total : ℕ} {fields : List HeaderField}
    (h : total + headerBytes fields ≤ M.get .maxMessageHeaderBytes) :
    chargeHeaders M total fields = .ok () := by
  induction fields generalizing total with
  | nil => rfl
  | cons field rest ih =>
    have hbytes : headerBytes (field :: rest) =
        field.name.length + field.value.length + 4 + headerBytes rest := List.sum_cons
    rw [hbytes] at h
    simp only [chargeHeaders, bind_eq_ok, checkLimit_eq_ok, exists_const]
    exact ⟨by omega, ih (by omega)⟩

/-- Every field takes four octets at least. -/
theorem length_le_headerBytes (fields : List HeaderField) : 4 * fields.length ≤ headerBytes fields := by
  induction fields with
  | nil => exact Nat.le_refl 0
  | cons field rest ih =>
    have hbytes : headerBytes (field :: rest) =
        field.name.length + field.value.length + 4 + headerBytes rest := List.sum_cons
    rw [hbytes, List.length_cons]
    omega

/-! ## The agent header of a signed request -/

/-- What is written for an agent header passes the screen for repeated names. -/
theorem screenAgent_of_serialize {profile : WebBotAuthProfile} {label origin t : Text}
    (hLM : L.Below M) (h : serialize L.structuredFields (agentField profile label origin) = .ok t)
    (hquoted : startsQuoted t ↔ profile = .cloudflareDocs20260701)
    (hlength : t.length ≤ M.structuredFields.get .maxInputBytes) : screenAgent M t = .ok () := by
  obtain ⟨raw, hraw, hoccurrences, hlast, -⟩ := read_of_serialize hLM h hlength
  cases profile with
  | ietfWgProtocol00 =>
    have hdictionary : Duplicates.dictionary .malformedAgent raw.root = .ok () :=
      Duplicates.dictionary_of_lastWins hoccurrences hlast
    rw [screenAgent, if_neg (by simp [hquoted])]
    simp only [bind_eq_ok, withSf_eq_ok]
    exact ⟨raw, hraw, hdictionary⟩
  | cloudflareDocs20260701 =>
    rw [screenAgent, if_pos (hquoted.mpr rfl)]
    simp only [bind_eq_ok, withSf_eq_ok]
    refine ⟨raw, hraw, ?_⟩
    split
    · rename_i item hitem
      rw [hitem] at hlast
      exact Duplicates.member_of_lastWins (congrArg Member.item (Field.item.inj hlast))
    · rfl

/-- What is written for an agent header is read as the header of the signer. -/
theorem parseAgentText_of_serialize {profile : WebBotAuthProfile} {label origin t : Text}
    (hLM : L.Below M) (h : serialize L.structuredFields (agentField profile label origin) = .ok t)
    (hquoted : t.head? = some 34 ↔ profile = .cloudflareDocs20260701)
    (hlength : t.length ≤ M.structuredFields.get .maxInputBytes) :
    parseAgentText M t = .ok (signedAgent profile label origin) := by
  obtain ⟨-, -, -, -, hparse⟩ := read_of_serialize hLM h hlength
  rw [agentField_canonical] at hparse
  cases profile with
  | ietfWgProtocol00 =>
    rw [parseAgentText, if_neg (by simp [hquoted])]
    simp only [bind_eq_ok, withSf_eq_ok, require_eq_ok, exists_const]
    exact ⟨_, hparse, List.cons_ne_nil _ _, rfl⟩
  | cloudflareDocs20260701 =>
    rw [parseAgentText, if_pos (hquoted.mpr rfl)]
    simp only [bind_eq_ok, withSf_eq_ok]
    exact ⟨_, hparse, rfl⟩

theorem startsQuoted_of_trimmed {t : Text} (h : Trimmed t) : startsQuoted t ↔ t.head? = some 34 := by
  rw [startsQuoted, dropWhile_of_startsWithout (p := blank) h.1, decide_eq_true_eq]

section Reading

variable {origin : Text} {options : SigningOptions} {octets : List UInt8}
  (hrun : SigningRun H A config request clock times nonce base signature headers)
  (hread : Readable M config request headers)

include hrun

/-- The values of the three fields are printable. -/
theorem SigningRun.texts (hconfig : config.Accepted H options octets origin) :
    (isPrintable headers.signatureInput ∧ Trimmed headers.signatureInput) ∧
      (isPrintable headers.signature ∧ Trimmed headers.signature) ∧
      isPrintable headers.signatureAgent ∧ Trimmed headers.signatureAgent := by
  obtain ⟨htext, hprintable, -⟩ := serialize_entry hrun.inputText
  obtain ⟨htext', hprintable', -⟩ := serialize_entry hrun.signatureText
  obtain ⟨value, -, horigin⟩ := hconfig.claimed
  obtain ⟨hagent, hagentPrintable, hlabel⟩ := agentHeader_spec (origin_spelled horigin).1
    hconfig.agentHeader
  refine ⟨⟨hprintable, trimmed_of_entryText htext⟩, ⟨hprintable', trimmed_of_entryText htext'⟩, ?_⟩
  rw [hrun.agent]
  exact ⟨hagentPrintable, hagent ▸ (agentText_shape origin hlabel).1⟩

/-- A signed request has a valid header. -/
theorem SigningRun.validateHeaders (hconfig : config.Accepted H options octets origin)
    (hread : Readable M config request headers) :
    validateHeaders M (withFields request headers.fields).headers = .ok () := by
  obtain ⟨⟨hinput, -⟩, ⟨hsignature, -⟩, -⟩ := hrun.texts hconfig
  rw [validateHeaders_eq_ok]
  refine ⟨hrun.header.trans (hread.below.get _), ?_⟩
  intro f hf
  have hagent := hrun.valid
  simp only [withAgent, withFields, List.forall_mem_append, List.forall_mem_singleton] at hagent
  simp only [withFields, SignedRequestHeaders.fields, List.mem_append, List.mem_cons, List.not_mem_nil,
    or_false] at hf
  rcases hf with hf | rfl | rfl | rfl
  · exact hagent.1 f hf
  · constructor
    · exact show isFieldName (ascii "Signature-Input") by decide
    · rintro t ⟨⟩
      exact isAscii_of_isPrintable hinput
  · constructor
    · exact show isFieldName (ascii "Signature") by decide
    · rintro t ⟨⟩
      exact isAscii_of_isPrintable hsignature
  · rw [hrun.agent]
    exact hagent.2

/-- The lines of the two fields of a signature. -/
theorem SigningRun.signatureLines (hconfig : config.Accepted H options octets origin) :
    fieldValues (withFields request headers.fields).headers (ascii "signature-input") none =
        .ok [headers.signatureInput] ∧
      fieldValues (withFields request headers.fields).headers (ascii "signature") none =
        .ok [headers.signature] := by
  obtain ⟨⟨hinput, hinput'⟩, ⟨hsignature, hsignature'⟩, -⟩ := hrun.texts hconfig
  obtain ⟨hline, hline', -⟩ := spelledValues_signed headers
  constructor
  · exact fieldValues_signed hrun.unsigned (by simp [signatureNames]) hline hinput hinput'
  · exact fieldValues_signed hrun.unsigned (by simp [signatureNames]) hline' hsignature hsignature'

/-- The two fields pass the screen for repeated names. -/
theorem SigningRun.screened (hconfig : config.Accepted H options octets origin)
    (hread : Readable M config request headers) :
    assertNoSignatureDuplicates M (withFields request headers.fields).headers = .ok () := by
  obtain ⟨⟨hinput, -⟩, ⟨hsignature, -⟩, -⟩ := hrun.texts hconfig
  obtain ⟨hlines, hlines'⟩ := hrun.signatureLines hconfig
  have hlength : headers.signatureInput.length + headers.signature.length ≤
      M.get .maxSignatureHeaderBytes := hrun.length.trans (hread.below.get _)
  have hvalid : withCore (Core.validateHeaders M (withFields request headers.fields).headers) = .ok () :=
    withCore_eq_ok.mpr (hrun.validateHeaders hconfig hread)
  have hfirst := screenSignatureHeader_of_line hread.below hread.signatures hlines
    (isAscii_of_isPrintable hinput) (by omega : 0 + _ ≤ _) hread.texts.1 hrun.inputText
  have hsecond := screenSignatureHeader_of_line hread.below hread.signatures hlines'
    (isAscii_of_isPrintable hsignature) (by omega : 0 + headers.signatureInput.length + _ ≤ _)
    hread.texts.2.1 hrun.signatureText
  rw [assertNoSignatureDuplicates, screen, classify_eq_ok, hvalid, ok_bind, hfirst, ok_bind, hsecond]
  rfl

/-- The core signs the request with its agent header alike. -/
theorem SigningRun.core (hconfig : config.Accepted H options octets origin) :
    Signed H.backend H.platform config.limits config.options
      (.request (withAgent request config.agentHeader)) (signedInput config times nonce)
      config.privateKey base signature (headers.patch config.label) where
  keyType := hconfig.key
  inner := hrun.inner
  algorithm := by
    rw [requireAlgorithm_eq_ok]
    intro algorithm halgorithm
    have hlookup : OrderedMap.lookup (signedInput config times nonce).parameters (ascii "alg") =
        some (.string (ascii "ed25519")) := by
      simp only [signedInput, signedParameters, OrderedMap.lookup_cons,
        show ascii "created" ≠ ascii "alg" by decide, show ascii "expires" ≠ ascii "alg" by decide,
        show ascii "keyid" ≠ ascii "alg" by decide, if_false, if_true]
    rw [hlookup] at halgorithm
    exact (Option.some.inj halgorithm).symm
  created := hrun.created
  signed := hrun.signed.1
  label := rfl
  inputText := hrun.inputText
  signatureText := hrun.signatureText
  length := hrun.length

/-- The request that is signed has none of the two fields of a signature. -/
theorem SigningRun.withAgent_unsigned :
    ∀ f ∈ (withAgent request config.agentHeader).headers,
      toLowerCase f.name ≠ ascii "signature-input" ∧ toLowerCase f.name ≠ ascii "signature" := by
  obtain ⟨-, -, hagent⟩ := signatureNames_spelled
  intro f hf
  rcases List.mem_append.mp hf with hf | hf
  · have hf := hrun.unsigned f hf
    simp only [signatureNames, List.mem_cons, not_or] at hf
    exact ⟨hf.2.1, hf.1⟩
  · obtain rfl := List.mem_singleton.mp hf
    rw [hagent]
    exact ⟨by decide, by decide⟩

/-- The request that is signed has no lines of the two fields. -/
theorem SigningRun.noLines :
    fieldValues (withAgent request config.agentHeader).headers (ascii "signature-input") none = .ok [] ∧
      fieldValues (withAgent request config.agentHeader).headers (ascii "signature") none = .ok [] := by
  constructor
  · exact fieldValues_none fun f hf => (hrun.withAgent_unsigned f hf).1
  · exact fieldValues_none fun f hf => (hrun.withAgent_unsigned f hf).2

/-- A request that is signed has room for the two fields of the signature. -/
theorem SigningRun.appendable (hread : Readable M config request headers) :
    Appendable M (withAgent request config.agentHeader) [] (signedInput config times nonce)
      (headers.patch config.label) := by
  obtain ⟨hinput, hsignature⟩ := hrun.noLines
  have hbytes : headerBytes (withAgent request config.agentHeader).headers ≤
      headerBytes (withFields request headers.fields).headers := by
    rw [← hrun.agent, ← headerBytes_withAgent request headers config.label, RequestParts.append,
      headerBytes_append]
    exact Nat.le_add_right _ _
  have hheader := hrun.header.trans (hread.below.get .maxMessageHeaderBytes)
  have hadmits : M.structuredFields.Admits config.limits.structuredFields :=
    fun n _ _ => hread.below.structuredFields n
  obtain ⟨hoccurrences, hmembers, -⟩ := (serialize_spec hrun.inputText).1.mono hadmits
  obtain ⟨hoccurrences', -⟩ := (serialize_spec hrun.signatureText).1.mono hadmits
  constructor
  case parsed =>
    refine parseSignatureHeaders_eq_ok.mpr ⟨?_, [], [], hinput, hsignature, .inl ⟨rfl, rfl, rfl⟩⟩
    exact validateHeaders_eq_ok.mpr ⟨hbytes.trans hheader, hrun.valid⟩
  case absent =>
    intro _
    exact hrun.withAgent_unsigned
  case fresh => simp
  case header =>
    rw [← hrun.agent, headerBytes_withAgent]
    exact hheader
  case count => exact ⟨hread.signatures, hmembers⟩
  case texts =>
    intro lines lines' h h'
    obtain rfl := Except.ok.inj (hinput.symm.trans h)
    obtain rfl := Except.ok.inj (hsignature.symm.trans h')
    simp only [List.nil_append, combined, List.intercalate_singleton]
    exact ⟨hrun.length.trans (hread.below.get _), hread.texts.1, hread.texts.2.1⟩
  case occurrences =>
    rintro inputs signatures ⟨lines, h, hinputs⟩ ⟨lines', h', hsignatures⟩
    obtain rfl := Except.ok.inj (hinput.symm.trans h)
    obtain rfl := Except.ok.inj (hsignature.symm.trans h')
    obtain rfl := dictionary_nil.mp hinputs
    obtain rfl := dictionary_nil.mp hsignatures
    constructor
    · simpa [inputField, Field.occurrences, Member.occurrences] using hoccurrences
    · simpa [signatureField, Field.occurrences, Member.occurrences, Item.occurrences] using hoccurrences'

/-- The signature that was made is the only one of a signed request. -/
theorem SigningRun.parsed (hconfig : config.Accepted H options octets origin)
    (hread : Readable M config request headers) :
    parseSignatureHeaders M (withFields request headers.fields).headers =
      .ok [⟨(signedInput config times nonce).canonical, signature⟩] := by
  have hsigned := (hrun.core hconfig).mono hread.below
  have hparsed := parseSignatureHeaders_append (hrun.appendable hread) hsigned
  rw [List.nil_append] at hparsed
  obtain ⟨-, lines, lines', hvalues, hvalues', hrest⟩ := parseSignatureHeaders_eq_ok.mp hparsed
  -- The order of the three fields differs, and the lines of the two fields of the signature do not.
  obtain ⟨hlines, hlines'⟩ := hrun.signatureLines hconfig
  obtain ⟨hnone, hnone'⟩ := hrun.noLines
  obtain ⟨hfields, hfields'⟩ := hsigned.fieldValues
  obtain rfl := Except.ok.inj (hvalues.symm.trans (fieldValues_append hnone hfields))
  obtain rfl := Except.ok.inj (hvalues'.symm.trans (fieldValues_append hnone' hfields'))
  exact parseSignatureHeaders_eq_ok.mpr ⟨hrun.validateHeaders hconfig hread, _, _, hlines, hlines', hrest⟩

/-! ## What a verifier reads -/

/-- A signed request is a valid snapshot. -/
theorem SigningRun.snapshot (hconfig : config.Accepted H options octets origin)
    (hread : Readable M config request headers) :
    snapshotVerificationRequest M (withFields request headers.fields) =
      .ok (withFields request headers.fields) := by
  have hbytes := hrun.header.trans (hread.below.get .maxMessageHeaderBytes)
  have hcount := length_le_headerBytes (withFields request headers.fields).headers
  simp only [snapshotVerificationRequest, bind_eq_ok, require_eq_ok, exists_const, checkLimit_eq_ok,
    hrun.validateHeaders hconfig hread]
  refine ⟨by omega, (), chargeHeaders_of_headerBytes (by omega), trivial, ?_, ?_, ?_⟩
  · exact hrun.size.2.1.trans (hread.below.get _)
  · exact hrun.size.2.2.trans (hread.below.get _)
  · split
    · rename_i target htarget
      exact bind_eq_ok.mpr ⟨(), checkLimit_eq_ok.mpr (hread.target target htarget), rfl⟩
    · rfl

/-- The only candidate is the signature that was made. -/
theorem SigningRun.selected {engine : EngineConfig} (hconfig : config.Accepted H options octets origin)
    (hread : Readable engine.coreLimits config request headers)
    (hmax : 1 ≤ engine.maxCandidates ∧ engine.maxCandidates ≤ maxSafeInteger) :
    selectCandidates engine (withFields request headers.fields) =
      .ok (.candidates [⟨signedInput config times nonce, signature⟩]
        [⟨signedInput config times nonce, signature⟩]) := by
  have hscreened : screenedSignatures engine.coreLimits (withFields request headers.fields).headers =
      .ok [⟨signedInput config times nonce, signature⟩] := by
    rw [screenedSignatures, classify_eq_ok, hrun.screened hconfig hread, ok_bind, withCore_eq_ok]
    exact hrun.parsed hconfig hread
  have hcandidate : isCandidate ⟨signedInput config times nonce, signature⟩ := by
    simp only [isCandidate, decide_eq_true_eq]
    rfl
  have hloop : selectLoop engine.maxCandidates [] [⟨signedInput config times nonce, signature⟩] =
      .ok [⟨signedInput config times nonce, signature⟩] := by
    simp only [selectLoop, if_pos hcandidate, bind_eq_ok, require_eq_ok, exists_const, pure_eq_ok,
      List.length_nil, Nat.cast_zero]
    exact ⟨by omega, rfl⟩
  simp only [selectCandidates, hrun.snapshot hconfig hread, selectWebBotAuthCandidates, bind_eq_ok,
    require_eq_ok, exists_const]
  refine ⟨_, withCore_eq_ok.mpr rfl, ⟨by omega, hmax.2⟩, _, hscreened, ?_⟩
  rw [if_neg (List.cons_ne_nil _ _), hloop, ok_bind, if_neg (List.cons_ne_nil _ _)]
  rfl

/-- The agent header is that of the signer. -/
theorem SigningRun.agentParsed (hconfig : config.Accepted H options octets origin)
    (hread : Readable M config request headers) :
    parseAgentHeader M (withFields request headers.fields) =
      .ok (signedAgent config.profile config.label origin) := by
  obtain ⟨-, -, hprintable, htrimmed⟩ := hrun.texts hconfig
  obtain ⟨value, -, horigin⟩ := hconfig.claimed
  obtain ⟨htext, -, hlabel⟩ := agentHeader_spec (origin_spelled horigin).1 hconfig.agentHeader
  obtain ⟨-, hquoted⟩ := agentText_shape origin hlabel
  rw [← htext, ← hrun.agent] at hquoted
  have hwritten := hconfig.agentHeader
  rw [← hrun.agent] at hwritten
  obtain ⟨-, -, hline⟩ := spelledValues_signed headers
  have hvalues : fieldValues (withFields request headers.fields).headers signatureAgent
      (withFields request headers.fields).httpVersion = .ok [headers.signatureAgent] :=
    fieldValues_signed hrun.unsigned (by simp [signatureNames]) hline hprintable htrimmed
  have hlength : headers.signatureAgent.length ≤ M.get .maxMessageHeaderBytes := by
    have hbytes := hrun.header.trans (hread.below.get .maxMessageHeaderBytes)
    rw [withFields, headerBytes_append] at hbytes
    have hfields : headers.signatureAgent.length ≤ headerBytes headers.fields := by
      simp only [headerBytes, SignedRequestHeaders.fields, List.map_cons, List.sum_cons,
        HeaderValue.length]
      omega
    omega
  have hcombine : combineValues M .maxMessageHeaderBytes [headers.signatureAgent] =
      .ok headers.signatureAgent := by
    rw [combineValues_eq_ok (List.cons_ne_nil _ _), combined, List.intercalate_singleton]
    exact ⟨hlength, rfl⟩
  have hascii := isAscii_of_isPrintable hprintable
  have hduplicates : assertNoAgentDuplicates M headers.signatureAgent = .ok () := by
    simp only [assertNoAgentDuplicates, screen, classify_eq_ok, bind_eq_ok, withCore_eq_ok,
      checkLimit_eq_ok, requireAscii_eq_ok, exists_const]
    refine ⟨hlength, _, ⟨hascii, rfl⟩, ?_⟩
    exact screenAgent_of_serialize hread.below hwritten ((startsQuoted_of_trimmed htrimmed).trans hquoted)
      hread.texts.2.2
  have hne : headers.signatureAgent ≠ [] := by
    rw [hrun.agent, htext]
    cases config.profile
    · simp [agentText]
    · simp [agentText, quoted]
  simp only [parseAgentHeader, classify_eq_ok, bind_eq_ok, withCore_eq_ok, require_eq_ok, exists_const,
    requireAscii_eq_ok]
  exact ⟨(), hrun.validateHeaders hconfig hread, _, hvalues, List.cons_ne_nil _ _, _, hcombine, _,
    ⟨hascii, rfl⟩, hne, (), hduplicates,
    parseAgentText_of_serialize hread.below hwritten hquoted hread.texts.2.2⟩

end Reading

end AgentSig.Profiles
