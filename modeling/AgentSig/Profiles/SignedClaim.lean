import AgentSig.Core.Injectivity
import AgentSig.Profiles.Candidates
import AgentSig.Profiles.Coverage
import AgentSig.Profiles.Metadata

/-!
# The evaluated claim is signed

Evaluation reads the agent header a second time, after it was canonicalized into the signature
base. The required components make the two readings agree: the base has the method, the target
URI and the agent header, or the member of it that the label selects. The label itself is in no
line of the base, so where a base covers the members of several labels, relabelling a signature
selects another signed claim.

## Main definitions

* `EvaluationConfig`: the configuration that evaluation reads
* `evaluateClaim`: the steps of evaluation up to the metadata
* `Evaluated`: a candidate of a request, its evaluation and its signature base

## Main results

* `evaluation_of_equal_bases`: **equal bases have equal claims, up to the label**
* `relabelled_claim`: a label that selects another claim of the same base
-/

namespace AgentSig.Profiles

open Commons Core StructuredFields

/-- The part of `VerificationConfiguration` that the evaluation of a claim reads. -/
structure EvaluationConfig where
  core : CoreLimits
  fieldTypes : List (Text × Option FieldType)
  maxCandidates : ℤ
  maxAgentUrlBytes : ℤ
  maxNonceBytes : ℤ
  noncePolicy : WebBotAuthProfile → NoncePolicy

/-- The field type of the agent header in a profile. -/
def agentFieldType : WebBotAuthProfile → FieldType
  | .ietfWgProtocol00 => .dictionary
  | .cloudflareDocs20260701 => .item

/-- The options under which a candidate of a profile is verified. -/
def evaluationOptions (config : EvaluationConfig) (profile : WebBotAuthProfile) :
    CanonicalizationOptions :=
  ⟨OrderedMap.set config.fieldTypes signatureAgent (some (agentFieldType profile))⟩

/-- The steps of `evaluateCandidate` up to the metadata, for the agent header of the request. -/
def evaluateClaim (O : OriginPlatform) (config : EvaluationConfig) (request : RequestParts)
    (signature : ParsedSignature) : Except ProfileError (AgentClaim × CandidateMetadata) := do
  let agent ← parseAgentHeader config.core request
  assertSupportedComponents signature.input agent.profile
  let claim ← resolveAgentClaim O agent signature.input.label config.maxAgentUrlBytes
  assertRequiredCoverage signature.input agent.profile
  let metadata ← readCandidateMetadata signature.input.parameters (config.noncePolicy agent.profile)
    config.maxNonceBytes
  return (claim, metadata)

/-- A candidate of a request whose claim and metadata are evaluated, and its base. -/
structure Evaluated (P : Platform) (O : OriginPlatform) (config : EvaluationConfig)
    (request : RequestParts) (signature : ParsedSignature) (claim : AgentClaim)
    (metadata : CandidateMetadata) (base : SignatureBase) : Prop where
  selected : ∃ selection, selectWebBotAuthCandidates config.core config.maxCandidates
    request.headers = .ok selection ∧ signature ∈ selection.selected
  evaluated : evaluateClaim O config request signature = .ok (claim, metadata)
  signed : createSignatureBase P config.core (evaluationOptions config claim.profile)
    (.request request) signature.input = .ok base

variable {P : Platform} {O : OriginPlatform} {config : EvaluationConfig} {request : RequestParts}
  {signature : ParsedSignature} {claim : AgentClaim} {metadata : CandidateMetadata}
  {L : CoreLimits} {options : CanonicalizationOptions} {value : Text}

/-! ## Signed values -/

theorem resolveComponent_of_value {component : CoveredComponent}
    (h : componentValue P L options (.request request) component = .ok value) :
    ∃ flags, componentFlags component = .ok flags ∧ flags.req = false ∧
      resolveComponent P L options (.request request) component flags = .ok value := by
  simp only [componentValue, bind_eq_ok, require_eq_ok, exists_const, requireAscii_eq_ok,
    pure_eq_ok] at h
  obtain ⟨flags, hflags, hreq, -, value', hvalue, _, ⟨-, rfl⟩, -, rfl⟩ := h
  exact ⟨flags, hflags, by simpa [HttpMessage.isRequest] using hreq, hvalue⟩

/-- The value of the method is the method. -/
theorem value_method
    (h : componentValue P L options (.request request) ⟨ascii "@method", []⟩ = .ok value) :
    value = request.method := by
  obtain ⟨flags, -, -, h⟩ := resolveComponent_of_value h
  simp only [resolveComponent, if_pos (show isDerived (ascii "@method") by decide),
    derivedComponent, if_neg (show ascii "@method" ≠ ascii "@status" by decide), bind_eq_ok,
    HttpMessage.request?, requestComponent, if_true, pure_eq_ok] at h
  obtain ⟨_, -, _, -, _, -, h⟩ := h
  exact h.symm

theorem targetParts_original {target : Text} {parts : TargetParts}
    (h : targetParts P L target = .ok parts) : parts.original = target := by
  simp only [targetParts, bind_eq_ok] at h
  obtain ⟨_, -, _, -, h⟩ := h
  split at h
  · simp at h
  · simp only [bind_eq_ok] at h
    obtain ⟨_, -, _, -, h⟩ := h
    split at h
    · simp at h
    · simp only [bind_eq_ok, pure_eq_ok] at h
      obtain ⟨_, -, rfl⟩ := h
      rfl

/-- The value of the target URI is the target URI. -/
theorem value_targetUri
    (h : componentValue P L options (.request request) ⟨ascii "@target-uri", []⟩ = .ok value) :
    value = request.targetUri := by
  obtain ⟨flags, -, -, h⟩ := resolveComponent_of_value h
  simp only [resolveComponent, if_pos (show isDerived (ascii "@target-uri") by decide),
    derivedComponent, if_neg (show ascii "@target-uri" ≠ ascii "@status" by decide), bind_eq_ok,
    HttpMessage.request?, requestComponent,
    if_neg (show ascii "@target-uri" ≠ ascii "@method" by decide),
    if_neg (show ascii "@target-uri" ≠ ascii "@request-target" by decide), if_true, pure_eq_ok] at h
  obtain ⟨_, -, parts, hparts, rfl⟩ := h
  exact targetParts_original hparts

/-- A field of a request has the value of its combined lines. -/
theorem headerComponent_of_value {component : CoveredComponent}
    (hname : component.name = signatureAgent) {flags : ComponentFlags} (hbs : flags.bs = false)
    (h : resolveComponent P L options (.request request) component flags = .ok value) :
    ∃ text, IsAgentText request text ∧
      if flags.sf = false ∧ flags.key = none then value = text
      else structuredComponent L options signatureAgent flags.key text = .ok value := by
  have hderived : isDerived component.name = false := by
    rw [hname]
    decide
  have hfield : fieldComponent L options (.request request) component flags =
      headerComponent L options request.headers request.httpVersion component flags := by
    unfold fieldComponent
    split
    · rename_i request' _ hrequest
      cases hrequest
      rfl
    · rfl
  rw [resolveComponent, hderived, if_neg Bool.false_ne_true, hfield] at h
  simp only [headerComponent, hname, bind_eq_ok] at h
  obtain ⟨values, hvalues, _, -, h⟩ := h
  rw [hbs, if_neg Bool.false_ne_true] at h
  simp only [bind_eq_ok, combineValues, requireAscii_eq_ok, pure_eq_ok] at h
  obtain ⟨_, ⟨_, -, rfl⟩, _, ⟨-, rfl⟩, h⟩ := h
  refine ⟨_, ⟨values, hvalues, rfl⟩, ?_⟩
  by_cases hplain : flags.sf = false ∧ flags.key = none
  · rw [if_pos hplain]
    rw [if_pos (by simp [hplain])] at h
    exact (pure_eq_ok.mp h).symm
  · rw [if_neg hplain]
    rw [if_neg (by simpa using fun hsf => fun hkey => hplain ⟨hsf, hkey⟩)] at h
    exact h

/-- The combined text of the agent header is unique. -/
theorem IsAgentText.unique {text text' : Text} (h : IsAgentText request text)
    (h' : IsAgentText request text') : text = text' := by
  obtain ⟨values, hvalues, rfl⟩ := h
  obtain ⟨values', hvalues', rfl⟩ := h'
  rw [hvalues] at hvalues'
  rw [Except.ok.inj hvalues']

/-- The value of the agent header is its combined text. -/
theorem value_agent {text : Text} (htext : IsAgentText request text)
    (h : componentValue P L options (.request request) ⟨signatureAgent, []⟩ = .ok value) :
    value = text := by
  obtain ⟨flags, hflags, -, h⟩ := resolveComponent_of_value h
  obtain rfl : ComponentFlags.none = flags := Except.ok.inj hflags
  obtain ⟨text', htext', hvalue⟩ := headerComponent_of_value rfl rfl h
  rw [if_pos ⟨rfl, rfl⟩] at hvalue
  rw [hvalue, htext'.unique htext]

/-- The value that a key selects is a member, serialized. -/
theorem structuredComponent_key {name key combined : Text} {entries : List (Text × Member)}
    (htype : fieldType name options = .ok (some .dictionary))
    (h : structuredComponent L options name (some key) combined = .ok value)
    (hentries : parse L.structuredFields (.text combined) .dictionary = .ok (.dictionary entries)) :
    ∃ m, getMember entries key = some m ∧ serializeMember L.structuredFields m = .ok value := by
  simp only [structuredComponent, htype, ok_bind, bind_eq_ok, withSfErrors_eq_ok, hentries,
    Except.ok.injEq, exists_eq_left', selectKey] at h
  obtain ⟨_, -, m, hm, hvalue⟩ := h
  split at hm
  · rename_i selected hselected
    obtain rfl := pure_eq_ok.mp hm
    exact ⟨selected, hselected, hvalue⟩
  · simp at hm

/-- The value of a member of the agent header is the member, serialized. -/
theorem value_agentMember {text label : Text} {component : CoveredComponent}
    (htext : IsAgentText request text) (hmatch : matchingAgentMember component label)
    (htype : OrderedMap.lookup options.structuredFieldTypes signatureAgent =
      some (some .dictionary))
    (h : componentValue P L options (.request request) component = .ok value)
    {field : List (Text × Member)}
    (hfield : parse L.structuredFields (.text text) .dictionary = .ok (.dictionary field)) :
    ∃ m, getMember field label = some m ∧ serializeMember L.structuredFields m = .ok value := by
  obtain ⟨flags, hflags, -, h⟩ := resolveComponent_of_value h
  obtain ⟨hkey, -, hbs⟩ := componentFlags_of_matching hmatch hflags
  have hname : component.name = signatureAgent := by
    simp only [matchingAgentMember, Bool.and_eq_true, decide_eq_true_eq] at hmatch
    exact hmatch.1
  obtain ⟨text', htext', hvalue⟩ := headerComponent_of_value hname hbs h
  rw [if_neg (by simp [hkey]), htext'.unique htext, hkey] at hvalue
  exact structuredComponent_key (by rw [fieldType, htype]; rfl) hvalue hfield

/-! ## Equal bases -/

/-- The options of an evaluation select the field type of its profile. -/
theorem lookup_evaluationOptions (profile : WebBotAuthProfile) :
    OrderedMap.lookup (evaluationOptions config profile).structuredFieldTypes signatureAgent =
      some (some (agentFieldType profile)) := by
  rw [evaluationOptions, OrderedMap.lookup_set, if_pos rfl]

/-- The header, the claim and the metadata of an evaluation. -/
theorem evaluateClaim_spec (h : evaluateClaim O config request signature = .ok (claim, metadata)) :
    ∃ header, parseAgentHeader config.core request = .ok header ∧
      assertSupportedComponents signature.input header.profile = .ok () ∧
      assertRequiredCoverage signature.input header.profile = .ok () ∧
      resolveAgentClaim O header signature.input.label config.maxAgentUrlBytes = .ok claim ∧
      readCandidateMetadata signature.input.parameters (config.noncePolicy header.profile)
        config.maxNonceBytes = .ok metadata := by
  simp only [evaluateClaim, bind_eq_ok, pure_eq_ok, Prod.mk.injEq] at h
  obtain ⟨header, hheader, ⟨⟩, hsupported, claim', hclaim, ⟨⟩, hcoverage, metadata', hmetadata, rfl,
    rfl⟩ := h
  exact ⟨header, hheader, hsupported, hcoverage, hclaim, hmetadata⟩

theorem resolveAgentClaim_spec {header : ParsedAgentHeader} {label : Text} {maximum : ℤ}
    (h : resolveAgentClaim O header label maximum = .ok claim) :
    claim.profile = header.profile ∧ claim.label = label ∧ ∃ selected,
      selectAgent header label = .ok selected ∧ selected.bare = .string claim.claimedUrl ∧
      canonicalAgentOrigin O claim.claimedUrl maximum = .ok claim.canonicalOrigin := by
  simp only [resolveAgentClaim, bind_eq_ok] at h
  obtain ⟨selected, hselected, h⟩ := h
  split at h
  · rename_i url hurl
    simp only [bind_eq_ok, pure_eq_ok] at h
    obtain ⟨origin, horigin, rfl⟩ := h
    exact ⟨rfl, rfl, selected, hselected, hurl, horigin⟩
  · simp at h

variable {request' : RequestParts} {signature' : ParsedSignature} {claim' : AgentClaim}
  {metadata' : CandidateMetadata} {base base' : SignatureBase} {options' : CanonicalizationOptions}

theorem value_eq_of_mem {cs : List CoveredComponent}
    (h : ∀ c ∈ cs, ∃ value, componentValue P L options (.request request) c = .ok value ∧
      componentValue P L options' (.request request') c = .ok value)
    {f : RequestParts → Text} {c : CoveredComponent} (hc : c ∈ cs)
    (hf : ∀ {options request value}, componentValue P L options (.request request) c = .ok value →
      value = f request) : f request = f request' := by
  obtain ⟨value, hvalue, hvalue'⟩ := h c hc
  exact (hf hvalue).symm.trans (hf hvalue')

/-- Equal bases have one profile. -/
theorem profile_of_components {header header' : ParsedAgentHeader} {input input' : SignatureInput}
    (hcomponents : input.components = input'.components)
    (hsupported : assertSupportedComponents input header.profile = .ok ())
    (hcoverage' : assertRequiredCoverage input' header'.profile = .ok ())
    (hprofile : header.profile = .cloudflareDocs20260701) :
    header'.profile = .cloudflareDocs20260701 := by
  obtain ⟨-, -, c, hc, hagent⟩ := assertRequiredCoverage_spec hcoverage'
  cases hprofile' : header'.profile with
  | cloudflareDocs20260701 => rfl
  | ietfWgProtocol00 =>
    rw [hprofile] at hsupported
    rw [hprofile'] at hagent
    have hother : matchingAgentMember c input'.label = false :=
      not_matching_of_supported hsupported (hcomponents ▸ hc)
    exact absurd hagent (by simp [coversAgent, hother])

/-- Two values of the agent header that agree are read from one text. -/
theorem agentText_eq {text text' : Text} (htext : IsAgentText request text)
    (htext' : IsAgentText request' text')
    (h : componentValue P L options (.request request) ⟨signatureAgent, []⟩ = .ok value)
    (h' : componentValue P L options' (.request request') ⟨signatureAgent, []⟩ = .ok value) :
    text = text' :=
  (value_agent htext h).symm.trans (value_agent htext' h')

theorem canonical_of_getMember {text key : Text} {field : List (Text × Member)} {m : Member}
    (h : parse L.structuredFields (.text text) .dictionary = .ok (.dictionary field))
    (hm : getMember field key = some m) : m.canonical = m := by
  have hentries := (Field.dictionary.inj (parse_canonical h)).trans (List.map_id field).symm
  exact congrArg Prod.snd (List.map_inj_left.mp hentries _ (OrderedMap.mem_of_lookup hm))

/-- Members with one serialization are equal. -/
theorem member_eq {m m' : Member} {t : Text} (h : serializeMember L.structuredFields m = .ok t)
    (h' : serializeMember L.structuredFields m' = .ok t) (hm : m.canonical = m)
    (hm' : m'.canonical = m') : m = m' := by
  obtain ⟨heq, -⟩ := serializeMember_append_inj h h' (memberFollows_of_ended .nil _)
    (memberFollows_of_ended .nil _) (show t ++ [] = t ++ [] from rfl)
  rwa [hm, hm'] at heq

/-- The claim of a dictionary header depends on the member of its label alone. -/
theorem resolveAgentClaim_congr {field field' : List (Text × Member)} {label : Text}
    (h : getMember field label = getMember field' label) (maximum : ℤ) :
    resolveAgentClaim O (.dictionary field) label maximum =
      resolveAgentClaim O (.dictionary field') label maximum := by
  simp only [resolveAgentClaim, selectAgent, h, ParsedAgentHeader.profile]

theorem ParsedAgentHeader.profile_eq_cloudflare {header : ParsedAgentHeader} :
    header.profile = .cloudflareDocs20260701 ↔ ∃ field, header = .item field := by
  cases header <;> simp [profile]

/-- The label of an evaluation resolves to the same claim in a request with an equal base. -/
theorem resolve_of_equal_bases
    (h : Evaluated P O config request signature claim metadata base)
    (h' : Evaluated P O config request' signature' claim' metadata' base')
    (heq : base.text = base'.text) :
    ∃ header', parseAgentHeader config.core request' = .ok header' ∧
      resolveAgentClaim O header' signature.input.label config.maxAgentUrlBytes = .ok claim ∧
      claim'.profile = header'.profile := by
  obtain ⟨header, hheader, hsupported, hcoverage, hclaim, -⟩ := evaluateClaim_spec h.evaluated
  obtain ⟨header', hheader', hsupported', hcoverage', hclaim', -⟩ := evaluateClaim_spec h'.evaluated
  obtain ⟨hcomponents, -, hvalues⟩ := createSignatureBase_lines h.signed h'.signed heq
  have hprofile := (resolveAgentClaim_spec hclaim).1
  have hprofile' := (resolveAgentClaim_spec hclaim').1
  obtain ⟨text, htext, hparse⟩ := parseAgentHeader_spec hheader
  obtain ⟨text', htext', hparse'⟩ := parseAgentHeader_spec hheader'
  obtain ⟨-, -, c, hc, hagent⟩ := assertRequiredCoverage_spec hcoverage
  obtain ⟨value, hvalue, hvalue'⟩ := hvalues c hc
  refine ⟨header', hheader', ?_, hprofile'⟩
  cases header with
  | item field =>
    obtain ⟨field', rfl⟩ := ParsedAgentHeader.profile_eq_cloudflare.mp
      (profile_of_components hcomponents hsupported hcoverage' rfl)
    obtain rfl := bareComponent_iff.mp hagent
    obtain rfl := agentText_eq htext htext' hvalue hvalue'
    rw [hparse] at hparse'
    rwa [← Except.ok.inj hparse']
  | dictionary field =>
    cases header' with
    | item field' =>
      obtain ⟨field, hfield⟩ := ParsedAgentHeader.profile_eq_cloudflare.mp
        (profile_of_components hcomponents.symm hsupported' hcoverage rfl)
      simp at hfield
    | dictionary field' =>
      have htype : OrderedMap.lookup (evaluationOptions config claim.profile).structuredFieldTypes
          signatureAgent = some (some (agentFieldType claim.profile)) := lookup_evaluationOptions _
      have htype' : OrderedMap.lookup (evaluationOptions config claim'.profile).structuredFieldTypes
          signatureAgent = some (some (agentFieldType claim'.profile)) := lookup_evaluationOptions _
      rw [hprofile] at htype
      rw [hprofile'] at htype'
      rw [hprofile] at hvalue
      rw [hprofile'] at hvalue'
      have hfield := parseAgentText_dictionary hparse
      have hfield' := parseAgentText_dictionary hparse'
      obtain ⟨m, hm, ht⟩ := value_agentMember htext hagent htype hvalue hfield
      obtain ⟨m', hm', ht'⟩ := value_agentMember htext' hagent htype' hvalue' hfield'
      obtain rfl := member_eq ht ht' (canonical_of_getMember hfield hm)
        (canonical_of_getMember hfield' hm')
      rw [← hclaim]
      exact resolveAgentClaim_congr (hm'.trans hm.symm) _

/-- An item header has one claim, and a dictionary has one for each label. -/
theorem resolveAgentClaim_eq {header : ParsedAgentHeader} {label label' : Text} {maximum : ℤ}
    (h : resolveAgentClaim O header label maximum = .ok claim)
    (h' : resolveAgentClaim O header label' maximum = .ok claim')
    (hcase : header.profile = .cloudflareDocs20260701 ∨ label = label') :
    claim.claimedUrl = claim'.claimedUrl ∧ claim.canonicalOrigin = claim'.canonicalOrigin := by
  obtain ⟨-, -, selected, hselected, hurl, horigin⟩ := resolveAgentClaim_spec h
  obtain ⟨-, -, selected', hselected', hurl', horigin'⟩ := resolveAgentClaim_spec h'
  have hselect : selectAgent header label = selectAgent header label' := by
    rcases hcase with hprofile | rfl
    · obtain ⟨field, rfl⟩ := ParsedAgentHeader.profile_eq_cloudflare.mp hprofile
      rfl
    · rfl
  obtain rfl : selected = selected' :=
    Except.ok.inj (hselected.symm.trans (hselect.trans hselected'))
  have heq : claim.claimedUrl = claim'.claimedUrl := BareItem.string.inj (hurl.symm.trans hurl')
  rw [heq, horigin'] at horigin
  exact ⟨heq, (Except.ok.inj horigin).symm⟩

/-- **Equal bases have equal claims, up to the label.** The profile, the method, the target URI
and the metadata are equal. Each label resolves to its claim in either request, so the claims
are equal unless a dictionary is read under two labels. -/
theorem evaluation_of_equal_bases (P : Platform) (O : OriginPlatform) (config : EvaluationConfig)
    (request request' : RequestParts) (signature signature' : ParsedSignature)
    (claim claim' : AgentClaim) (metadata metadata' : CandidateMetadata)
    (base base' : SignatureBase)
    (h : Evaluated P O config request signature claim metadata base)
    (h' : Evaluated P O config request' signature' claim' metadata' base')
    (heq : base.text = base'.text) :
    claim.profile = claim'.profile ∧ request.method = request'.method ∧
      request.targetUri = request'.targetUri ∧ metadata = metadata' ∧
      (claim.profile = .cloudflareDocs20260701 ∨ signature.input.label = signature'.input.label →
        claim.claimedUrl = claim'.claimedUrl ∧ claim.canonicalOrigin = claim'.canonicalOrigin) ∧
      ∃ header', parseAgentHeader config.core request' = .ok header' ∧
        resolveAgentClaim O header' signature.input.label config.maxAgentUrlBytes = .ok claim := by
  obtain ⟨header', hheader', hresolve, hprofile'⟩ := resolve_of_equal_bases h h' heq
  obtain ⟨header, -, -, hcoverage, hclaim, hmetadata⟩ := evaluateClaim_spec h.evaluated
  obtain ⟨header'', hheader'', -, -, hclaim', hmetadata'⟩ := evaluateClaim_spec h'.evaluated
  obtain rfl : header' = header'' := Except.ok.inj (hheader'.symm.trans hheader'')
  obtain ⟨hcomponents, hparameters, hvalues⟩ := createSignatureBase_lines h.signed h'.signed heq
  obtain ⟨hmethod, htarget, -⟩ := assertRequiredCoverage_spec hcoverage
  obtain ⟨selection, hselection, hselected⟩ := h.selected
  obtain ⟨selection', hselection', hselected'⟩ := h'.selected
  have hprofile := (resolveAgentClaim_spec hresolve).1.trans hprofile'.symm
  rw [canonical_of_selected hselection hselected,
    canonical_of_selected hselection' hselected'] at hparameters
  refine ⟨hprofile, value_eq_of_mem hvalues hmethod value_method,
    value_eq_of_mem hvalues htarget value_targetUri, ?_, ?_, header', hheader', hresolve⟩
  · have hheaders : header.profile = header'.profile :=
      (resolveAgentClaim_spec hclaim).1.symm.trans (hprofile.trans hprofile')
    rw [hparameters, hheaders, hmetadata'] at hmetadata
    exact (Except.ok.inj hmetadata).symm
  · intro hcase
    refine resolveAgentClaim_eq hresolve hclaim' ?_
    rwa [← (resolveAgentClaim_spec hresolve).1]

/-! ## Two labels

A signature that covers the members of two labels may be carried under either. -/

/-- The default limits, without field types and without a required nonce. -/
def twoLabelConfig : EvaluationConfig := ⟨DEFAULT_CORE_LIMITS, [], 16, 2048, 256, fun _ => .optional⟩

/-- The thumbprint of 32 zero octets. -/
def zeroThumbprint : Text := List.replicate 43 65

/-- The signature parameters of `twoLabelRequest`. -/
def twoLabelParameters : Text :=
  ascii "(\"@method\" \"@target-uri\" " ++ ascii "\"signature-agent\";key=\"sig1\" " ++
    ascii "\"signature-agent\";key=\"sig2\")" ++ ascii ";created=1;expires=2;keyid=\"" ++
    zeroThumbprint ++ ascii "\";tag=\"web-bot-auth\""

/-- A request that names two agents, with a signature under one of the labels. -/
def twoLabelRequest (label : String) : RequestParts :=
  ⟨ascii "GET", ascii "https://site.example/", none,
    [⟨ascii "Signature-Agent", .text (ascii "sig1=\"https://a.example\", " ++
        ascii "sig2=\"https://b.example\"")⟩,
      ⟨ascii "Signature-Input", .text (ascii label ++ [61] ++ twoLabelParameters)⟩,
      ⟨ascii "Signature", .text (ascii label ++ ascii "=:AAAA:")⟩], none⟩

/-- The signature of `twoLabelRequest`. -/
def twoLabelSignature (label : String) : ParsedSignature :=
  ⟨⟨ascii label, [⟨ascii "@method", []⟩, ⟨ascii "@target-uri", []⟩,
      ⟨signatureAgent, [(ascii "key", .string (ascii "sig1"))]⟩,
      ⟨signatureAgent, [(ascii "key", .string (ascii "sig2"))]⟩],
    [(ascii "created", .integer (.integer 1)), (ascii "expires", .integer (.integer 2)),
      (ascii "keyid", .string zeroThumbprint), (ascii "tag", webBotAuth)]⟩, [0, 0, 0]⟩

/-- The metadata of `twoLabelRequest`. -/
def twoLabelMetadata : CandidateMetadata := ⟨.integer 1, .integer 2, zeroThumbprint, none, none⟩

/-- The claim of a label of `twoLabelRequest`. -/
def twoLabelClaim (label url : String) : AgentClaim :=
  ⟨.ietfWgProtocol00, ascii label, ascii url, ascii url⟩

/-- The signature base of `twoLabelRequest`, under either label. -/
def twoLabelBase : SignatureBase :=
  let text := line (ascii "\"@method\"") (ascii "GET") ++
    line (ascii "\"@target-uri\"") (ascii "https://site.example/") ++
    line (ascii "\"signature-agent\";key=\"sig1\"") (ascii "\"https://a.example\"") ++
    line (ascii "\"signature-agent\";key=\"sig2\"") (ascii "\"https://b.example\"") ++
    signatureParamsPrefix ++ twoLabelParameters
  ⟨text, text.map UInt16.toUInt8⟩

theorem evaluated_sig1 : Evaluated examplePlatform spelledOrigins twoLabelConfig
    (twoLabelRequest "sig1") (twoLabelSignature "sig1") (twoLabelClaim "sig1" "https://a.example")
    twoLabelMetadata twoLabelBase where
  selected := ⟨.candidates [twoLabelSignature "sig1"] [twoLabelSignature "sig1"],
    by decide +kernel, List.mem_singleton_self _⟩
  evaluated := by decide +kernel
  signed := by decide +kernel

theorem evaluated_sig2 : Evaluated examplePlatform spelledOrigins twoLabelConfig
    (twoLabelRequest "sig2") (twoLabelSignature "sig2") (twoLabelClaim "sig2" "https://b.example")
    twoLabelMetadata twoLabelBase where
  selected := ⟨.candidates [twoLabelSignature "sig2"] [twoLabelSignature "sig2"],
    by decide +kernel, List.mem_singleton_self _⟩
  evaluated := by decide +kernel
  signed := by decide +kernel

/-- Relabelling a signature changes the claim that is evaluated, and not its base. -/
theorem relabelled_claim : ¬ ∀ (P : Platform) (O : OriginPlatform) (config : EvaluationConfig)
    (request request' : RequestParts) (signature signature' : ParsedSignature)
    (claim claim' : AgentClaim) (metadata metadata' : CandidateMetadata)
    (base base' : SignatureBase),
    Evaluated P O config request signature claim metadata base →
    Evaluated P O config request' signature' claim' metadata' base' →
    base.text = base'.text → claim.claimedUrl = claim'.claimedUrl := by
  intro h
  have := h _ _ _ _ _ _ _ _ _ _ _ _ _ evaluated_sig1 evaluated_sig2 rfl
  exact absurd this (by decide)

theorem evaluation_of_equal_bases_twoLabels :
    twoLabelClaim "sig1" "https://a.example" ≠ twoLabelClaim "sig2" "https://b.example" ∧
      ∃ header, parseAgentHeader DEFAULT_CORE_LIMITS (twoLabelRequest "sig2") = .ok header ∧
        resolveAgentClaim spelledOrigins header (ascii "sig1") 2048 =
          .ok (twoLabelClaim "sig1" "https://a.example") :=
  ⟨by decide, (evaluation_of_equal_bases examplePlatform spelledOrigins twoLabelConfig
    (twoLabelRequest "sig1") (twoLabelRequest "sig2") (twoLabelSignature "sig1")
    (twoLabelSignature "sig2") _ _ _ _ _ _ evaluated_sig1 evaluated_sig2 rfl).2.2.2.2.2⟩

end AgentSig.Profiles
