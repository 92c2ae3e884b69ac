import AgentSig.Core.Targets
import AgentSig.Http.Mapping

/-!
# Mapping and core agree on the target

The mapping of a request compares the origin of its target with the origins that are allowed, and the core
signs components of the same target, which it parses again by itself. Both read the same origin, whatever
the spelling of the host and the port.

## Main definitions

* `WebStandards`: what both rely on of `URL` and `isIP`
* `LimitsWithin`: the limits of a mapping are not above those of the core
* `TargetAgreement`: what the core makes of a mapped request

## Main results

* `canonicalHost_lower`: a host in lower case has the same canonical host
* `targetParts_mapped`: the components of the target of a mapped request
* `mapHttpSnapshot_agrees`: **the core agrees with the mapping on the target of every mapped request**
-/

namespace AgentSig.Http

open Commons Core Profiles

/-- What is documented of `URL` and `isIP`: hosts and addresses are read in either case, and a URL of a host
is accepted with either scheme and with a valid port, and then has a host name and no credentials. -/
structure WebStandards (O : OriginPlatform) (P : Platform) : Prop where
  accepts : ∀ href, P.urlAccepts href = (O.url href).any fun parsed =>
    parsed.hostname ≠ [] ∧ parsed.username = [] ∧ parsed.password = []
  isIP_lower : ∀ t, O.isIP (toLowerCase t) = O.isIP t
  url_lower : ∀ host, HostText host → O.url (hostUrl (toLowerCase host)) = O.url (hostUrl host)
  url_port : ∀ (scheme : HttpScheme) (host : Text) (port : Option Text), HostText host →
    (∀ p ∈ port, ValidPort p) → (O.url (hostUrl host)).isSome →
    ∃ parsed, O.url (scheme.text ++ ascii "://" ++ authorityText host port ++ ascii "/") = some parsed ∧
      parsed.hostname ≠ [] ∧ parsed.username = [] ∧ parsed.password = []

/-- The limits of a mapping are not above those that the core charges the same bytes to. -/
structure LimitsWithin (limits : HttpMappingLimits) (L : CoreLimits) : Prop where
  header : limits.maxHeaderBytes ≤ L.get .maxMessageHeaderBytes
  method : limits.maxHeaderBytes ≤ L.get .maxSignatureBaseBytes
  target : limits.maxTargetUriBytes ≤ L.get .maxTargetUriBytes

/-- The fields of a family state the host and the protocol: each field that is used occurs once. -/
def StatedBy (rawHeaders : List (Text × Text)) (externalHost protocol : Text) : ForwardingFamily → Prop
  | .forwarded => ∃ value pairs, occurrences rawHeaders (ascii "forwarded") = [value] ∧
      parseForwarded value = .ok pairs ∧ OrderedMap.lookup pairs .host = some externalHost ∧
      OrderedMap.lookup pairs .proto = some protocol
  | .xForwarded => occurrences rawHeaders (ascii "x-forwarded-host") = [externalHost] ∧
      occurrences rawHeaders (ascii "x-forwarded-proto") = [protocol] ∧
      ∀ name ∈ xFields, occurrences rawHeaders name = [] ∨
        ∃ value, occurrences rawHeaders name = [value] ∧ 44 ∉ value

/-- What the core makes of a mapped request. -/
structure TargetAgreement (O : OriginPlatform) (P : Platform) (L : CoreLimits)
    (config : ResolvedHttpConfiguration) (snapshot : HttpSnapshot) (mapping : MappedHttpRequest) :
    Prop where
  headers : validateHeaders L mapping.request.headers = .ok ()
  values : ∀ name, ∃ values, fieldValues mapping.request.headers name mapping.request.httpVersion =
    .ok values
  method : requestComponent P L mapping.request (ascii "@method") none = .ok snapshot.method
  requestTarget : requestComponent P L mapping.request (ascii "@request-target") none = .ok snapshot.url
  targetUri : requestComponent P L mapping.request (ascii "@target-uri") none =
    .ok mapping.request.targetUri
  /-- The path and the query are the request target; a query that is missing is `?`. -/
  path : ∃ path query, requestComponent P L mapping.request (ascii "@path") none = .ok path ∧
    requestComponent P L mapping.request (ascii "@query") none = .ok query ∧
    (snapshot.url = path ++ query ∨ 63 ∉ snapshot.url ∧ snapshot.url = path ∧ query = [63])
  /-- The origin that the core reads has the key that is checked. -/
  origin : ∃ internal scheme authority text authority',
    mapTarget O config snapshot internal = .ok (scheme, authority, mapping.observedClient) ∧
    config.allowsOrigin (httpOriginKey scheme authority) ∧
    requestComponent P L mapping.request (ascii "@scheme") none = .ok scheme.text ∧
    requestComponent P L mapping.request (ascii "@authority") none = .ok text ∧
    parseHttpAuthority O text = .ok authority' ∧
    httpOriginKey scheme authority' = httpOriginKey scheme authority
  ingress : ∀ family trustsPeer, config.ingress = .trustedIngress family trustsPeer →
    trustsPeer snapshot.peerAddress ∧ otherFamily snapshot.rawHeaders family = false ∧
    ∃ externalHost, StatedBy snapshot.rawHeaders externalHost (ascii "https") family ∧
      mapping.request.targetUri = ascii "https://" ++ externalHost ++ snapshot.url

variable {O : OriginPlatform} {P : Platform} {L : CoreLimits} {config : ResolvedHttpConfiguration}
  {snapshot : HttpSnapshot} {host value : Text} {port : Option Text} {scheme : HttpScheme}

/-! ## Lower case -/

theorem HostText.lower (h : HostText host) : HostText (toLowerCase host) := by
  rcases h with ⟨inner, rfl, hne, hchars⟩ | ⟨hne, hchars⟩
  · -- Only some lower-case letters are hexadecimal, so the class is not closed as a whole.
    refine .inl ⟨toLowerCase inner, toLowerCase_bracketed inner, toLowerCase_ne_nil hne, ?_⟩
    intro c hc
    obtain ⟨d, hd, rfl⟩ := List.mem_map.mp hc
    have hip := hchars d hd
    split
    · rename_i hupper
      simp only [ipChar, hexDigit, digit] at hip ⊢
      simp only [Bool.or_eq_true, Bool.and_eq_true, decide_eq_true_eq, beq_iff_eq,
        UInt16.le_iff_toNat_le, UInt16.toNat_add, UInt16.reduceToNat, ← UInt16.toNat_inj] at hip hupper ⊢
      omega
    · exact hip
  · refine .inr ⟨toLowerCase_ne_nil hne, mem_toLowerCase (fun c h97 h122 => ?_) hchars⟩
    simp [hostChar, letter, h97, h122]

/-- A host in lower case has the same canonical host. -/
theorem canonicalHost_lower (hW : WebStandards O P) (hhost : HostText host) {canonical : Text}
    (h : canonicalHost O host = .ok canonical) :
    canonicalHost O (toLowerCase host) = .ok canonical := by
  have hurl := hW.url_lower host hhost
  rcases hhost with ⟨inner, rfl, hne, hchars⟩ | ⟨hne, hchars⟩
  · rw [canonicalHost, if_pos List.head?_cons] at h
    rw [toLowerCase_bracketed] at hurl ⊢
    rw [canonicalHost, if_pos List.head?_cons]
    unfold numericHost at h ⊢
    simp only [List.tail_cons, List.dropLast_concat] at h ⊢
    rwa [hurl, hW.isIP_lower]
  · have hhead {t : Text} (ht : ∀ c ∈ t, hostChar c) : t.head? ≠ some 91 := by
      intro heq
      exact (hostChar_ne (ht 91 (List.mem_of_mem_head? heq))).2.1 rfl
    have hlower : ∀ c ∈ toLowerCase host, hostChar c :=
      mem_toLowerCase (fun c h97 h122 => by simp [hostChar, letter, h97, h122]) hchars
    rw [canonicalHost, if_neg (hhead hchars)] at h
    rw [canonicalHost, if_neg (hhead hlower)]
    unfold namedHost at h ⊢
    rw [hurl, toLowerCase_toLowerCase]
    simp only [bind_eq_ok, require_eq_ok, exists_const] at h ⊢
    refine ⟨List.all_eq_true.mpr hlower, ?_⟩
    obtain ⟨-, h⟩ := h
    split at h
    · simp at h
    · simp only [bind_eq_ok, require_eq_ok, exists_const] at h ⊢
      obtain ⟨hparsed, hfour, hcanonical⟩ := h
      refine ⟨hparsed, fun hip => ?_, hcanonical⟩
      rw [hW.isIP_lower]
      exact hfour hip

/-! ## Authorities -/

theorem authorityChars_authorityText (hhost : HostText host) (hport : ∀ p ∈ port, PortText p) :
    authorityChars (authorityText host port) := by
  have hchars {c : UInt16} (hc : c ∈ authorityText host port) :
      (0x21 ≤ c ∧ c ≤ 0x7e) ∧ c ∉ ascii "\\@%/?#" := by
    have hclass : hostChar c ∨ c = 58 ∨ c = 91 ∨ c = 93 := authorityText_chars hhost hport hc
    have hbanned : ascii "\\@%/?#" = [92, 64, 37, 47, 63, 35] := by decide
    rw [hbanned]
    simp only [hostChar, letter, digit, Bool.or_eq_true, Bool.and_eq_true, decide_eq_true_eq, beq_iff_eq,
      UInt16.le_iff_toNat_le, UInt16.reduceToNat, ← UInt16.toNat_inj, List.mem_cons, List.not_mem_nil,
      or_false] at hclass ⊢
    omega
  have hne : authorityText host port ≠ [] := by
    obtain ⟨rest, heq, -⟩ := authorityText_eq_append host port
    rw [heq]
    simp [hhost.ne_nil]
  unfold authorityChars
  simp only [ne_eq, hne, not_false_eq_true, decide_true, Bool.true_and, Bool.and_eq_true,
    List.all_eq_true, decide_eq_true_eq, Bool.not_eq_true', List.any_eq_false, List.contains_eq_mem]
  exact ⟨fun c hc => (hchars hc).1, fun c hc => (hchars hc).2⟩

/-- The spelling of a host and a valid port parses. -/
theorem parseHttpAuthority_authorityText (hhost : HostText host) (hport : ∀ p ∈ port, ValidPort p)
    {canonical : Text} (h : canonicalHost O host = .ok canonical) :
    parseHttpAuthority O (authorityText host port) =
      .ok ⟨authorityText host port, canonical, port.map (readDigits 0)⟩ := by
  have hport' : ∀ p ∈ port, PortText p := fun p hp => (hport p hp).1
  unfold parseHttpAuthority
  rw [splitHttpAuthority_authorityText hhost hport', head?_authorityText hhost port]
  simp only [bind_eq_ok, require_eq_ok, exists_const, pure_eq_ok]
  refine ⟨authorityChars_authorityText hhost hport', canonical, h, port.map (readDigits 0), ?_, rfl⟩
  exact (parsePort_eq_ok hport').mpr ⟨hport, rfl⟩

/-- The canonical host of a parsed authority has a URL. -/
theorem url_of_canonicalHost {canonical : Text} (h : canonicalHost O host = .ok canonical) :
    (O.url (hostUrl host)).isSome := by
  unfold canonicalHost at h
  split at h
  · simp only [numericHost, bind_eq_ok, require_eq_ok, exists_const] at h
    obtain ⟨-, h⟩ := h
    split at h
    · simp at h
    · rename_i hurl
      simp [hurl]
  · simp only [namedHost, bind_eq_ok, require_eq_ok, exists_const] at h
    obtain ⟨-, h⟩ := h
    split at h
    · simp at h
    · rename_i hurl
      simp [hurl]

/-- The core splits an authority as the mapping does. -/
theorem splitAuthority_authorityText (hhost : HostText host) (hport : ∀ p ∈ port, PortText p) :
    splitAuthority (authorityText host port) = some (host, port) := by
  obtain ⟨rest, heq, hrest⟩ := authorityText_eq_append host port
  have hsuffix : splitPort rest = some port := by
    rw [hrest]
    cases port with
    | none => rfl
    | some port =>
      have hdigits : port.all digit := List.all_eq_true.mpr (hport port rfl).2
      simp [splitPort, hdigits]
  have hstop : StartsWithout (· != 58) rest := by
    rw [hrest]
    cases port with
    | none => exact .nil
    | some port => simp
  rw [heq]
  rcases hhost with ⟨inner, rfl, hne, hchars⟩ | ⟨hne, hchars⟩
  · have hclosed : StartsWithout ipChar (93 :: rest) := by
      rw [startsWithout_cons]
      decide
    have hshape : (91 :: (inner ++ [93])) ++ rest = 91 :: (inner ++ 93 :: rest) := by simp
    have hclass : (fun c => hexDigit c || c == 58 || c == 46) = ipChar := rfl
    rw [hshape]
    unfold splitAuthority
    rw [if_pos List.head?_cons]
    dsimp only [List.tail_cons]
    rw [hclass, takeWhile_run hchars hclosed, dropWhile_run hchars hclosed]
    simp [hne, hsuffix]
  · have hchars' (c : UInt16) (hc : c ∈ host) : (c != 58) = true := by
      simpa using (hostChar_ne (hchars c hc)).1
    have hhead : (host ++ rest).head? ≠ some 91 := by
      rw [List.head?_append_of_ne_nil _ hne]
      intro h
      exact (hostChar_ne (hchars 91 (List.mem_of_mem_head? h))).2.1 rfl
    unfold splitAuthority
    rw [if_neg hhead]
    dsimp only
    rw [takeWhile_run hchars' hstop, dropWhile_run hchars' hstop, if_neg hne, hsuffix]
    rfl

/-! ## Targets -/

/-- A text without percent signs does not matter for the escapes of what follows. -/
theorem escapesValid_append {s : Text} (t : Text) (h : 37 ∉ s) :
    escapesValid (s ++ t) = escapesValid t := by
  induction s with
  | nil => rfl
  | cons c s ih =>
    simp only [List.mem_cons, not_or] at h
    rw [List.cons_append, escapesValid, ih h.2]
    simp [Ne.symm h.1]

theorem targetChar_of_hostChar {c : UInt16} (h : hostChar c) : targetChar c := by
  simp only [hostChar, Bool.or_eq_true, beq_iff_eq] at h
  simp only [targetChar, Bool.or_eq_true]
  rcases h with (((h | h) | rfl) | rfl) | rfl
  · exact .inl (.inl h)
  · exact .inl (.inr h)
  all_goals exact .inr (by decide)

theorem targetChar_printable {c : UInt16} (h : targetChar c) : 0x21 ≤ c ∧ c ≤ 0x7e := by
  have hmarks : ascii "-._~:/?[]@!$&'()*+,;=%" = [45, 46, 95, 126, 58, 47, 63, 91, 93, 64, 33, 36, 38,
      39, 40, 41, 42, 43, 44, 59, 61, 37] := by decide
  simp only [targetChar, hmarks, letter, digit, Bool.or_eq_true, Bool.and_eq_true, decide_eq_true_eq,
    List.contains_eq_mem, List.mem_cons, List.not_mem_nil, or_false, UInt16.le_iff_toNat_le,
    UInt16.reduceToNat, ← UInt16.toNat_inj] at h ⊢
  omega

/-- The characters of an authority: those of a target, without delimiters. -/
theorem authorityText_target (hhost : HostText host) (hport : ∀ p ∈ port, PortText p) {c : UInt16}
    (hc : c ∈ authorityText host port) : targetChar c ∧ c ≠ 37 ∧ c ≠ 47 ∧ c ≠ 63 ∧ c ≠ 35 ∧ c ≠ 64 := by
  have hclass : hostChar c ∨ c = 58 ∨ c = 91 ∨ c = 93 := authorityText_chars hhost hport hc
  constructor
  · rcases hclass with h | rfl | rfl | rfl
    · exact targetChar_of_hostChar h
    all_goals decide
  · refine ⟨?_, ?_, ?_, ?_, ?_⟩
    all_goals rintro rfl; exact absurd hclass (by decide)

/-- The target that a mapping assembles. -/
def mappedTarget (scheme : HttpScheme) (authority url : Text) : Text :=
  scheme.text ++ ascii "://" ++ authority ++ url

/-- A request target in origin form. -/
structure OriginForm (url : Text) : Prop where
  slash : url.head? = some 47
  chars : url.all targetChar
  escapes : escapesValid url

/-- The port of the authority that the core signs: the default port is left out. -/
def signedPort (scheme : HttpScheme) (port : Option Text) : Option Text :=
  port.filter fun p => readDigits 0 p ≠ scheme.defaultPort

theorem splitTarget_mappedTarget (scheme : HttpScheme) {authority url : Text} (hne : authority ≠ [])
    (hauthority : ∀ c ∈ authority, c ≠ 47 ∧ c ≠ 63 ∧ c ≠ 35) (hurl : OriginForm url) :
    splitTarget (mappedTarget scheme authority url) = some (scheme.text, authority,
      url.takeWhile (· != 63), if 63 ∈ url then some (url.dropWhile (· != 63)) else none) := by
  have hscheme : ∀ c ∈ scheme.text, schemeChar c := by cases scheme <;> decide
  have hletter : scheme.text.head?.any letter = true := by cases scheme <;> decide
  have hhash : 35 ∉ url := by
    intro h
    exact absurd (List.all_eq_true.mp hurl.chars 35 h) (by decide)
  have hshape : mappedTarget scheme authority url = scheme.text ++ 58 :: 47 :: 47 :: (authority ++ url) := by
    simp [mappedTarget, ascii, unit]
  have hcolon : StartsWithout schemeChar (58 :: 47 :: 47 :: (authority ++ url)) := by
    rw [startsWithout_cons]
    decide
  have hslash : StartsWithout (fun c => c != 47 && c != 63 && c != 35) url := by
    intro c hc
    obtain rfl : 47 = c := by simpa [hurl.slash] using hc
    decide
  have hauthority' : ∀ c ∈ authority, (c != 47 && c != 63 && c != 35) = true := by
    intro c hc
    obtain ⟨h47, h63, h35⟩ := hauthority c hc
    simp [h47, h63, h35]
  -- The query starts at the first question mark, since there is no fragment.
  have hsplit := List.takeWhile_append_dropWhile (p := fun c : UInt16 => c != 63) (l := url)
  have hpath : ∀ c ∈ url.takeWhile (· != 63), (c != 63 && c != 35) = true := by
    intro c hc
    have hmark := List.mem_takeWhile_imp (p := fun c : UInt16 => c != 63) hc
    have hnumber : c ≠ 35 := fun h => hhash (h ▸ (List.takeWhile_sublist _).subset hc)
    simp [hmark, hnumber]
  have hquery : StartsWithout (fun c => c != 63 && c != 35) (url.dropWhile (· != 63)) :=
    (startsWithout_dropWhile url).mono fun c hc => (Bool.and_eq_true_iff.mp hc).1
  have htake : url.takeWhile (fun c => c != 63 && c != 35) = url.takeWhile (· != 63) := by
    conv_lhs => rw [← hsplit]
    exact takeWhile_run hpath hquery
  have hdrop : url.dropWhile (fun c => c != 63 && c != 35) = url.dropWhile (· != 63) := by
    conv_lhs => rw [← hsplit]
    exact dropWhile_run hpath hquery
  have hfragment : (url.dropWhile (· != 63)).contains 35 = false := by
    rw [Bool.eq_false_iff, ne_eq, List.contains_iff_mem]
    exact fun h => hhash ((List.dropWhile_sublist _).subset h)
  have hempty : url.dropWhile (· != 63) = [] ↔ 63 ∉ url := by
    rw [List.dropWhile_eq_nil_iff]
    constructor
    · intro h hmem
      exact absurd (h 63 hmem) (by decide)
    · intro h c hc
      have hne : c ≠ 63 := fun heq => h (heq ▸ hc)
      simpa using hne
  rw [hshape]
  unfold splitTarget
  dsimp only
  rw [takeWhile_run hscheme hcolon, dropWhile_run hscheme hcolon]
  simp only []
  rw [takeWhile_run hauthority' hslash, dropWhile_run hauthority' hslash, htake, hdrop, hletter, hfragment]
  by_cases hmark : 63 ∈ url
  · have hquery' : url.dropWhile (· != 63) ≠ [] := fun h => hempty.mp h hmark
    simp [hne, hmark, hquery']
  · have hquery' : url.dropWhile (· != 63) = [] := hempty.mpr hmark
    simp [hne, hmark, hquery']

/-- The authority that the core signs. -/
theorem normalized_authorityText (scheme : HttpScheme) (host : Text) (port : Option Text) :
    (∀ p ∈ port, p ≠ []) → (match port with
      | none => toLowerCase host
      | some port => if port = [] ∨ readDigits 0 port = scheme.defaultPort then toLowerCase host
          else toLowerCase host ++ 58 :: port) =
      authorityText (toLowerCase host) (signedPort scheme port) := by
  intro hport
  cases port with
  | none => rfl
  | some p =>
    have hp : p ≠ [] := hport p rfl
    by_cases hdef : readDigits 0 p = scheme.defaultPort
    · rw [signedPort, Option.filter_some_neg (by simpa using hdef)]
      simp [authorityText, hdef]
    · rw [signedPort, Option.filter_some_pos (by simpa using hdef)]
      simp [authorityText, hdef, hp]

/-- The components of the target of a mapped request. -/
theorem targetParts_mapped (hW : WebStandards O P) (scheme : HttpScheme) {url : Text}
    (hhost : HostText host) (hport : ∀ p ∈ port, ValidPort p) (hurl : OriginForm url)
    (hparsed : (O.url (hostUrl host)).isSome)
    (hlength : (mappedTarget scheme (authorityText host port) url).length ≤ L.get .maxTargetUriBytes) :
    targetParts P L (mappedTarget scheme (authorityText host port) url) = .ok {
      original := mappedTarget scheme (authorityText host port) url
      scheme := scheme.text
      authority := authorityText (toLowerCase host) (signedPort scheme port)
      path := url.takeWhile (· != 63)
      query := if 63 ∈ url then url.dropWhile (· != 63) else [63] } := by
  have hport' : ∀ p ∈ port, PortText p := fun p hp => (hport p hp).1
  have hchars {c : UInt16} (hc : c ∈ authorityText host port) := authorityText_target hhost hport' hc
  have hne : authorityText host port ≠ [] := by
    obtain ⟨rest, heq, -⟩ := authorityText_eq_append host port
    rw [heq]
    simp [hhost.ne_nil]
  have hshape : mappedTarget scheme (authorityText host port) url =
      (scheme.text ++ ascii "://" ++ authorityText host port) ++ url := rfl
  have hprotocol : ∀ c ∈ scheme.text ++ ascii "://", targetChar c ∧ c ≠ 37 := by
    cases scheme <;> decide
  have hstart {c : UInt16} (hc : c ∈ scheme.text ++ ascii "://" ++ authorityText host port) :
      targetChar c ∧ c ≠ 37 := by
    rcases List.mem_append.mp hc with hc | hc
    · exact hprotocol c hc
    · exact ⟨(hchars hc).1, (hchars hc).2.1⟩
  have hall : (mappedTarget scheme (authorityText host port) url).all targetChar := by
    rw [hshape, List.all_append, Bool.and_eq_true]
    exact ⟨List.all_eq_true.mpr fun c hc => (hstart hc).1, hurl.chars⟩
  have hescapes : escapesValid (mappedTarget scheme (authorityText host port) url) := by
    rw [hshape, escapesValid_append url fun h => (hstart h).2 rfl]
    exact hurl.escapes
  have hsplit := splitTarget_mappedTarget scheme hne
    (fun c hc => ⟨(hchars hc).2.2.1, (hchars hc).2.2.2.1, (hchars hc).2.2.2.2.1⟩) hurl
  have hscheme : toLowerCase scheme.text = scheme.text := by cases scheme <;> decide
  have hknown : scheme.text = ascii "http" ∨ scheme.text = ascii "https" := by
    cases scheme
    · exact .inl rfl
    · exact .inr rfl
  have huser : (authorityText host port).contains 64 = false := by
    rw [Bool.eq_false_iff, ne_eq, List.contains_iff_mem]
    exact fun h => (hchars h).2.2.2.2.2 rfl
  have haccepts : P.urlAccepts (scheme.text ++ ascii "://" ++ authorityText host port ++ ascii "/") := by
    obtain ⟨parsed, hsome, hgood⟩ := hW.url_port scheme host port hhost hport hparsed
    rw [hW.accepts, hsome]
    simpa using hgood
  have hdefault : (if scheme.text = ascii "https" then 443 else 80) = scheme.defaultPort := by
    cases scheme <;> decide
  have hpath : url.takeWhile (· != 63) ≠ [] := by
    obtain ⟨t, rfl⟩ : ∃ t, url = 47 :: t := by
      cases url with
      | nil => exact absurd hurl.slash (by simp)
      | cons c t => exact ⟨t, by simpa using hurl.slash⟩
    simp
  have htarget : mappedTarget scheme (authorityText host port) url ≠ [] := by
    cases scheme <;> simp [mappedTarget, HttpScheme.text, ascii]
  unfold targetParts
  simp only [bind_eq_ok, checkLimit_eq_ok, require_eq_ok, exists_const]
  refine ⟨hlength, ⟨htarget, hall, hescapes⟩, ?_⟩
  rw [hsplit]
  simp only [hscheme, splitAuthority_authorityText hhost hport', bind_eq_ok, require_eq_ok, exists_const,
    pure_eq_ok]
  refine ⟨hknown, by simpa using huser, haccepts, ?_⟩
  rw [hdefault]
  simp only [TargetParts.mk.injEq, true_and]
  refine ⟨normalized_authorityText scheme host port fun p hp => (hport' p hp).1, by rw [if_neg hpath], ?_⟩
  split <;> rfl

/-! ## Header fields -/

/-- The fields of a mapped request. -/
def mappedHeaders (rawHeaders : List (Text × Text)) : List HeaderField :=
  rawHeaders.map fun h => ⟨h.1, mappedValue h.2⟩

theorem mappedValue_length (value : Text) : (mappedValue value).length = value.length := by
  unfold mappedValue
  split <;> simp [HeaderValue.length]

theorem valueChar_bounds {c : UInt16} (h : valueChar c) :
    ¬ Core.control c ∧ c.toNat < 256 := by
  simp only [valueChar, Core.control, Bool.or_eq_true, Bool.and_eq_true, decide_eq_true_eq, beq_iff_eq,
    bne_iff_ne, ne_eq, UInt16.le_iff_toNat_le, UInt16.lt_iff_toNat_lt, UInt16.reduceToNat,
    ← UInt16.toNat_inj] at h ⊢
  omega

/-- The octets of a value are read as the value. -/
theorem mappedValue_string {value : Text} (h : value.all valueChar) :
    (mappedValue value).string = value := by
  unfold mappedValue
  split
  · rfl
  · rw [HeaderValue.string, List.map_map]
    have hoctet : ∀ c ∈ value, (UInt8.toUInt16 ∘ fun c : UInt16 => UInt8.ofNat c.toNat) c = c := by
      intro c hc
      have hbyte := (valueChar_bounds (List.all_eq_true.mp h c hc)).2
      rw [← UInt16.toNat_inj]
      simp only [Function.comp, UInt8.toNat_toUInt16, UInt8.toNat_ofNat']
      omega
    rw [List.map_congr_left hoctet, List.map_id']

theorem unfolds_self {t : Text} (h : ∀ c ∈ t, ¬ Core.control c) : Unfolds t t := by
  induction t with
  | nil => exact .nil
  | cons c t ih =>
    obtain ⟨hc, ht⟩ := List.forall_mem_cons.mp h
    exact .cons hc (ih ht)

/-- What the loop over the raw headers accepts. -/
theorem snapshotHeaders_spec {limits : HttpMappingLimits} {total : ℕ} {raw : List (Option Text)}
    {rawHeaders : List (Text × Text)} (h : snapshotHeaders limits total raw = .ok rawHeaders) :
    (rawHeaders ≠ [] → total + headerBytes (mappedHeaders rawHeaders) ≤ limits.maxHeaderBytes) ∧
      ∀ e ∈ rawHeaders, isFieldName e.1 ∧ e.2.all valueChar := by
  fun_induction snapshotHeaders limits total raw generalizing rawHeaders with
  | case1 total =>
    obtain rfl := pure_eq_ok.mp h
    simp
  | case2 total name value rest charged =>
    rename_i ih
    have hcharged : charged = total + (name.length + value.length + 4) := rfl
    simp only [bind_eq_ok, require_eq_ok, exists_const, pure_eq_ok] at h
    obtain ⟨hcharge, hchars, headers, hheaders, rfl⟩ := h
    obtain ⟨hbytes, hall⟩ := ih hheaders
    refine ⟨fun _ => ?_, List.forall_mem_cons.mpr ⟨hchars, hall⟩⟩
    have hcons : headerBytes (mappedHeaders ((name, value) :: headers)) =
        name.length + value.length + 4 + headerBytes (mappedHeaders headers) := by
      simp [headerBytes, mappedHeaders, mappedValue_length]
    rw [hcons]
    by_cases hnil : headers = []
    · subst hnil
      have hzero : headerBytes (mappedHeaders []) = 0 := rfl
      omega
    · have := hbytes hnil
      omega
  | case3 =>
    simp at h

/-- The core accepts the fields of a mapped request. -/
theorem validateHeaders_mapped {limits : HttpMappingLimits} {raw : List (Option Text)}
    {rawHeaders : List (Text × Text)} (hlimits : LimitsWithin limits L)
    (h : snapshotHeaders limits 0 raw = .ok rawHeaders) :
    validateHeaders L (mappedHeaders rawHeaders) = .ok () := by
  obtain ⟨hbytes, hall⟩ := snapshotHeaders_spec h
  refine validateHeaders_eq_ok.mpr ⟨?_, fun f hf => ?_⟩
  · by_cases hnil : rawHeaders = []
    · subst hnil
      simp [mappedHeaders, headerBytes]
    · have hheader := hlimits.header
      have := hbytes hnil
      omega
  · obtain ⟨e, he, rfl⟩ := List.mem_map.mp hf
    refine ⟨(hall e he).1, fun t ht => ?_⟩
    unfold mappedValue at ht
    split at ht
    · rename_i hascii
      rwa [← HeaderValue.text.inj ht]
    · simp at ht

/-- Each field of a mapped request has its values. -/
theorem fieldValues_mapped {limits : HttpMappingLimits} {raw : List (Option Text)}
    {rawHeaders : List (Text × Text)} (h : snapshotHeaders limits 0 raw = .ok rawHeaders) (name : Text) :
    ∃ values, fieldValues (mappedHeaders rawHeaders) name (some .http11) = .ok values := by
  refine exists_mapM fun f hf => ?_
  obtain ⟨e, he, rfl⟩ := List.mem_map.mp (List.mem_of_mem_filter hf)
  have hchars := ((snapshotHeaders_spec h).2 e he).2
  refine ⟨trimBlanks e.2, normalizeValue_http11.mpr ⟨e.2, ?_, rfl⟩⟩
  dsimp only
  rw [mappedValue_string hchars]
  exact unfolds_self fun c hc => (valueChar_bounds (List.all_eq_true.mp hchars c hc)).1

/-! ## Mapped requests -/

/-- What `snapshotHttpRequest` accepts. -/
theorem snapshotHttpRequest_spec {limits : HttpMappingLimits} {input : Option SnapshotInput}
    (h : snapshotHttpRequest limits input = .ok snapshot) :
    snapshot.method.length ≤ limits.maxHeaderBytes ∧ isFieldName snapshot.method ∧
      snapshot.url.length ≤ limits.maxTargetUriBytes ∧ OriginForm snapshot.url ∧
      ∃ raw, snapshotHeaders limits 0 raw = .ok snapshot.rawHeaders := by
  unfold snapshotHttpRequest at h
  split at h
  · simp only [bind_eq_ok, require_eq_ok, exists_const] at h
    obtain ⟨version, hversion, hhttp2, hhttp11, method, hmethod, url, hurl, h⟩ := h
    split at h
    · simp only [bind_eq_ok, require_eq_ok, exists_const] at h
      obtain ⟨hlengths, hname, hform, hchars, raw, hraw, h⟩ := h
      split at h
      · simp only [bind_eq_ok, require_eq_ok, exists_const] at h
        obtain ⟨heven, hcount, rawHeaders, hheaders, peer, hpeer, encrypted, hencrypted, address,
          haddress, h⟩ := h
        split at h
        · obtain rfl := pure_eq_ok.mp h
          exact ⟨hlengths.1, hname.1, hlengths.2, ⟨hform.2, hchars.1, hchars.2⟩, _, hheaders⟩
        · simp at h
      · simp at h
    · simp at h
  · simp at h

/-- A field that is used occurs at most once, and is no list. -/
theorem single_spec {rawHeaders : List (Text × Text)} {name : Text} {required : Bool} {r : Option Text}
    (h : single rawHeaders name required = .ok r) :
    occurrences rawHeaders name = [] ∧ r = none ∨
      ∃ value, occurrences rawHeaders name = [value] ∧ 44 ∉ value ∧ r = some value := by
  unfold single at h
  split at h
  · rename_i hnone
    split at h
    · simp at h
    · exact .inl ⟨hnone, (pure_eq_ok.mp h).symm⟩
  · rename_i value hone
    simp only [bind_eq_ok, require_eq_ok, exists_const, pure_eq_ok] at h
    obtain ⟨hcomma, -, rfl⟩ := h
    exact .inr ⟨value, hone, by simpa using hcomma, rfl⟩
  · simp at h

theorem forwardedTarget_spec {rawHeaders : List (Text × Text)} {externalHost protocol : Text}
    {client : Option ObservedClient}
    (h : forwardedTarget O rawHeaders = .ok (externalHost, protocol, client)) :
    StatedBy rawHeaders externalHost protocol .forwarded := by
  unfold forwardedTarget at h
  split at h
  · simp at h
  · rename_i value hone
    simp only [bind_eq_ok] at h
    obtain ⟨pairs, hpairs, h⟩ := h
    split at h
    · rename_i host proto hhost hproto
      simp only [bind_eq_ok, pure_eq_ok, Prod.mk.injEq] at h
      obtain ⟨_, -, _, -, rfl, rfl, -⟩ := h
      exact ⟨value, pairs, hone, hpairs, hhost, hproto⟩
    · simp at h
  · simp at h

theorem xForwardedTarget_spec {rawHeaders : List (Text × Text)} {externalHost protocol : Text}
    {client : Option ObservedClient}
    (h : xForwardedTarget O rawHeaders = .ok (externalHost, protocol, client)) :
    StatedBy rawHeaders externalHost protocol .xForwarded := by
  have honce {name : Text} {r : Option Text} (hr : single rawHeaders name false = .ok r) :
      occurrences rawHeaders name = [] ∨ ∃ value, occurrences rawHeaders name = [value] ∧ 44 ∉ value :=
    (single_spec hr).imp And.left fun ⟨value, hone, hcomma, _⟩ => ⟨value, hone, hcomma⟩
  have hrequired {name : Text} {value : Text} (hr : single rawHeaders name true = .ok (some value)) :
      occurrences rawHeaders name = [value] ∧ 44 ∉ value := by
    rcases single_spec hr with ⟨-, hnone⟩ | ⟨value', hone, hcomma, heq⟩
    · simp at hnone
    · obtain rfl := Option.some.inj heq
      exact ⟨hone, hcomma⟩
  unfold xForwardedTarget at h
  simp only [bind_eq_ok] at h
  obtain ⟨r, hhost, h⟩ := h
  split at h
  · rename_i host
    simp only [bind_eq_ok] at h
    obtain ⟨r, hproto, h⟩ := h
    split at h
    · rename_i proto
      simp only [bind_eq_ok] at h
      obtain ⟨port, hport, client', hclient, observed, -, authority, -, h⟩ := h
      have heq : host = externalHost ∧ proto = protocol := by
        split at h
        · obtain ⟨hhost, hproto, -⟩ := Prod.mk.inj (pure_eq_ok.mp h) |>.imp id fun h => Prod.mk.inj h
          exact ⟨hhost, hproto⟩
        · simp only [bind_eq_ok, require_eq_ok, exists_const, pure_eq_ok, Prod.mk.injEq] at h
          obtain ⟨-, -, hhost, hproto, -⟩ := h
          exact ⟨hhost, hproto⟩
      obtain ⟨rfl, rfl⟩ := heq
      refine ⟨(hrequired hhost).1, (hrequired hproto).1, fun name hname => ?_⟩
      simp only [xFields, List.mem_cons, List.not_mem_nil, or_false] at hname
      rcases hname with rfl | rfl | rfl | rfl
      · exact .inr ⟨host, hrequired hhost⟩
      · exact .inr ⟨proto, hrequired hproto⟩
      · exact honce hport
      · exact honce hclient
    · simp at h
  · simp at h

/-- The target is read from the fields that the ingress is trusted for. -/
theorem mapTarget_spec {internal authority : HttpAuthority} {client : Option ObservedClient}
    (hinternal : parseHttpAuthority O host = .ok internal)
    (h : mapTarget O config snapshot internal = .ok (scheme, authority, client)) :
    (∃ value, parseHttpAuthority O value = .ok authority) ∧
      ∀ family trustsPeer, config.ingress = .trustedIngress family trustsPeer →
        trustsPeer snapshot.peerAddress ∧ otherFamily snapshot.rawHeaders family = false ∧
        scheme = .https ∧ StatedBy snapshot.rawHeaders authority.original (ascii "https") family := by
  unfold mapTarget at h
  split at h
  · rename_i hdirect
    obtain ⟨-, rfl, -⟩ := Prod.mk.inj (pure_eq_ok.mp h) |>.imp id fun h => Prod.mk.inj h
    refine ⟨⟨host, hinternal⟩, fun family trustsPeer hingress => ?_⟩
    rw [hdirect] at hingress
    simp at hingress
  · rename_i family trustsPeer hingress
    simp only [bind_eq_ok, require_eq_ok, exists_const] at h
    obtain ⟨htrusted, hother, ⟨externalHost, protocol, observed⟩, hstated, h⟩ := h
    simp only [pure_eq_ok, Prod.mk.injEq] at h
    obtain ⟨rfl, authority', hauthority, rfl, rfl, -⟩ := h
    refine ⟨⟨externalHost, hauthority⟩, fun family' trustsPeer' hingress' => ?_⟩
    rw [hingress] at hingress'
    obtain ⟨rfl, rfl⟩ := ResolvedIngress.trustedIngress.inj hingress'
    have horiginal : authority'.original = externalHost := by
      obtain ⟨_, _, -, -, -, -, horiginal, -⟩ := parseHttpAuthority_spec hauthority
      exact horiginal
    refine ⟨htrusted, hother, rfl, ?_⟩
    rw [horiginal]
    cases family with
    | forwarded => exact forwardedTarget_spec hstated
    | xForwarded => exact xForwardedTarget_spec hstated

/-- The key of the authority that the core signs is the key of the authority that is checked. -/
theorem originKey_signed (hW : WebStandards O P) {authority : HttpAuthority}
    (hhost : HostText host) (hport : ∀ p ∈ port, ValidPort p)
    (hcanonical : canonicalHost O host = .ok authority.canonicalHost)
    (hnumber : authority.port = port.map (readDigits 0)) (scheme : HttpScheme) :
    ∃ authority', parseHttpAuthority O (authorityText (toLowerCase host) (signedPort scheme port)) =
        .ok authority' ∧ httpOriginKey scheme authority' = httpOriginKey scheme authority := by
  have hsigned : ∀ p ∈ signedPort scheme port, ValidPort p := by
    intro p hp
    exact hport p (Option.filter_eq_some_iff.mp hp).1
  have hparsed := parseHttpAuthority_authorityText hhost.lower hsigned
    (canonicalHost_lower hW hhost hcanonical)
  refine ⟨_, hparsed, ?_⟩
  have heffective : ((signedPort scheme port).map (readDigits 0)).getD scheme.defaultPort =
      authority.port.getD scheme.defaultPort := by
    rw [hnumber]
    cases port with
    | none => rfl
    | some p =>
      by_cases hdefault : readDigits 0 p = scheme.defaultPort
      · rw [signedPort, Option.filter_some_neg (by simpa using hdefault)]
        simp [hdefault]
      · rw [signedPort, Option.filter_some_pos (by simpa using hdefault)]
  simp only [httpOriginKey]
  rw [heffective]

/-- **The core agrees with the mapping.** Whatever the spelling of a mapped request, the core accepts its
fields and its target, and reads the origin that the mapping has checked. -/
theorem mapHttpSnapshot_agrees (hW : WebStandards O P) {input : Option SnapshotInput}
    {mapping : MappedHttpRequest} (hlimits : LimitsWithin config.limits L)
    (h : mapHttpSnapshot O config input = some (.mapped mapping)) :
    ∃ snapshot, snapshotHttpRequest config.limits input = .ok snapshot ∧
      TargetAgreement O P L config snapshot mapping := by
  have hmapped : mapSnapshot O config input = .ok mapping := by
    unfold mapHttpSnapshot at h
    split at h
    · rename_i mapping' heq
      obtain rfl := HttpMappingResult.mapped.inj (Option.some.inj h)
      exact heq
    · simp at h
    · simp at h
  unfold mapSnapshot at hmapped
  simp only [bind_eq_ok] at hmapped
  obtain ⟨snapshot, hsnapshot, hmapped⟩ := hmapped
  refine ⟨snapshot, hsnapshot, ?_⟩
  obtain ⟨hmethod, hname, hlength, hform, raw, hraw⟩ := snapshotHttpRequest_spec hsnapshot
  split at hmapped
  · simp at hmapped
  · rename_i host hhost
    simp only [bind_eq_ok] at hmapped
    obtain ⟨internal, hinternal, ⟨scheme, authority, client⟩, htarget, hmapped⟩ := hmapped
    simp only [require_eq_ok, exists_const, pure_eq_ok] at hmapped
    obtain ⟨hallowed, htotal, bodyPresent, -, rfl⟩ := hmapped
    obtain ⟨⟨value, hvalue⟩, hingress⟩ := mapTarget_spec hinternal htarget
    obtain ⟨host', port, hhost', hport, rfl, hcanonical, horiginal, hnumber⟩ :=
      parseHttpAuthority_spec hvalue
    have htargetUri : scheme.text ++ ascii "://" ++ authority.original ++ snapshot.url =
        mappedTarget scheme (authorityText host' port) snapshot.url := by
      rw [horiginal]
      rfl
    have hsize : (mappedTarget scheme (authorityText host' port) snapshot.url).length ≤
        L.get .maxTargetUriBytes := by
      have hprotocol : (ascii "://").length = 3 := by decide
      have htarget := hlimits.target
      rw [horiginal] at htotal
      simp only [mappedTarget, List.length_append, hprotocol]
      omega
    have hparts := targetParts_mapped hW scheme hhost' hport hform (url_of_canonicalHost hcanonical) hsize
    obtain ⟨authority', hparsed, hkey⟩ := originKey_signed hW hhost' hport hcanonical hnumber scheme
    rw [← htargetUri] at hparts
    let request : RequestParts := ⟨snapshot.method,
      scheme.text ++ ascii "://" ++ authority.original ++ snapshot.url, some snapshot.url,
      mappedHeaders snapshot.rawHeaders, some .http11⟩
    have hcomponents := @requestComponent_parts P L request _ hparts none
    have hbytes := hlimits.method
    have hraws := hlimits.target
    refine {
      headers := validateHeaders_mapped hlimits hraw
      values := fieldValues_mapped hraw
      method := ?_
      requestTarget := ?_
      targetUri := ?_
      path := ?_
      origin := ?_
      ingress := ?_ }
    · have hmethod' : snapshot.method.length ≤ L.get .maxSignatureBaseBytes := hmethod.trans hbytes
      rw [requestComponent, if_pos rfl]
      simp [hmethod', hname, bind_eq_ok]
    · have hurl : snapshot.url.length ≤ L.get .maxTargetUriBytes := hlength.trans hraws
      have hne : snapshot.url ≠ [] := by
        intro hnil
        simpa [hnil] using hform.slash
      have hprintable : ∀ c ∈ snapshot.url, 0x21 ≤ c ∧ c ≤ 0x7e := fun c hc =>
        targetChar_printable (List.all_eq_true.mp hform.chars c hc)
      rw [requestComponent, if_neg (by decide), if_pos rfl]
      simp only [bind_eq_ok, checkLimit_eq_ok, require_eq_ok, exists_const, pure_eq_ok]
      exact ⟨hurl, ⟨hne, by simpa using hprintable⟩, trivial⟩
    · exact hcomponents.1
    · refine ⟨_, _, hcomponents.2.2.2.1, hcomponents.2.2.2.2, ?_⟩
      by_cases hmark : 63 ∈ snapshot.url
      · left
        rw [if_pos hmark]
        exact (List.takeWhile_append_dropWhile).symm
      · right
        rw [if_neg hmark]
        refine ⟨hmark, ?_, rfl⟩
        refine (List.takeWhile_eq_self_iff.mpr fun c hc => ?_).symm
        have hne : c ≠ 63 := fun heq => hmark (heq ▸ hc)
        simpa using hne
    · exact ⟨internal, scheme, authority, _, authority', htarget, hallowed, hcomponents.2.2.1,
        hcomponents.2.1, hparsed, hkey⟩
    · intro family trustsPeer hconfig
      obtain ⟨htrusted, hother, rfl, hstated⟩ := hingress family trustsPeer hconfig
      exact ⟨htrusted, hother, authority.original, hstated, rfl⟩
  · simp at hmapped

/-! ## An example -/

/-- A URL parser that reads hosts and ports as they are spelled, in lower case. -/
def plainOrigins : OriginPlatform where
  url href :=
    let secure : Bool := href.take 8 = ascii "https://"
    (splitAuthority ((href.drop (if secure then 8 else 7)).takeWhile (· != 47))).map fun split =>
      ⟨if secure then ascii "https:" else ascii "http:", [], [], toLowerCase split.1, split.2.getD [],
        [47], [], []⟩
  isIP _ := 0

/-- The platform of the core with that parser. -/
def plainPlatform : Platform where
  urlAccepts href := (plainOrigins.url href).any fun parsed =>
    parsed.hostname ≠ [] ∧ parsed.username = [] ∧ parsed.password = []
  searchParams _ := []
  formEncode value := value

theorem plainOrigins_url (scheme : HttpScheme) (hhost : HostText host) (hport : ∀ p ∈ port, PortText p) :
    ∃ parsed, plainOrigins.url (scheme.text ++ ascii "://" ++ authorityText host port ++ ascii "/") =
      some parsed ∧ parsed.hostname = toLowerCase host ∧ parsed.username = [] ∧ parsed.password = [] := by
  have hslash : ∀ c ∈ authorityText host port, (c != 47) = true := by
    intro c hc
    simpa using (authorityText_target hhost hport hc).2.2.1
  have hend : StartsWithout (fun c : UInt16 => c != 47) (ascii "/") := startsWithout_cons.mpr (by decide)
  have hscan : (authorityText host port ++ ascii "/").takeWhile (· != 47) = authorityText host port :=
    takeWhile_run hslash hend
  have hdrop : (scheme.text ++ ascii "://" ++ authorityText host port ++ ascii "/").drop
      (if (scheme.text ++ ascii "://" ++ authorityText host port ++ ascii "/").take 8 = ascii "https://"
        then 8 else 7) = authorityText host port ++ ascii "/" := by
    cases scheme <;> simp [HttpScheme.text, ascii, unit]
  simp only [plainOrigins, decide_eq_true_eq, hdrop, hscan, splitAuthority_authorityText hhost hport,
    Option.map_some, Option.some.injEq, exists_eq_left', true_and]

theorem webStandards_plainOrigins : WebStandards plainOrigins plainPlatform where
  accepts href := rfl
  isIP_lower t := rfl
  url_lower host hhost := by
    have hsplit {host : Text} (hhost : HostText host) : splitAuthority host = some (host, none) :=
      @splitAuthority_authorityText host none hhost (by simp)
    have hurl {host : Text} (hhost : HostText host) : plainOrigins.url (hostUrl host) =
        some ⟨ascii "https:", [], [], toLowerCase host, [], [47], [], []⟩ := by
      have hslash : ∀ c ∈ host, (c != 47) = true := by
        intro c hc
        simpa using (@authorityText_target host none hhost (by simp) c hc).2.2.1
      have hscan : (host ++ ascii "/").takeWhile (· != 47) = host :=
        takeWhile_run hslash (startsWithout_cons.mpr (by decide))
      have htake : (hostUrl host).take 8 = ascii "https://" := by simp [hostUrl, ascii, unit]
      have hdrop : (hostUrl host).drop 8 = host ++ ascii "/" := by simp [hostUrl, ascii, unit]
      simp only [plainOrigins, htake, decide_true, if_pos, hdrop, hscan, hsplit hhost, Option.map_some,
        Option.getD_none]
    rw [hurl hhost.lower, hurl hhost, toLowerCase_toLowerCase]
  url_port scheme host port hhost hport _ := by
    obtain ⟨parsed, hurl, hname, huser, hpassword⟩ :=
      plainOrigins_url scheme hhost fun p hp => (hport p hp).1
    exact ⟨parsed, hurl, hname ▸ toLowerCase_ne_nil hhost.ne_nil, huser, hpassword⟩

/-- A configuration that allows one origin, at a port of its own. -/
def portConfiguration : ResolvedHttpConfiguration :=
  ⟨.direct, DEFAULT_HTTP_MAPPING_LIMITS, fun key => key = ascii "https://a.example:8443"⟩

/-- A request to that origin in another spelling. -/
def portInput : SnapshotInput where
  method := .value (.text (ascii "GET"))
  url := .value (.text (ascii "/x?y"))
  httpVersion := .value (.text (ascii "1.1"))
  rawHeaders := .value (.array [some (ascii "Host"), some (ascii "A.Example:8443")])
  peerAddress := .value .undefined
  encrypted := .value (.boolean true)

/-- The request was mapped. -/
def isMapped : HttpMappingResult → Bool
  | .mapped _ => true
  | .rejected _ => false

theorem mapHttpSnapshot_agrees_portInput : ∃ snapshot mapping,
    mapHttpSnapshot plainOrigins portConfiguration (some portInput) = some (.mapped mapping) ∧
    TargetAgreement plainOrigins plainPlatform DEFAULT_CORE_LIMITS portConfiguration snapshot mapping := by
  have hmapped : (mapHttpSnapshot plainOrigins portConfiguration (some portInput)).any isMapped := by
    decide +kernel
  obtain ⟨result, hresult, hkind⟩ := (Option.any_eq_true _ _).mp hmapped
  cases result with
  | mapped mapping =>
    obtain ⟨snapshot, -, hagrees⟩ := mapHttpSnapshot_agrees webStandards_plainOrigins
      (L := DEFAULT_CORE_LIMITS) ⟨by decide, by decide, by decide⟩ hresult
    exact ⟨snapshot, mapping, hresult, hagrees⟩
  | rejected code => exact absurd hkind Bool.false_ne_true

end AgentSig.Http
