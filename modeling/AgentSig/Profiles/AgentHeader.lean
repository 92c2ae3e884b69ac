import AgentSig.Profiles.AgentOrigin
import AgentSig.Profiles.Duplicates
import AgentSig.StructuredFields.Determinism

/-!
# The agent header

The Signature-Agent field names the agent. Its first character tells its two forms apart: an
item of one profile, or a dictionary of the other, in which each signature label has its own
member.

## Main definitions

* `WebBotAuthProfile`: the two profiles
* `parseAgentHeader`: the parsed field of a request
* `resolveAgentClaim`: the claim of a label

## Main results

* `parseAgentHeader_spec`: a parsed field is read from the combined text alone
-/

namespace AgentSig.Profiles

open Commons Core StructuredFields

/-- `WebBotAuthProfile`. -/
inductive WebBotAuthProfile
  | ietfWgProtocol00
  | cloudflareDocs20260701
  deriving DecidableEq, Repr

/-- `WEB_BOT_AUTH_PROFILES`. -/
def WebBotAuthProfile.text : WebBotAuthProfile → String
  | .ietfWgProtocol00 => "ietf-wg-protocol-00"
  | .cloudflareDocs20260701 => "cloudflare-docs-2026-07-01"

/-- `ParsedAgentHeader`. -/
inductive ParsedAgentHeader
  | dictionary (field : List (Text × Member))
  | item (field : Item)
  deriving DecidableEq, Repr

/-- The profile that a form belongs to. -/
def ParsedAgentHeader.profile : ParsedAgentHeader → WebBotAuthProfile
  | .dictionary _ => .ietfWgProtocol00
  | .item _ => .cloudflareDocs20260701

/-- `AgentClaim`. -/
structure AgentClaim where
  profile : WebBotAuthProfile
  label : Text
  claimedUrl : Text
  canonicalOrigin : Text
  deriving DecidableEq, Repr

/-- The name of the agent header. -/
def signatureAgent : Text := ascii "signature-agent"

/-- The end of `parseAgentHeader`, where the first character selects the grammar. -/
def parseAgentText (L : CoreLimits) (text : Text) : Except ProfileError ParsedAgentHeader :=
  if text.head? = some 34 then do
    let field ← withSf (parse L.structuredFields (.text text) .item)
    match field with
    | .item ⟨.string value, parameters⟩ => return .item ⟨.string value, parameters⟩
    | _ => throw (invalid .malformedAgent)
  else do
    let field ← withSf (parse L.structuredFields (.text text) .dictionary)
    require (fieldEntries field ≠ []) (invalid .malformedAgent)
    return .dictionary (fieldEntries field)

/-- `parseAgentHeader`. -/
def parseAgentHeader (L : CoreLimits) (request : RequestParts) :
    Except ProfileError ParsedAgentHeader :=
  classify .malformedAgent do
    withCore (validateHeaders L request.headers)
    let occurrences ← withCore (fieldValues request.headers signatureAgent request.httpVersion)
    require (occurrences ≠ []) (invalid .malformedAgent)
    let text ← withCore (combineValues L .maxMessageHeaderBytes occurrences)
    let text ← withCore (requireAscii text)
    require (text ≠ []) (invalid .malformedAgent)
    assertNoAgentDuplicates L text
    parseAgentText L text

/-- The check of the `type` parameter of a member. -/
def checkDiscovery : Option BareItem → Except ProfileError Unit
  | none => return ()
  | some (.token value) => require (value = ascii "directory") (unverified .unsupportedDiscoveryType)
  | some _ => throw (invalid .malformedAgent)

/-- The item that `resolveAgentClaim` selects. -/
def selectAgent (header : ParsedAgentHeader) (label : Text) : Except ProfileError Item :=
  match header with
  | .dictionary field =>
    match getMember field label with
    | none => throw (invalid .agentLabelMismatch)
    | some (.innerList _) => throw (invalid .malformedAgent)
    | some (.item selected) => do
      require (selected.bare matches .string _) (invalid .malformedAgent)
      checkDiscovery (getParameter selected.parameters (ascii "type"))
      return selected
  | .item field => return field

/-- `resolveAgentClaim`. -/
def resolveAgentClaim (O : OriginPlatform) (header : ParsedAgentHeader) (label : Text)
    (maximumUrlBytes : ℤ) : Except ProfileError AgentClaim := do
  let selected ← selectAgent header label
  match selected.bare with
  | .string claimedUrl => do
    let canonicalOrigin ← canonicalAgentOrigin O claimedUrl maximumUrlBytes
    return { profile := header.profile, label, claimedUrl, canonicalOrigin }
  | _ => throw (invalid .malformedAgent)

/-! ## What a header is read from -/

variable {L : CoreLimits} {request : RequestParts} {header : ParsedAgentHeader}

/-- The combined text of the agent header. -/
def IsAgentText (request : RequestParts) (text : Text) : Prop :=
  ∃ values, fieldValues request.headers signatureAgent request.httpVersion = .ok values ∧
    text = [44, 32].intercalate values

/-- A parsed field is read from the combined text alone. -/
theorem parseAgentHeader_spec (h : parseAgentHeader L request = .ok header) :
    ∃ text, IsAgentText request text ∧ parseAgentText L text = .ok header := by
  simp only [parseAgentHeader, classify_eq_ok, bind_eq_ok, withCore_eq_ok, combineValues,
    requireAscii_eq_ok, pure_eq_ok] at h
  obtain ⟨_, -, values, hvalues, _, -, _, ⟨-, -, rfl⟩, _, ⟨-, rfl⟩, -, -, _, -, h⟩ := h
  exact ⟨_, ⟨values, hvalues, rfl⟩, h⟩

/-- The entries of a dictionary header are those of its text. -/
theorem parseAgentText_dictionary {text : Text} {field : List (Text × Member)}
    (h : parseAgentText L text = .ok (.dictionary field)) :
    parse L.structuredFields (.text text) .dictionary = .ok (.dictionary field) := by
  unfold parseAgentText at h
  split at h
  · simp only [bind_eq_ok] at h
    obtain ⟨f, -, h⟩ := h
    split at h <;> simp at h
  · simp only [bind_eq_ok, withSf_eq_ok, require_eq_ok, exists_const, pure_eq_ok,
      ParsedAgentHeader.dictionary.injEq] at h
    obtain ⟨f, hf, -, rfl⟩ := h
    obtain ⟨g, hg, rfl, -⟩ := parse_sound hf
    cases hg
    exact hf

end AgentSig.Profiles
