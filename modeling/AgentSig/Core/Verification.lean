import AgentSig.Core.MessageRoundTrip

/-!
# What verification accepts

A verifier accepts a signature only when the key accepts the octets of the base that it computes. As
equal bases agree on what they cover, a verifier that trusts its key accepts only messages that agree
with a signed one on every covered component. Limits take no part in this: a verifier with smaller
limits accepts nothing that one with larger limits rejects.

## Main definitions

* `Signing`: a call of `signHttpMessage`, with its patch
* `Trusted`: a public key accepts only octets that were signed in one of some calls

## Main results

* `verification_authentic`: **an accepted message agrees with a signed one**
* `limits_narrow`: **limits only turn outcomes into limit errors**
-/

namespace AgentSig.Core

open Commons StructuredFields

/-- A call of `signHttpMessage`, and what it returned. -/
structure Signing where
  limits : CoreLimits
  options : CanonicalizationOptions
  message : HttpMessage
  input : SignatureInput
  patch : SignatureHeaderPatch

/-- The call is one of a host with a key. -/
def Signing.By (s : Signing) (B : SigningBackend) (P : Platform) (privateKey : KeyObject) : Prop :=
  signHttpMessage B P s.limits s.options s.message s.input (some privateKey) = .ok s.patch

/-- The octets that were signed in a call. -/
def Signing.Octets (s : Signing) (P : Platform) (bytes : List UInt8) : Prop :=
  ∃ base, createSignatureBase P s.limits s.options s.message s.input = .ok base ∧ base.bytes = bytes

/-- A public key accepts octets only where they were signed in one of the calls. -/
def Trusted (B : SigningBackend) (P : Platform) (signings : Signing → Prop) (publicKey : KeyObject) :
    Prop :=
  ∀ bytes signature, B.verify bytes publicKey signature = some true →
    ∃ s, signings s ∧ s.Octets P bytes

variable {B : SigningBackend} {P : Platform} {L M : CoreLimits}
  {options options' : CanonicalizationOptions} {message message' : HttpMessage}
  {input input' : SignatureInput} {base base' : SignatureBase}

/-! ## Authenticity -/

/-- A base is written in ASCII, and its octets are those of its text. -/
theorem createSignatureBase_octets (h : createSignatureBase P L options message input = .ok base) :
    isAscii base.text ∧ base.bytes = base.text.map UInt16.toUInt8 := by
  simp only [createSignatureBase, bind_eq_ok, Prod.exists, requireAscii_eq_ok, pure_eq_ok] at h
  obtain ⟨_, -, _, -, _, _, -, _, -, text, ⟨hascii, rfl⟩, rfl⟩ := h
  exact ⟨hascii, rfl⟩

/-- Octets determine the text that they are those of. -/
theorem createSignatureBase_text (h : createSignatureBase P L options message input = .ok base)
    (h' : createSignatureBase P M options' message' input' = .ok base')
    (heq : base.bytes = base'.bytes) : base.text = base'.text := by
  obtain ⟨hascii, hbytes⟩ := createSignatureBase_octets h
  obtain ⟨hascii', hbytes'⟩ := createSignatureBase_octets h'
  apply asciiOctets_inj hascii hascii'
  rw [hbytes, hbytes'] at heq
  exact heq

/-- **An accepted message agrees with a signed one.** Where a public key accepts only octets that were
signed, a verifier that accepts a signature of a message has one of the signed messages: it was signed
with the same covered components, each has the same value in both messages, and with the same
parameters up to `-0`. Limits, options and the other parts of both messages may differ. -/
theorem verification_authentic (B : SigningBackend) (P : Platform) (M : CoreLimits)
    (options : CanonicalizationOptions) (message : HttpMessage) (signature : ParsedSignature)
    (input : SignatureInput) (privateKey publicKey : KeyObject) (signings : Signing → Prop)
    (hsignings : ∀ s, signings s → s.By B P privateKey) (htrusted : Trusted B P signings publicKey)
    (haccepted : verifyHttpSignatureCryptography B P M options message signature (some publicKey) =
      .ok (.signatureValid input)) :
    ∃ s, signings s ∧ s.patch.label = s.input.label ∧ s.input.components = input.components ∧
      canonicalParameters s.input.parameters = canonicalParameters input.parameters ∧
      ∀ c ∈ input.components, ∃ value, componentValue P M options message c = .ok value ∧
        componentValue P s.limits s.options s.message c = .ok value := by
  obtain ⟨rfl, -, -, key, base, hkey, -, -, hbase, hverified⟩ := verify_eq_valid.mp haccepted
  obtain rfl := Option.some.inj hkey
  obtain ⟨s, hs, base', hbase', hbytes⟩ := htrusted _ _ hverified
  obtain ⟨_, _, _, -, hsigned⟩ := signHttpMessage_eq_ok.mp (hsignings s hs)
  obtain ⟨hcomponents, hparameters, hvalues⟩ := createSignatureBase_lines hbase hbase'
    (createSignatureBase_text hbase hbase' hbytes.symm)
  exact ⟨s, hs, hsigned.label, hcomponents.symm, hparameters.symm, hvalues⟩

/-- The call that signs a request with `spelledInput`. -/
def exampleSigning : Signing :=
  ⟨DEFAULT_CORE_LIMITS, ⟨[]⟩, spelledRequest [textField "X-Fold" "a"], spelledInput, signedPatch⟩

/-- The octets that are signed in `exampleSigning`. -/
def exampleOctets : List UInt8 :=
  asciiOctets (ascii "\"x-fold\": a\n\"x-fold\";bs: :YQ==:\n" ++
    ascii "\"@signature-params\": (\"x-fold\" \"x-fold\";bs);created=1")

/-- A host whose keys accept the octets of `exampleSigning` only. -/
def trustedBackend : SigningBackend :=
  ⟨fun _ _ => some (List.replicate 64 0), fun bytes _ _ => some (bytes = exampleOctets)⟩

theorem verification_authentic_exampleSigning :
    ∃ value, componentValue examplePlatform DEFAULT_CORE_LIMITS ⟨[]⟩
        (spelledRequest [textField "Via" "1.1 b", textField "x-FOLD" " a"]) ⟨ascii "x-fold", []⟩ =
          .ok value ∧
      componentValue examplePlatform DEFAULT_CORE_LIMITS ⟨[]⟩ (spelledRequest [textField "X-Fold" "a"])
        ⟨ascii "x-fold", []⟩ = .ok value := by
  have hsigning : exampleSigning.By trustedBackend examplePlatform (exampleKey .privateKey) := by
    unfold Signing.By
    decide +kernel
  have hoctets : exampleSigning.Octets examplePlatform exampleOctets := by
    refine ⟨_, rfl, ?_⟩
    decide +kernel
  have haccepted : verifyHttpSignatureCryptography trustedBackend examplePlatform DEFAULT_CORE_LIMITS
      ⟨[]⟩ (spelledRequest [textField "Via" "1.1 b", textField "x-FOLD" " a"])
      ⟨spelledInput, List.replicate 64 0⟩ (some (exampleKey .publicKey)) =
        .ok (.signatureValid spelledInput) := by
    decide +kernel
  obtain ⟨s, rfl, -, -, -, hvalues⟩ := verification_authentic trustedBackend examplePlatform
    DEFAULT_CORE_LIMITS ⟨[]⟩ _ _ spelledInput (exampleKey .privateKey) (exampleKey .publicKey)
    (fun s => s = exampleSigning) (by rintro s rfl; exact hsigning)
    (fun bytes _ h => ⟨exampleSigning, rfl, of_decide_eq_true (Option.some.inj h) ▸ hoctets⟩) haccepted
  exact hvalues _ (by simp [spelledInput])

/-! ## Limits -/

/-- An exceeded limit is a limit error of the core. -/
theorem CoreLimits.Exceeded.limit {e : CoreError} (h : L.Exceeded M e) :
    ∃ name maximum observed, e = .limit name maximum observed := by
  rcases h with ⟨name, observed, rfl, -⟩ | ⟨e', ⟨name, observed, rfl, -⟩, rfl⟩
  · exact ⟨_, _, _, rfl⟩
  · exact ⟨_, _, _, rfl⟩

theorem withCrypto_narrows {α : Type} {x y : Except CoreError α} (h : Narrows (L.Exceeded M) x y) :
    Narrows (fun e => ∃ e', L.Exceeded M e' ∧ e = .core e') (withCrypto x) (withCrypto y) := by
  rcases h with rfl | ⟨e, he, rfl⟩
  · exact .refl _
  · exact .of_error ⟨e, he, rfl⟩

theorem tryVerification_narrows (B : SigningBackend) (P : Platform) (options : CanonicalizationOptions)
    (h : L.Below M) (message : HttpMessage) (signature : ParsedSignature) (key : Option KeyObject) :
    Narrows (fun e => ∃ e', L.Exceeded M e' ∧ e = .core e')
      (tryVerification B P L options message signature key)
      (tryVerification B P M options message signature key) := by
  apply Narrows.bind_right
  intro publicKey _
  apply (withCrypto_narrows (signatureInnerList_narrows h _)).bind
  intro _
  apply Narrows.bind_right
  intro _ _
  apply Narrows.ite (.refl _)
  exact (withCrypto_narrows (createSignatureBase_narrows h _)).bind_left _

/-- **Limits only turn outcomes into limit errors.** Under smaller limits, the base of a message and the
signatures of a header are as under the larger ones, with the same error where they fail, or they fail
with the error of a charge above a limit that is smaller. A verifier answers as one with larger limits,
or it rejects the signature for its limits. -/
theorem limits_narrow (B : SigningBackend) (P : Platform) (L M : CoreLimits)
    (options : CanonicalizationOptions) (h : L.Below M) :
    (∀ message input, createSignatureBase P L options message input =
        createSignatureBase P M options message input ∨
      ∃ e, L.Exceeded M e ∧ createSignatureBase P L options message input = .error e) ∧
    (∀ headers, parseSignatureHeaders L headers = parseSignatureHeaders M headers ∨
      ∃ e, L.Exceeded M e ∧ parseSignatureHeaders L headers = .error e) ∧
    ∀ message signature key, verifyHttpSignatureCryptography B P L options message signature key =
        verifyHttpSignatureCryptography B P M options message signature key ∨
      verifyHttpSignatureCryptography B P L options message signature key =
        .ok (.rejected .resourceLimit) := by
  refine ⟨fun message input => createSignatureBase_narrows h input, parseSignatureHeaders_narrows h, ?_⟩
  intro message signature key
  rw [verifyHttpSignatureCryptography, verifyHttpSignatureCryptography]
  rcases tryVerification_narrows B P options h message signature key with heq | ⟨_, ⟨e, he, rfl⟩, herror⟩
  · exact .inl (by rw [heq])
  · obtain ⟨name, maximum, observed, rfl⟩ := he.limit
    exact .inr (by rw [herror, rejectSignatureError])

/-- The default limits, but for a single signature. -/
def singleSignature : CoreLimits where
  get name := if name = .maxSignatures then 1 else DEFAULT_CORE_LIMITS.get name
  safe name := by
    split
    · decide
    · exact DEFAULT_CORE_LIMITS.safe name
  structuredFields := DEFAULT_CORE_LIMITS.structuredFields

theorem singleSignature_below : singleSignature.Below DEFAULT_CORE_LIMITS := by
  refine ⟨fun name => ?_, fun _ => le_rfl⟩
  unfold singleSignature
  dsimp only
  split
  · rename_i hname
    rw [hname]
    decide
  · exact le_rfl

theorem limits_narrow_singleSignature :
    parseSignatureHeaders singleSignature (signatureLines [firstInput] [ascii "b=:Ag==:"] []) =
        parseSignatureHeaders DEFAULT_CORE_LIMITS (signatureLines [firstInput] [ascii "b=:Ag==:"] []) ∧
      ∃ e, singleSignature.Exceeded DEFAULT_CORE_LIMITS e ∧ parseSignatureHeaders singleSignature
        (signatureLines [firstInput, secondInput] [exampleSignatures] []) = .error e := by
  obtain ⟨-, hparse, -⟩ := limits_narrow exampleBackend examplePlatform singleSignature
    DEFAULT_CORE_LIMITS ⟨[]⟩ singleSignature_below
  have hone : (parseSignatureHeaders singleSignature
      (signatureLines [firstInput] [ascii "b=:Ag==:"] [])).isOk := by
    decide +kernel
  have htwo : ¬ (parseSignatureHeaders singleSignature
      (signatureLines [firstInput, secondInput] [exampleSignatures] [])).isOk := by
    decide +kernel
  have htwo' : (parseSignatureHeaders DEFAULT_CORE_LIMITS
      (signatureLines [firstInput, secondInput] [exampleSignatures] [])).isOk := by
    decide +kernel
  constructor
  · rcases hparse (signatureLines [firstInput] [ascii "b=:Ag==:"] []) with h | ⟨e, -, h⟩
    · exact h
    · rw [h] at hone
      cases hone
  · rcases hparse (signatureLines [firstInput, secondInput] [exampleSignatures] []) with h | h
    · rw [h] at htwo
      exact absurd htwo' htwo
    · exact h

end AgentSig.Core
