import AgentSig.Commons.JsonText
import AgentSig.Commons.Outcome
import AgentSig.Profiles.Metadata
import Mathlib.Data.FinEnum

/-!
# Public keys of a set

The material of one key of a set: the members that its type requires, which are checked, imported by the
cryptographic backend and compared with what the backend exports, and the RFC 7638 thumbprint of these
members alone.

## Main definitions

* `JwksHost`: what the host provides, the backend and the hash function among it
* `inspectPublicJwk`: the checked material of a key
* `canonicalMembers`: the text that is hashed

## Main results

* `inspectPublicJwk_eq_ok`: the steps of a successful inspection
* `ed25519_of_selectable`, `selectable_of_ed25519`: the selectable keys are the Ed25519 keys
* `canonicalOctets_ed25519_inj`: the octets that are hashed determine the key
-/

namespace AgentSig.Profiles

open Commons

/-- An object of a key set: a snapshot, whose own members are all it has. -/
abbrev JwkRecord := List (Text × JsonValue)

/-- An own member; members that are read have no inherited namesakes. -/
def JwkRecord.own (key : JwkRecord) (name : String) : Option JsonValue := OrderedMap.lookup key (ascii name)

/-- A key that the backend imported: `type`, `asymmetricKeyType`, its export and its public octets. -/
structure ImportedKey where
  type : Text
  asymmetricKeyType : Text
  exported : List (Text × Text)
  octets : List UInt8
  deriving DecidableEq, Repr

/-- What the host provides: the digits of numbers, `createPublicKey` of the members of a key, which throws
or returns a key, and SHA-256. -/
structure JwksHost where
  format : NumberFormat
  createPublicKey : List (Text × Text) → Option ImportedKey
  sha256 : List UInt8 → List UInt8

/-- `PublicJwkMaterial`. -/
structure PublicJwkMaterial where
  kty : Text
  curve : Option Text
  thumbprint : Text
  publicKey : ImportedKey
  selectable : Bool
  mandatory : List (Text × Text)
  deriving DecidableEq, Repr

/-- `required`. -/
def required (key : JwkRecord) (name : String) : Except String Text :=
  match key.own name with
  | some (.text value) => .ok value
  | _ => .error (name ++ " must be a present string")

/-- `decode`. -/
def decode (value : Text) (size : Option ℕ) : Except String (List UInt8) := do
  require (value.length ≠ 0 ∧ value.all base64UrlChar ∧
      ∀ n ∈ size, value.length = (n * 4 + 2) / 3)
    "public component must use unpadded base64url with the required curve length"
  let bytes := (Base64.urlDecode value).getD []
  require (bytes.length ≠ 0 ∧ (∀ n ∈ size, bytes.length = n) ∧ Base64.urlEncode bytes = value)
    "public component must have canonical base64url encoding and the required length"
  return bytes

/-- The recognized curves of octet keys, the octets of a key and the type in the backend. -/
def okpShapes : List (Text × ℕ × Text) :=
  [(ascii "Ed25519", 32, ascii "ed25519"), (ascii "Ed448", 57, ascii "ed448"),
    (ascii "X25519", 32, ascii "x25519"), (ascii "X448", 56, ascii "x448")]

/-- The recognized elliptic curves and the octets of a coordinate. -/
def ecWidths : List (Text × ℕ) := [(ascii "P-256", 32), (ascii "P-384", 48), (ascii "P-521", 66)]

/-- The last octet of a component is odd. -/
def oddOctets (bytes : List UInt8) : Bool := (bytes.getLast?.getD 0) % 2 == 1

/-- What the type of a key requires: the curve, the type in the backend and the mandatory members. -/
structure JwkShape where
  curve : Option Text
  backendType : Text
  mandatory : List (Text × Text)
  deriving DecidableEq, Repr

/-- The part of `inspectPublicJwk` for the types of keys. -/
def inspectShape (key : JwkRecord) (kty : Text) : Except String JwkShape :=
  if kty = ascii "OKP" then do
    let curve ← required key "crv"
    let some (size, backendType) := OrderedMap.lookup okpShapes curve
      | .error "OKP crv must identify a recognized OKP curve"
    let x ← required key "x"
    let _ ← decode x (some size)
    return ⟨some curve, backendType, [(ascii "crv", curve), (ascii "kty", kty), (ascii "x", x)]⟩
  else if kty = ascii "EC" then do
    let curve ← required key "crv"
    let some width := OrderedMap.lookup ecWidths curve
      | .error "EC crv must identify a recognized EC curve"
    let x ← required key "x"
    let y ← required key "y"
    let _ ← decode x (some width)
    let _ ← decode y (some width)
    return ⟨some curve, ascii "ec",
      [(ascii "crv", curve), (ascii "kty", kty), (ascii "x", x), (ascii "y", y)]⟩
  else if kty = ascii "RSA" then do
    let n ← required key "n"
    let e ← required key "e"
    let modulus ← decode n none
    let exponent ← decode e none
    require (¬ (modulus.head? = some 0 ∨ exponent.head? = some 0 ∨ ¬ oddOctets modulus ∨
        ¬ oddOctets exponent ∨ (exponent.length = 1 ∧ ∀ b ∈ exponent.head?, b < 3)))
      "RSA n and e must be minimal nonzero odd unsigned integers, with e at least 3"
    return ⟨none, ascii "rsa", [(ascii "e", e), (ascii "kty", kty), (ascii "n", n)]⟩
  else .error "kty must identify a recognized public key type with defined thumbprint members"

/-- The members that no public key has. -/
def privateMembers : List String := ["d", "p", "q", "dp", "dq", "qi", "oth", "k"]

/-- `JSON.stringify` of the mandatory members. -/
def canonicalMembers (host : JwksHost) (mandatory : List (Text × Text)) : Text :=
  stringify host.format (.object (mandatory.map fun m => (m.1, .text m.2)))

/-- The octets that are hashed. -/
def canonicalOctets (host : JwksHost) (mandatory : List (Text × Text)) : List UInt8 :=
  utf8Encode (characters (canonicalMembers host mandatory))

/-- The RFC 7638 thumbprint of the mandatory members. -/
def thumbprintOf (host : JwksHost) (mandatory : List (Text × Text)) : Text :=
  Base64.urlEncode (host.sha256 (canonicalOctets host mandatory))

/-- `inspectPublicJwk`. -/
def inspectPublicJwk (host : JwksHost) (key : JwkRecord) : Except String PublicJwkMaterial := do
  require (∀ name ∈ privateMembers, (key.own name).isNone)
    "public JWKS must not contain private or symmetric key material"
  let kty ← required key "kty"
  let shape ← inspectShape key kty
  let some publicKey := host.createPublicKey shape.mandatory
    | .error "public key material must be importable by the crypto backend"
  require (publicKey.type = ascii "public" ∧ publicKey.asymmetricKeyType = shape.backendType)
    "imported public key type must match kty and crv"
  require (∀ m ∈ shape.mandatory, OrderedMap.lookup publicKey.exported m.1 = some m.2)
    "public key components must round-trip without normalization"
  return ⟨kty, shape.curve, thumbprintOf host shape.mandatory, publicKey,
    kty = ascii "OKP" ∧ shape.curve = some (ascii "Ed25519"), shape.mandatory⟩

/-! ## Ed25519 keys -/

/-- The mandatory members of an Ed25519 key. -/
def ed25519Members (x : Text) : List (Text × Text) :=
  [(ascii "crv", ascii "Ed25519"), (ascii "kty", ascii "OKP"), (ascii "x", x)]

/-- A key of the type and the curve of Ed25519 keys, with a public component. -/
structure Ed25519Entry (key : JwkRecord) (x : Text) : Prop where
  kty : key.own "kty" = some (.text (ascii "OKP"))
  crv : key.own "crv" = some (.text (ascii "Ed25519"))
  x : key.own "x" = some (.text x)

variable {host : JwksHost} {key : JwkRecord} {material : PublicJwkMaterial}

theorem required_eq_ok {name : String} {value : Text} :
    required key name = .ok value ↔ key.own name = some (.text value) := by
  unfold required
  split
  · rename_i hown
    rw [hown]
    simp
  · rename_i hnot
    simp only [reduceCtorEq, false_iff]
    exact fun heq => hnot value heq

theorem inspectPublicJwk_eq_ok : inspectPublicJwk host key = .ok material ↔
    (∀ name ∈ privateMembers, (key.own name).isNone) ∧ ∃ kty shape publicKey,
      key.own "kty" = some (.text kty) ∧ inspectShape key kty = .ok shape ∧
      host.createPublicKey shape.mandatory = some publicKey ∧
      (publicKey.type = ascii "public" ∧ publicKey.asymmetricKeyType = shape.backendType) ∧
      (∀ m ∈ shape.mandatory, OrderedMap.lookup publicKey.exported m.1 = some m.2) ∧
      material = ⟨kty, shape.curve, thumbprintOf host shape.mandatory, publicKey,
        kty = ascii "OKP" ∧ shape.curve = some (ascii "Ed25519"), shape.mandatory⟩ := by
  simp only [inspectPublicJwk, bind_eq_ok, require_eq_ok, exists_const, required_eq_ok]
  refine and_congr_right fun _ => ?_
  constructor
  · rintro ⟨kty, hkty, shape, hshape, h⟩
    cases hkey : host.createPublicKey shape.mandatory with
    | none =>
      rw [hkey] at h
      cases h
    | some publicKey =>
      rw [hkey] at h
      simp only [bind_eq_ok, require_eq_ok, exists_const, pure_eq_ok] at h
      exact ⟨kty, shape, publicKey, hkty, hshape, hkey, h.1, h.2.1, h.2.2.symm⟩
  · rintro ⟨kty, shape, publicKey, hkty, hshape, hkey, htype, hexport, rfl⟩
    refine ⟨kty, hkty, shape, hshape, ?_⟩
    rw [hkey]
    simp only [bind_eq_ok, require_eq_ok, exists_const, pure_eq_ok]
    exact ⟨htype, hexport, trivial⟩

/-- The shape of a key with the curve of Ed25519 keys is the one of its mandatory members. -/
theorem inspectShape_ed25519 {shape : JwkShape} (h : inspectShape key (ascii "OKP") = .ok shape)
    (hcurve : shape.curve = some (ascii "Ed25519")) :
    key.own "crv" = some (.text (ascii "Ed25519")) ∧
      ∃ x, key.own "x" = some (.text x) ∧ shape.mandatory = ed25519Members x := by
  rw [inspectShape, if_pos rfl] at h
  obtain ⟨curve, hcrv, h⟩ := bind_eq_ok.mp h
  split at h
  · obtain ⟨x, hx, h⟩ := bind_eq_ok.mp h
    obtain ⟨bytes, -, h⟩ := bind_eq_ok.mp h
    obtain rfl := pure_eq_ok.mp h
    obtain rfl := Option.some.inj hcurve
    exact ⟨required_eq_ok.mp hcrv, x, required_eq_ok.mp hx, rfl⟩
  · cases h

/-- A selectable key is an Ed25519 key, and its material is the one of its mandatory members. -/
theorem ed25519_of_selectable (h : inspectPublicJwk host key = .ok material)
    (hselectable : material.selectable) : ∃ x, Ed25519Entry key x ∧
      material.thumbprint = thumbprintOf host (ed25519Members x) ∧
      host.createPublicKey (ed25519Members x) = some material.publicKey := by
  obtain ⟨-, kty, shape, publicKey, hkty, hshape, hkey, -, -, rfl⟩ := inspectPublicJwk_eq_ok.mp h
  obtain ⟨rfl, hcurve⟩ := decide_eq_true_eq.mp hselectable
  obtain ⟨hcrv, x, hx, hmandatory⟩ := inspectShape_ed25519 hshape hcurve
  rw [hmandatory] at hkey
  exact ⟨x, ⟨hkty, hcrv, hx⟩, by rw [hmandatory], hkey⟩

/-- An Ed25519 key that was inspected is selectable. -/
theorem selectable_of_ed25519 {x : Text} (h : inspectPublicJwk host key = .ok material)
    (hentry : Ed25519Entry key x) : material.selectable := by
  obtain ⟨-, kty, shape, publicKey, hkty, hshape, -, -, -, rfl⟩ := inspectPublicJwk_eq_ok.mp h
  obtain rfl : kty = ascii "OKP" := by
    have heq := hkty.symm.trans hentry.kty
    simpa using heq
  rw [inspectShape, if_pos rfl] at hshape
  obtain ⟨curve, hcrv, hshape⟩ := bind_eq_ok.mp hshape
  obtain rfl : curve = ascii "Ed25519" := by
    have heq := (required_eq_ok.mp hcrv).symm.trans hentry.crv
    simpa using heq
  split at hshape
  · obtain ⟨x', -, hshape⟩ := bind_eq_ok.mp hshape
    obtain ⟨bytes, -, hshape⟩ := bind_eq_ok.mp hshape
    obtain rfl := pure_eq_ok.mp hshape
    rw [decide_eq_true_eq]
    exact ⟨rfl, rfl⟩
  · cases hshape

theorem Ed25519Entry.unique {x x' : Text} (h : Ed25519Entry key x) (h' : Ed25519Entry key x') :
    x = x' := by
  have heq := h.x.symm.trans h'.x
  simpa using heq

/-! ## Thumbprints -/

/-- The octets that are hashed determine the public component. -/
theorem canonicalOctets_ed25519_inj {x x' : Text}
    (h : canonicalOctets host (ed25519Members x) = canonicalOctets host (ed25519Members x')) :
    x = x' := by
  have hproper : ∀ x, (JsonValue.object ((ed25519Members x).map fun m => (m.1, .text m.2))).Proper :=
    fun x => ⟨(by decide : [ascii "crv", ascii "kty", ascii "x"].Nodup), trivial, trivial, trivial, trivial⟩
  have hcharacters : characters (canonicalMembers host (ed25519Members x)) =
      characters (canonicalMembers host (ed25519Members x')) := by
    have hdecode := congrArg utf8Decode h
    rw [canonicalOctets, canonicalOctets, utf8Decode_utf8Encode, utf8Decode_utf8Encode] at hdecode
    exact Option.some.inj hdecode
  have htext := congrArg units hcharacters
  rw [canonicalMembers, canonicalMembers, units_characters (wellFormed_stringify _ _),
    units_characters (wellFormed_stringify _ _)] at htext
  have hparse := congrArg jsonParse htext
  rw [jsonParse_stringify host.format (hproper x), jsonParse_stringify host.format (hproper x')] at hparse
  simpa [ed25519Members, JsonValue.unsigned, JsonValue.unsignedMembers] using hparse

end AgentSig.Profiles
