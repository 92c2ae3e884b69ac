import AgentSig.Commons.OrderedMap
import AgentSig.Core.Uri
import Mathlib.Data.Rat.Defs

/-!
# Mapped requests

What the mapping of a request to a server returns, and the plain data that results are copied as.

## Main definitions

* `HttpMappingErrorCode`: the reasons of a rejected mapping
* `MappedHttpRequest`, `HttpMappingResult`: the result of a mapping
* `Item`: a value of the language, as far as a copy can tell values apart
* `ownedCopy`: the copy of plain data, within a budget

## Main results

* `get_text_visit`: a copy has the texts of the original
* `get_visit`: a property of a copied object is a copy of the property
-/

namespace AgentSig.Http

open Commons Core

/-- `HttpMappingErrorCode`. -/
inductive HttpMappingErrorCode
  | captureMissing
  | captureIncomplete
  | http2Unsupported
  | requestUnsupported
  | requestMalformed
  | headersMalformed
  | hostMissing
  | hostAmbiguous
  | ingressPeerUntrusted
  | ingressHttpsRequired
  | forwardingMissing
  | forwardingMalformed
  | forwardingChainRejected
  | forwardingFamiliesMixed
  | forwardingPortInconsistent
  | originDisallowed
  | resourceLimit
  deriving DecidableEq, Repr

/-- The text of a code. -/
def HttpMappingErrorCode.text : HttpMappingErrorCode → Text
  | .captureMissing => ascii "capture-missing"
  | .captureIncomplete => ascii "capture-incomplete"
  | .http2Unsupported => ascii "http2-unsupported"
  | .requestUnsupported => ascii "request-unsupported"
  | .requestMalformed => ascii "request-malformed"
  | .headersMalformed => ascii "headers-malformed"
  | .hostMissing => ascii "host-missing"
  | .hostAmbiguous => ascii "host-ambiguous"
  | .ingressPeerUntrusted => ascii "ingress-peer-untrusted"
  | .ingressHttpsRequired => ascii "ingress-https-required"
  | .forwardingMissing => ascii "forwarding-missing"
  | .forwardingMalformed => ascii "forwarding-malformed"
  | .forwardingChainRejected => ascii "forwarding-chain-rejected"
  | .forwardingFamiliesMixed => ascii "forwarding-families-mixed"
  | .forwardingPortInconsistent => ascii "forwarding-port-inconsistent"
  | .originDisallowed => ascii "origin-disallowed"
  | .resourceLimit => ascii "resource-limit"

/-- The mode of an ingress. -/
inductive IngressMode
  | direct
  | trustedIngress
  deriving DecidableEq, Repr

/-- The text of a mode. -/
def IngressMode.text : IngressMode → Text
  | .direct => ascii "direct"
  | .trustedIngress => ascii "trusted-ingress"

/-- `kind` of an `ObservedClient`. -/
inductive ClientKind
  | ip
  | unknown
  | obfuscated
  deriving DecidableEq, Repr

/-- The text of a kind. -/
def ClientKind.text : ClientKind → Text
  | .ip => ascii "ip"
  | .unknown => ascii "unknown"
  | .obfuscated => ascii "obfuscated"

/-- `ObservedClient`, without its constant fields. -/
structure ObservedClient where
  kind : ClientKind
  address : Text
  port : Option Text
  deriving DecidableEq, Repr

/-- `MappedHttpRequest`. -/
structure MappedHttpRequest where
  request : RequestParts
  targetSource : IngressMode
  internalAuthority : Text
  bodyPresent : Bool
  observedClient : Option ObservedClient
  deriving DecidableEq, Repr

/-- `HttpMappingResult`. -/
inductive HttpMappingResult
  | mapped (mapping : MappedHttpRequest)
  | rejected (code : HttpMappingErrorCode)
  deriving DecidableEq, Repr

/-! ## Plain data -/

/-- An own property: an index of an array, or any other string. -/
inductive ItemKey
  | index (n : ℕ)
  | name (t : Text)
  deriving DecidableEq, Repr

/-- The length of a key. -/
def ItemKey.length : ItemKey → ℕ
  | .index n => (Nat.toDigits 10 n).length
  | .name t => t.length

/-- A value, with its own enumerable properties. Whatever a copy refuses by itself is foreign: a number
that is not finite, a function, an instance of another class, an accessor, or an object inside itself. -/
inductive Item
  | null
  | undefined
  | boolean (value : Bool)
  | text (value : Text)
  | number (value : ℚ)
  | bytes (value : List UInt8)
  | array (length : ℕ) (properties : List (ItemKey × Item))
  | object (properties : List (ItemKey × Item))
  | foreign

namespace Item

/-- `charge`. -/
def charge (remaining size : ℕ) : Option ℕ :=
  if size ≤ remaining then some (remaining - size) else none

/-- The length of an array that was filled by its indices. -/
def filledLength (properties : List (ItemKey × Item)) : ℕ :=
  properties.foldl (fun length e =>
    match e.1 with
    | .index n => max length (n + 1)
    | .name _ => length) 0

mutual

/-- `visit`: the copy of a value, and what remains of the budget. -/
def visit : Item → ℕ → ℕ → Option (Item × ℕ)
  | item, depth, remaining =>
    if 32 < depth then none
    else match item with
      | .null => (charge remaining 8).map fun remaining => (.null, remaining)
      | .undefined => (charge remaining 8).map fun remaining => (.undefined, remaining)
      | .boolean b => (charge remaining 8).map fun remaining => (.boolean b, remaining)
      | .text t => (charge remaining (t.length * 2 + 8)).map fun remaining => (.text t, remaining)
      | .number x => (charge remaining 8).map fun remaining => (.number x, remaining)
      | .bytes bs => do
        let remaining ← charge remaining 32
        let remaining ← charge remaining bs.length
        return (.bytes bs, remaining)
      | .array length properties => do
        let remaining ← charge remaining 32
        if remaining < length * 8 then none
        else
          let (copied, remaining) ← visitAll properties depth remaining
          return (.array (filledLength copied) copied, remaining)
      | .object properties => do
        let remaining ← charge remaining 32
        let (copied, remaining) ← visitAll properties depth remaining
        return (.object copied, remaining)
      | .foreign => none

/-- The loop of `visit` over the properties. -/
def visitAll : List (ItemKey × Item) → ℕ → ℕ → Option (List (ItemKey × Item) × ℕ)
  | [], _, remaining => some ([], remaining)
  | (key, item) :: rest, depth, remaining => do
    let remaining ← charge remaining (key.length * 2 + 16)
    let (copied, remaining) ← visit item (depth + 1) remaining
    let (properties, remaining) ← visitAll rest depth remaining
    return ((key, copied) :: properties, remaining)

end

/-- `ownedCopy`. -/
def ownedCopy (item : Item) : Option Item := (visit item 0 1048576).map Prod.fst

/-- The value of a property. -/
def get (item : Item) (name : Text) : Item :=
  match item with
  | .object properties | .array _ properties =>
    (OrderedMap.lookup properties (.name name)).getD .undefined
  | _ => .undefined

/-- Whether a value is a text. -/
def isText (item : Item) (t : Text) : Bool :=
  match item with
  | .text t' => t' = t
  | _ => false

theorem isText_iff {item : Item} {t : Text} : item.isText t ↔ item = .text t := by
  cases item <;> simp [isText]

/-- `Array.isArray`. -/
def isArray : Item → Bool
  | .array _ _ => true
  | _ => false

/-! ## Texts of copies -/

variable {item copy : Item} {properties copied : List (ItemKey × Item)}
  {depth remaining left : ℕ} {t : Text}

theorem visit_text (h : visit item depth remaining = some (copy, left)) :
    copy = .text t ↔ item = .text t := by
  unfold visit at h
  split at h
  · simp at h
  · cases item with
    | null | undefined | boolean | number | text =>
      obtain ⟨_, -, heq⟩ := Option.map_eq_some_iff.mp h
      obtain ⟨rfl, -⟩ := Prod.mk.inj heq
      simp
    | bytes | object =>
      simp only [Option.bind_eq_bind, Option.bind_eq_some_iff, Option.pure_def, Option.some.injEq,
        Prod.mk.injEq] at h
      obtain ⟨_, -, _, -, rfl, -⟩ := h
      simp
    | array =>
      simp only [Option.bind_eq_bind, Option.bind_eq_some_iff] at h
      obtain ⟨_, -, h⟩ := h
      split at h
      · simp at h
      · simp only [Option.bind_eq_some_iff, Option.pure_def, Option.some.injEq, Prod.mk.injEq] at h
        obtain ⟨_, -, rfl, -⟩ := h
        simp
    | foreign => simp at h

/-- A copy has a copy of each property. -/
theorem visitAll_lookup (key : ItemKey)
    (h : visitAll properties depth remaining = some (copied, left)) :
    match OrderedMap.lookup properties key with
    | none => OrderedMap.lookup copied key = none
    | some item => ∃ copy r l, OrderedMap.lookup copied key = some copy ∧
        visit item (depth + 1) r = some (copy, l) := by
  induction properties generalizing remaining copied left with
  | nil =>
    obtain ⟨rfl, -⟩ := Prod.mk.inj (Option.some.inj h)
    rfl
  | cons e rest ih =>
    obtain ⟨key', item⟩ := e
    unfold visitAll at h
    simp only [Option.bind_eq_bind, Option.bind_eq_some_iff, Option.pure_def, Option.some.injEq,
      Prod.mk.injEq] at h
    obtain ⟨r, -, ⟨copy, l⟩, hcopy, ⟨copies, _⟩, hcopies, rfl, -⟩ := h
    rw [OrderedMap.lookup_cons, OrderedMap.lookup_cons]
    by_cases hkey : key' = key
    · simp only [if_pos hkey]
      exact ⟨copy, r, l, rfl, hcopy⟩
    · simp only [if_neg hkey]
      exact ih hcopies

/-- A copy of an object is one, with copied properties. -/
theorem visit_object (h : visit (.object properties) depth remaining = some (copy, left)) :
    ∃ qs r l, copy = .object qs ∧ visitAll properties depth r = some (qs, l) := by
  unfold visit at h
  split at h
  · simp at h
  · simp only [Option.bind_eq_bind, Option.bind_eq_some_iff, Option.pure_def, Option.some.injEq,
      Prod.mk.injEq] at h
    obtain ⟨r, -, ⟨qs, l⟩, hall, rfl, -⟩ := h
    exact ⟨qs, r, l, rfl, hall⟩

/-- A copy of an object or an array is one, with copied properties. -/
theorem visit_properties (h : visit item depth remaining = some (copy, left)) :
    (∃ ps qs r l, item = .object ps ∧ copy = .object qs ∧ visitAll ps depth r = some (qs, l)) ∨
      (∃ n m ps qs r l, item = .array n ps ∧ copy = .array m qs ∧
        visitAll ps depth r = some (qs, l)) ∨
      ∀ name, item.get name = .undefined ∧ copy.get name = .undefined := by
  cases item with
  | object ps =>
    obtain ⟨qs, r, l, rfl, hall⟩ := visit_object h
    exact .inl ⟨ps, qs, r, l, rfl, rfl, hall⟩
  | array n ps =>
    unfold visit at h
    split at h
    · simp at h
    · simp only [Option.bind_eq_bind, Option.bind_eq_some_iff] at h
      obtain ⟨r, -, h⟩ := h
      split at h
      · simp at h
      · simp only [Option.bind_eq_some_iff, Option.pure_def, Option.some.injEq, Prod.mk.injEq] at h
        obtain ⟨⟨qs, l⟩, hall, rfl, -⟩ := h
        exact .inr (.inl ⟨n, _, ps, qs, r, l, rfl, rfl, hall⟩)
  | null | undefined | boolean | number | text =>
    unfold visit at h
    split at h
    · simp at h
    · obtain ⟨_, -, heq⟩ := Option.map_eq_some_iff.mp h
      obtain ⟨rfl, -⟩ := Prod.mk.inj heq
      exact .inr (.inr fun name => ⟨rfl, rfl⟩)
  | bytes =>
    unfold visit at h
    split at h
    · simp at h
    · simp only [Option.bind_eq_bind, Option.bind_eq_some_iff, Option.pure_def, Option.some.injEq,
        Prod.mk.injEq] at h
      obtain ⟨_, -, _, -, rfl, -⟩ := h
      exact .inr (.inr fun name => ⟨rfl, rfl⟩)
  | foreign =>
    unfold visit at h
    split at h
    · simp at h
    · simp at h

/-- A copy has the texts of the original. -/
theorem get_text_visit {name : Text} (h : visit item depth remaining = some (copy, left)) :
    copy.get name = .text t ↔ item.get name = .text t := by
  have htexts {ps qs : List (ItemKey × Item)} {r l : ℕ} (hall : visitAll ps depth r = some (qs, l)) :
      (OrderedMap.lookup qs (.name name)).getD .undefined = .text t ↔
        (OrderedMap.lookup ps (.name name)).getD .undefined = .text t := by
    have hlookup := visitAll_lookup (.name name) hall
    split at hlookup
    · rename_i hnone
      rw [hnone, hlookup]
    · rename_i hsome
      obtain ⟨copy, r', l', hcopy, hvisit⟩ := hlookup
      rw [hsome, hcopy]
      exact visit_text hvisit
  rcases visit_properties h with ⟨ps, qs, r, l, rfl, rfl, hall⟩ | ⟨n, m, ps, qs, r, l, rfl, rfl, hall⟩ |
    hnone
  · exact htexts hall
  · exact htexts hall
  · rw [(hnone name).1, (hnone name).2]

/-- A property of a copied object is a copy of the property. -/
theorem get_visit {name : Text}
    (h : visit (.object properties) depth remaining = some (copy, left))
    (hitem : OrderedMap.lookup properties (.name name) = some item) :
    ∃ r l, visit item (depth + 1) r = some (copy.get name, l) := by
  obtain ⟨qs, r, l, rfl, hall⟩ := visit_object h
  have hlookup := visitAll_lookup (.name name) hall
  rw [hitem] at hlookup
  obtain ⟨copy, r', l', hcopy, hvisit⟩ := hlookup
  exact ⟨r', l', by simpa only [get, hcopy, Option.getD_some] using hvisit⟩

end Item

end AgentSig.Http
