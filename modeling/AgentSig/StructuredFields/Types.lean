import AgentSig.Commons.OrderedMap
import AgentSig.Commons.Unicode
import AgentSig.StructuredFields.Limits

/-!
# The semantic model of structured fields

Fields as their parsed values: items, lists and dictionaries, with inner lists and
parameters. `canonical` identifies `-0` with `0`, the one distinction the wire form loses.

## Main definitions

* `BareItem`, `Item`, `InnerList`, `Member`, `Field`, `FieldType`
* `Field.canonical`: a field with every `-0` replaced by `0`
* `Field.lastWins`: occurrences of keys resolved to ordered maps
* `Field.Within L`: what a field charges against `L` is within `L`
-/

namespace AgentSig.StructuredFields

open Commons

/-- A bare item. -/
inductive BareItem
  | integer (value : Number)
  | decimal (thousandths : Number)
  | string (value : Text)
  | token (value : Text)
  | bytes (value : List UInt8)
  | boolean (value : Bool)
  | date (epochSeconds : Number)
  | displayString (value : Text)
  deriving DecidableEq, Repr

/-- The type of a field. -/
inductive FieldType
  | item
  | list
  | dictionary
  deriving DecidableEq, Repr

/-- Parameters, in order. -/
abbrev Parameters := List (Text × BareItem)

/-- An item. -/
structure Item where
  bare : BareItem
  parameters : Parameters
  deriving DecidableEq, Repr

/-- An inner list. -/
structure InnerList where
  items : List Item
  parameters : Parameters
  deriving DecidableEq, Repr

/-- A member of a list or of a dictionary. -/
inductive Member
  | item (item : Item)
  | innerList (list : InnerList)
  deriving DecidableEq, Repr

/-- A field. -/
inductive Field
  | item (item : Item)
  | list (members : List Member)
  | dictionary (entries : List (Text × Member))
  deriving DecidableEq, Repr

/-- The type of a field. -/
def Field.type : Field → FieldType
  | .item _ => .item
  | .list _ => .list
  | .dictionary _ => .dictionary

/-- `getParameter`. -/
def getParameter (parameters : Parameters) (key : Text) : Option BareItem :=
  OrderedMap.lookup parameters key

/-- `getMember`. -/
def getMember (entries : List (Text × Member)) (key : Text) : Option Member :=
  OrderedMap.lookup entries key

/-! ## Values up to `-0` -/

/-- A number with `-0` replaced by `0`. -/
def Number.canonical : Number → Number
  | .negativeZero => .integer 0
  | n => n

/-- A bare item with `-0` replaced by `0`. -/
def BareItem.canonical : BareItem → BareItem
  | .integer n => .integer n.canonical
  | .decimal n => .decimal n.canonical
  | .date n => .date n.canonical
  | b => b

/-- Parameters with `-0` replaced by `0`. -/
def canonicalParameters (ps : Parameters) : Parameters := ps.map fun p => (p.1, p.2.canonical)

/-- An item with `-0` replaced by `0`. -/
def Item.canonical (i : Item) : Item := ⟨i.bare.canonical, canonicalParameters i.parameters⟩

/-- An inner list with `-0` replaced by `0`. -/
def InnerList.canonical (l : InnerList) : InnerList :=
  ⟨l.items.map Item.canonical, canonicalParameters l.parameters⟩

/-- A member with `-0` replaced by `0`. -/
def Member.canonical : Member → Member
  | .item i => .item i.canonical
  | .innerList l => .innerList l.canonical

/-- A field with `-0` replaced by `0`. -/
def Field.canonical : Field → Field
  | .item i => .item i.canonical
  | .list ms => .list (ms.map Member.canonical)
  | .dictionary es => .dictionary (es.map fun e => (e.1, e.2.canonical))

@[simp] theorem keys_canonicalParameters (ps : Parameters) :
    (canonicalParameters ps).map (·.1) = ps.map (·.1) := by
  simp [canonicalParameters]

/-! ## Repeated keys

A text may repeat a key. Its occurrences are kept in the same types, and `lastWins` resolves
them: a key keeps its first position and takes its last value (RFC 9651, Sections 4.2.2 and
4.2.3.2). -/

/-- The item of an occurrence. -/
def Item.lastWins (i : Item) : Item := ⟨i.bare, OrderedMap.lastWins i.parameters⟩

/-- The inner list of an occurrence. -/
def InnerList.lastWins (l : InnerList) : InnerList :=
  ⟨l.items.map Item.lastWins, OrderedMap.lastWins l.parameters⟩

/-- The member of an occurrence. -/
def Member.lastWins : Member → Member
  | .item i => .item i.lastWins
  | .innerList l => .innerList l.lastWins

/-- The field of its occurrences. -/
def Field.lastWins : Field → Field
  | .item i => .item i.lastWins
  | .list ms => .list (ms.map Member.lastWins)
  | .dictionary es => .dictionary ((OrderedMap.lastWins es).map fun e => (e.1, e.2.lastWins))

/-! ## Charges

What parsing or serializing a value charges against each limit. -/

/-- The UTF-8 octets of a text, counted. -/
def utf8Length (t : Text) : ℕ := (utf8Encode (characters t)).length

/-- What a bare item charges is within `L`. -/
def BareItem.Within (L : Limits) : BareItem → Prop
  | .string t => t.length ≤ L.get .maxDecodedBytes
  | .token t => t.length ≤ L.get .maxTokenLength
  | .bytes bs => bs.length ≤ L.get .maxDecodedBytes
  | .displayString t => utf8Length t ≤ L.get .maxDecodedBytes
  | _ => True

/-- What parameters charge is within `L`. -/
def ParametersWithin (L : Limits) (ps : Parameters) : Prop :=
  ps.length ≤ L.get .maxParameters ∧
    ∀ p ∈ ps, p.1.length ≤ L.get .maxKeyLength ∧ p.2.Within L

/-- What an item charges is within `L`. -/
def Item.Within (L : Limits) (i : Item) : Prop :=
  i.bare.Within L ∧ ParametersWithin L i.parameters

/-- What an inner list charges is within `L`. -/
def InnerList.Within (L : Limits) (l : InnerList) : Prop :=
  l.items.length ≤ L.get .maxInnerListItems ∧ (∀ i ∈ l.items, i.Within L) ∧
    ParametersWithin L l.parameters

/-- What a member charges is within `L`. -/
def Member.Within (L : Limits) : Member → Prop
  | .item i => i.Within L
  | .innerList l => l.Within L

/-- The occurrences of an item: itself and its parameters. -/
def Item.occurrences (i : Item) : ℕ := 1 + i.parameters.length

/-- The occurrences of an inner list: itself, its items and its parameters. -/
def InnerList.occurrences (l : InnerList) : ℕ :=
  1 + (l.items.map Item.occurrences).sum + l.parameters.length

/-- The occurrences of a member. -/
def Member.occurrences : Member → ℕ
  | .item i => i.occurrences
  | .innerList l => l.occurrences

/-- The occurrences of a field; a dictionary key belongs to its member. -/
def Field.occurrences : Field → ℕ
  | .item i => i.occurrences
  | .list ms => (ms.map Member.occurrences).sum
  | .dictionary es => (es.map fun e => e.2.occurrences).sum

/-- What a field charges is within `L`. -/
def Field.Within (L : Limits) (f : Field) : Prop :=
  f.occurrences ≤ L.get .maxTotalOccurrences ∧
  match f with
  | .item i => i.Within L
  | .list ms => ms.length ≤ L.get .maxMembers ∧ ∀ m ∈ ms, m.Within L
  | .dictionary es => es.length ≤ L.get .maxMembers ∧
      ∀ e ∈ es, e.1.length ≤ L.get .maxKeyLength ∧ e.2.Within L

end AgentSig.StructuredFields
