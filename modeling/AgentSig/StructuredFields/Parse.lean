import AgentSig.StructuredFields.Parser

/-!
# The semantic parser

`parse` resolves the occurrences of a raw document: a repeated key keeps its position and
takes its last value. What a raw document says before that resolution is its occurrences, in
the types of the semantic model.

## Main definitions

* `semantic`: the field of a raw root
* `RawField.occurrences`: the occurrences of a raw root, spans and spelling dropped
* `parse`: the field of an input

## Main results

* `semantic_eq_lastWins`: the field of a raw root is its occurrences resolved
-/

namespace AgentSig.StructuredFields

open Commons

/-- `bare?.value ?? { kind: "boolean", value: true }`. -/
def bareValue (bare : Option RawBareItem) : BareItem := (bare.map (·.value)).getD (.boolean true)

namespace Semantic

/-- `parameters` of the semantic conversion. -/
def parameters (raw : List RawParameter) : Parameters :=
  raw.foldl (fun values parameter => OrderedMap.set values parameter.key (bareValue parameter.bare)) []

/-- `item` of the semantic conversion. -/
def item (raw : RawItem) : Item := ⟨bareValue raw.bare, parameters raw.parameters⟩

/-- `member` of the semantic conversion. -/
def member : RawMember → Member
  | .item raw => .item (item raw)
  | .innerList raw => .innerList ⟨raw.items.map item, parameters raw.parameters⟩

end Semantic

/-- `semantic`. -/
def semantic : RawField → Field
  | .item raw => .item (Semantic.item raw)
  | .list raw => .list (raw.members.map Semantic.member)
  | .dictionary raw =>
    let last := raw.entries.foldl (fun last entry => OrderedMap.set last entry.key entry.member) []
    .dictionary (last.map fun e => (e.1, Semantic.member e.2))

/-- `parse`. -/
def parse (L : Limits) (input : Input) (type : FieldType) : Except SfError Field := do
  let raw ← parseRaw L input type
  return semantic raw.root

/-! ## Occurrences -/

/-- The key and the value of an occurrence of a parameter. -/
def RawParameter.occurrence (p : RawParameter) : Text × BareItem := (p.key, bareValue p.bare)

/-- An item with all its parameter occurrences. -/
def RawItem.occurrence (i : RawItem) : Item :=
  ⟨bareValue i.bare, i.parameters.map RawParameter.occurrence⟩

/-- An inner list with all its parameter occurrences. -/
def RawInnerList.occurrence (l : RawInnerList) : InnerList :=
  ⟨l.items.map RawItem.occurrence, l.parameters.map RawParameter.occurrence⟩

/-- A member with all its parameter occurrences. -/
def RawMember.occurrence : RawMember → Member
  | .item i => .item i.occurrence
  | .innerList l => .innerList l.occurrence

/-- The key and the member of an occurrence of an entry. -/
def RawDictionaryEntry.occurrence (e : RawDictionaryEntry) : Text × Member :=
  (e.key, e.member.occurrence)

/-- The occurrences of a raw root. -/
def RawField.occurrences : RawField → Field
  | .item i => .item i.occurrence
  | .list l => .list (l.members.map RawMember.occurrence)
  | .dictionary d => .dictionary (d.entries.map RawDictionaryEntry.occurrence)

theorem Semantic.parameters_eq_lastWins (raw : List RawParameter) :
    parameters raw = OrderedMap.lastWins (raw.map RawParameter.occurrence) := by
  rw [parameters, OrderedMap.lastWins, List.foldl_map]
  rfl

theorem Semantic.item_eq_lastWins (raw : RawItem) : item raw = raw.occurrence.lastWins := by
  simp only [item, parameters_eq_lastWins, Item.lastWins, RawItem.occurrence]

theorem Semantic.member_eq_lastWins (raw : RawMember) : member raw = raw.occurrence.lastWins := by
  cases raw with
  | item raw => rw [member, item_eq_lastWins, RawMember.occurrence, Member.lastWins]
  | innerList raw =>
    simp only [member, parameters_eq_lastWins, RawMember.occurrence, Member.lastWins,
      InnerList.lastWins, RawInnerList.occurrence, List.map_map, Member.innerList.injEq,
      InnerList.mk.injEq, and_true]
    exact List.map_congr_left fun i _ => item_eq_lastWins i

/-- The field of a raw root is its occurrences resolved. -/
theorem semantic_eq_lastWins (raw : RawField) : semantic raw = raw.occurrences.lastWins := by
  cases raw with
  | item raw => rw [semantic, Semantic.item_eq_lastWins, RawField.occurrences, Field.lastWins]
  | list raw =>
    simp only [semantic, RawField.occurrences, Field.lastWins, List.map_map, Field.list.injEq]
    exact List.map_congr_left fun m _ => Semantic.member_eq_lastWins m
  | dictionary raw =>
    have h : raw.entries.foldl (fun last entry => OrderedMap.set last entry.key entry.member) [] =
        OrderedMap.lastWins (raw.entries.map fun e => (e.key, e.member)) := by
      rw [OrderedMap.lastWins, List.foldl_map]
    simp only [semantic, RawField.occurrences, Field.lastWins, h, Semantic.member_eq_lastWins,
      Field.dictionary.injEq]
    rw [OrderedMap.lastWins_map fun m : RawMember => m.occurrence.lastWins,
      OrderedMap.lastWins_map Member.lastWins, List.map_map, List.map_map]
    rfl

end AgentSig.StructuredFields
