import AgentSig.StructuredFields.SpanTexts
import Mathlib.Algebra.Order.BigOperators.Group.List

/-!
# Spans of raw documents are faithful

The checks on a raw document trust its spans and occurrences in place of the semantic value. The spans lie
within the source, parts are within their node, in order and without overlap; the slice of a key is the key;
the occurrences are the ones that the grammar reads, each once and in order; and the slices of bare items,
items, members and entries parse to the values of their nodes again.

## Main definitions

* `RawField.keys`, `RawField.bares`, `RawField.items`, `RawField.members`: the nodes of a raw root

## Main results

* `exists_reparsed`: a slice that the grammar reads is accepted by the parser
* `parseRaw_spans`: spans, keys, occurrences and slices of a raw document
-/

namespace AgentSig.StructuredFields

open Commons SpanTree

/-! ## Nodes -/

/-- The parameters of a member, those of the items of an inner list among them. -/
def RawMember.allParameters : RawMember → List RawParameter
  | .item i => i.parameters
  | .innerList l => l.items.flatMap RawItem.parameters ++ l.parameters

/-- The entries of a dictionary. -/
def RawField.entries : RawField → List RawDictionaryEntry
  | .item _ | .list _ => []
  | .dictionary d => d.entries

/-- The members of a list or of a dictionary; an item is its own. -/
def RawField.members : RawField → List RawMember
  | .item i => [.item i]
  | .list l => l.members
  | .dictionary d => d.entries.map RawDictionaryEntry.member

/-- All items. -/
def RawField.items (r : RawField) : List RawItem := r.members.flatMap RawMember.items

/-- All parameters. -/
def RawField.parameters (r : RawField) : List RawParameter := r.members.flatMap RawMember.allParameters

/-- All bare items. -/
def RawField.bares (r : RawField) : List RawBareItem :=
  r.items.filterMap RawItem.bare ++ r.parameters.filterMap RawParameter.bare

/-- All keys with their spans. -/
def RawField.keys (r : RawField) : List (Text × Span) :=
  r.parameters.map (fun p => (p.key, p.keySpan)) ++ r.entries.map fun e => (e.key, e.keySpan)

variable {L : Limits} {source : Text} {r : RawField} {m : RawMember}

/-- The slice of an item is the one of a member. -/
theorem member_of_item {t rest : Text} {i : Item} (h : Rfc9651.Item t i rest) :
    Rfc9651.Member t (.item i) rest := by
  refine .item (fun hhead => ?_) h
  exact absurd (h.first 0x28 hhead) (by decide)

theorem RawField.Faithful.member (h : r.Faithful source) (hm : m ∈ r.members) : m.Faithful source := by
  cases r with
  | item i =>
    obtain ⟨hi, -⟩ := h
    rw [List.mem_singleton.mp hm]
    refine ⟨?_, hi.parameters, fun hexplicit => member_of_item (hi.text hexplicit), ?_⟩
    · intro i' hi'
      rwa [List.mem_singleton.mp hi']
    · intro i' hi'
      rw [List.mem_singleton.mp hi']
      exact .inr rfl
  | list l => exact (h m hm).1
  | dictionary d =>
    obtain ⟨e, he, rfl⟩ := List.mem_map.mp hm
    exact (h e he).member

theorem RawField.Faithful.item {i : RawItem} (h : r.Faithful source) (hi : i ∈ r.items) :
    i.Faithful source := by
  obtain ⟨m, hm, hi⟩ := List.mem_flatMap.mp hi
  exact (h.member hm).items i hi

theorem RawField.Faithful.parameter {p : RawParameter} (h : r.Faithful source) (hp : p ∈ r.parameters) :
    p.Faithful source := by
  obtain ⟨m, hm, hp⟩ := List.mem_flatMap.mp hp
  have hmember := h.member hm
  cases m with
  | item i => exact hmember.parameters p hp
  | innerList l =>
    rcases List.mem_append.mp hp with hp | hp
    · obtain ⟨i, hi, hp⟩ := List.mem_flatMap.mp hp
      exact (hmember.items i hi).parameters p hp
    · exact hmember.parameters p hp

theorem RawField.Faithful.entry {e : RawDictionaryEntry} (h : r.Faithful source) (he : e ∈ r.entries) :
    e.Faithful source := by
  cases r with
  | item i | list l => cases he
  | dictionary d => exact h e he

/-- The slice of a key is the key. -/
theorem RawField.Faithful.key {k : Text × Span} (h : r.Faithful source) (hk : k ∈ r.keys) :
    k.2.slice source = k.1 := by
  rcases List.mem_append.mp hk with hk | hk
  · obtain ⟨p, hp, rfl⟩ := List.mem_map.mp hk
    exact (h.parameter hp).key
  · obtain ⟨e, he, rfl⟩ := List.mem_map.mp hk
    exact (h.entry he).key

/-- The slice of a bare item reads as its value. -/
theorem RawField.Faithful.bare {b : RawBareItem} (h : r.Faithful source) (hb : b ∈ r.bares) :
    Rfc9651.Bare (b.toSpan.slice source) b.value [] := by
  rcases List.mem_append.mp hb with hb | hb
  · obtain ⟨i, hi, hb⟩ := List.mem_filterMap.mp hb
    exact (h.item hi).bare b hb
  · obtain ⟨p, hp, hb⟩ := List.mem_filterMap.mp hb
    exact (h.parameter hp).bare b hb

/-- Only the implicit Booleans of a dictionary have no bare item. -/
theorem RawField.Faithful.implicit {i : RawItem} (h : r.Faithful source) (hi : i ∈ r.items)
    (hnone : i.bare = none) : ∃ e ∈ r.entries, e.implicit ∧ e.member = .item i := by
  obtain ⟨m, hm, hi⟩ := List.mem_flatMap.mp hi
  obtain hsome | rfl := (h.member hm).inner i hi
  · rw [hnone] at hsome
    cases hsome
  · have himplicit : (RawMember.item i).explicit = false := by rw [RawMember.explicit, hnone]; rfl
    cases r with
    | item i' =>
      cases List.mem_singleton.mp hm
      have hsome := h.2
      rw [hnone] at hsome
      cases hsome
    | list l =>
      have hexplicit := (h _ hm).2
      rw [himplicit] at hexplicit
      cases hexplicit
    | dictionary d =>
      obtain ⟨e, he, heq⟩ := List.mem_map.mp hm
      refine ⟨e, he, ?_, heq⟩
      rw [(h e he).implicit, heq, himplicit]
      rfl

/-! ## What the nodes charge -/

theorem member_within (hw : r.occurrences.Within L) (hm : m ∈ r.members) :
    m.occurrence.Within L ∧ m.occurrence.occurrences ≤ L.get .maxTotalOccurrences := by
  obtain ⟨hcount, hw⟩ := hw
  cases r with
  | item i =>
    rw [List.mem_singleton.mp hm]
    exact ⟨hw, hcount⟩
  | list l =>
    have hmem : m.occurrence ∈ l.members.map RawMember.occurrence := List.mem_map_of_mem hm
    exact ⟨hw.2 _ hmem, (List.le_sum_of_mem (List.mem_map_of_mem hmem)).trans hcount⟩
  | dictionary d =>
    obtain ⟨e, he, rfl⟩ := List.mem_map.mp hm
    have hmem : e.occurrence ∈ d.entries.map RawDictionaryEntry.occurrence := List.mem_map_of_mem he
    have hsum := List.le_sum_of_mem (List.mem_map_of_mem (f := fun e => e.2.occurrences) hmem)
    exact ⟨(hw.2 _ hmem).2, hsum.trans hcount⟩

theorem item_within {i : RawItem} (hw : r.occurrences.Within L) (hi : i ∈ r.items) :
    i.occurrence.Within L ∧ i.occurrence.occurrences ≤ L.get .maxTotalOccurrences := by
  obtain ⟨m, hm, hi⟩ := List.mem_flatMap.mp hi
  obtain ⟨hwithin, hcount⟩ := member_within hw hm
  cases m with
  | item i' =>
    rw [List.mem_singleton.mp hi]
    exact ⟨hwithin, hcount⟩
  | innerList l =>
    have hmem : i.occurrence ∈ l.items.map RawItem.occurrence := List.mem_map_of_mem hi
    have hsum := List.le_sum_of_mem (List.mem_map_of_mem (f := Item.occurrences) hmem)
    refine ⟨hwithin.2.1 _ hmem, ?_⟩
    simp only [RawMember.occurrence, Member.occurrences, InnerList.occurrences,
      RawInnerList.occurrence] at hcount
    omega

theorem bare_within {b : RawBareItem} (hw : r.occurrences.Within L) (hb : b ∈ r.bares) :
    b.value.Within L ∧ 1 ≤ L.get .maxTotalOccurrences := by
  have hparameter : ∀ {ps : List RawParameter} {p : RawParameter}, p ∈ ps → p.bare = some b →
      ParametersWithin L (ps.map RawParameter.occurrence) → b.value.Within L := by
    intro ps p hp hbare hwithin
    have hvalue := (hwithin.2 _ (List.mem_map_of_mem hp)).2
    rwa [RawParameter.occurrence, bareValue, hbare] at hvalue
  rcases List.mem_append.mp hb with hb | hb
  · obtain ⟨i, hi, hb⟩ := List.mem_filterMap.mp hb
    obtain ⟨hwithin, hcount⟩ := item_within hw hi
    have hvalue := hwithin.1
    rw [RawItem.occurrence, bareValue, hb] at hvalue
    rw [Item.occurrences] at hcount
    exact ⟨hvalue, by omega⟩
  · obtain ⟨p, hp, hb⟩ := List.mem_filterMap.mp hb
    obtain ⟨m, hm, hp⟩ := List.mem_flatMap.mp hp
    obtain ⟨hwithin, hcount⟩ := member_within hw hm
    cases m with
    | item i =>
      simp only [RawMember.occurrence, Member.occurrences, Item.occurrences] at hcount
      exact ⟨hparameter hp hb hwithin.2, by omega⟩
    | innerList l =>
      simp only [RawMember.occurrence, Member.occurrences, InnerList.occurrences] at hcount
      refine ⟨?_, by omega⟩
      rcases List.mem_append.mp hp with hp | hp
      · obtain ⟨i, hi, hp⟩ := List.mem_flatMap.mp hp
        exact hparameter hp hb (hwithin.2.1 _ (List.mem_map_of_mem hi)).2
      · exact hparameter hp hb hwithin.2.2

/-- A list or a dictionary with a member may have one. -/
theorem one_le_maxMembers {type : FieldType} (hparses : Rfc9651.Parses type source r.occurrences)
    (htype : type ≠ .item) (hw : r.occurrences.Within L) (hm : m ∈ r.members) : 1 ≤ L.get .maxMembers := by
  have hone : ∀ {α β : Type} {f : α → β} {a : α} {l : List α}, a ∈ l →
      (l.map f).length ≤ L.get .maxMembers → 1 ≤ L.get .maxMembers := by
    intro α β f a l ha hlength
    rw [List.length_map] at hlength
    exact (List.length_pos_of_mem ha).trans_le hlength
  cases r with
  | item i =>
    cases hparses
    exact absurd rfl htype
  | list l => exact hone hm hw.2.1
  | dictionary d =>
    obtain ⟨e, he, -⟩ := List.mem_map.mp hm
    exact hone he hw.2.1

theorem entry_within {type : FieldType} {e : RawDictionaryEntry}
    (hparses : Rfc9651.Parses type source r.occurrences) (hw : r.occurrences.Within L) (he : e ∈ r.entries) :
    1 ≤ L.get .maxMembers ∧
      (e.occurrence.1.length ≤ L.get .maxKeyLength ∧ e.occurrence.2.Within L) ∧
      e.occurrence.2.occurrences ≤ L.get .maxTotalOccurrences := by
  cases r with
  | item i | list l => cases he
  | dictionary d =>
    have hm : e.member ∈ (RawField.dictionary d).members := List.mem_map_of_mem he
    have htype : type ≠ .item := by
      rintro rfl
      cases hparses
    exact ⟨one_le_maxMembers hparses htype hw hm, hw.2.2 _ (List.mem_map_of_mem he),
      (member_within hw hm).2⟩

/-! ## Slices are parsed again -/

theorem isAscii_slice (h : isAscii source) (s : Span) : isAscii (s.slice source) := by
  refine List.all_eq_true.mpr fun c hc => ?_
  exact List.all_eq_true.mp h c (List.mem_of_mem_drop (List.mem_of_mem_take hc))

theorem length_slice_le (s : Span) : (s.slice source).length ≤ source.length := by
  rw [Span.slice, List.length_take, List.length_drop]
  omega

/-- A slice that the grammar reads is accepted by the parser. -/
theorem exists_reparsed {type : FieldType} {s : Span} {f : Field}
    (hlength : source.length ≤ L.get .maxInputBytes) (h : Rfc9651.Parses type (s.slice source) f)
    (hw : f.Within L) :
    ∃ d, parseRaw L (.text (s.slice source)) type = .ok d ∧ d.root.occurrences = f :=
  @parseRaw_complete L (.text (s.slice source)) type f h ((length_slice_le s).trans hlength) hw

theorem parses_item {t : Text} {i : Item} (hascii : isAscii t) (h : Rfc9651.Item t i []) :
    Rfc9651.Parses .item t (.item i) := by
  have hitem : Rfc9651.Item (t.dropWhile Rfc9651.SP) i [] := by
    rwa [dropWhile_of_startsWithout (h.first.mono fun _ => Rfc9651.SP_of_outside)]
  exact .item hascii hitem rfl

theorem parses_member {t : Text} {m : Member} (hascii : isAscii t) (h : Rfc9651.Member t m []) :
    Rfc9651.Parses .list t (.list [m]) := by
  refine .list hascii ?_
  rw [dropWhile_of_startsWithout (h.first.mono fun _ => Rfc9651.OWS_of_SP)]
  exact .last (List.length_pos_iff.mp h.length_lt) h rfl

theorem parses_entry {t : Text} {e : Text × Member} (hascii : isAscii t) (h : Rfc9651.Entry t e []) :
    Rfc9651.Parses .dictionary t (.dictionary [e]) := by
  refine .dictionary hascii ?_
  rw [dropWhile_of_startsWithout (h.first.mono fun _ => Rfc9651.OWS_of_SP)]
  exact .last (List.length_pos_iff.mp h.length_lt) h rfl

/-! ## Raw documents -/

/-- The spans of a raw document are laid out in its source, and its slices read as its nodes. -/
theorem parseRaw_laidOut {input : Input} {type : FieldType} {d : RawDocument}
    (h : parseRaw L input type = .ok d) : d.source = input.units ∧
      LaidOut 0 [d.root.tree] d.source.length ∧ d.root.Faithful d.source := by
  simp only [parseRaw, bind_eq_ok, Limits.check_eq_ok, exists_const] at h
  obtain ⟨-, h⟩ := h
  split at h
  · cases h
  · simp only [field, bind_eq_ok, require_eq_ok, exists_const, Prod.exists, pure_eq_ok] at h
    obtain ⟨r, ⟨r', c, hr, -, rfl⟩, rfl⟩ := h
    have hstart : (Cursor.mk 0 input.units 0).At input.units := ⟨Nat.zero_le _, rfl⟩
    have hspaces : (Cursor.mk 0 input.units 0).Advances _ := Cursor.spaces_advances false
    obtain ⟨hadvance, hlaid, hfaithful⟩ := fieldRoot_spans (hstart.advance hspaces).1 hr
    have hend := (hstart.advance (hspaces.trans hadvance)).1
    exact ⟨rfl, hlaid.widen (Nat.zero_le _) hend.1, hfaithful⟩

/-- Raw documents are faithful. Every span lies within the source, the parts of a node are within its span, and
they are in order without overlap. The slice of a key is the key. The occurrences are those that the
grammar reads, so each one is there once and in order, also where its key is repeated. The slices of bare
items, of items and members but implicit Booleans, and of entries parse to the same values; and only
entries of a dictionary are implicit Booleans. -/
theorem parseRaw_spans (L : Limits) (input : Input) (type : FieldType) (d : RawDocument)
    (h : parseRaw L input type = .ok d) :
    (∀ t, Part t d.root.tree → t.start ≤ t.stop ∧ t.stop ≤ d.source.length ∧
      (∀ u ∈ t.children, t.start ≤ u.start ∧ u.stop ≤ t.stop) ∧
      t.children.Pairwise fun u v => u.stop ≤ v.start) ∧
    (∀ k ∈ d.root.keys, k.2.slice d.source = k.1) ∧
    (d.source = input.units ∧ ∀ f, Rfc9651.Parses type d.source f ↔ f = d.root.occurrences) ∧
    (∀ b ∈ d.root.bares, ∃ d', parseRaw L (.text (b.toSpan.slice d.source)) .item = .ok d' ∧
      d'.root.occurrences = .item ⟨b.value, []⟩) ∧
    (∀ i ∈ d.root.items, i.bare.isSome → ∃ d',
      parseRaw L (.text (i.toSpan.slice d.source)) .item = .ok d' ∧
        d'.root.occurrences = .item i.occurrence) ∧
    (∀ i ∈ d.root.items, i.bare = none → ∃ e ∈ d.root.entries, e.implicit ∧ e.member = .item i) ∧
    (type ≠ .item → ∀ m ∈ d.root.members, m.explicit → ∃ d',
      parseRaw L (.text (m.span.slice d.source)) .list = .ok d' ∧
        d'.root.occurrences = .list [m.occurrence]) ∧
    ∀ e ∈ d.root.entries, ∃ d', parseRaw L (.text (e.toSpan.slice d.source)) .dictionary = .ok d' ∧
      d'.root.occurrences = .dictionary [e.occurrence] := by
  obtain ⟨hsource, hlaid, hfaithful⟩ := parseRaw_laidOut h
  obtain ⟨hparses, hlength, hw⟩ := parseRaw_sound h
  rw [← hsource] at hparses hlength
  have hascii := (parses_iff.mp hparses).1
  obtain ⟨-, hnested, hstop⟩ := hlaid.of_mem (List.mem_singleton_self _)
  refine ⟨fun t ht => ?_, fun k hk => hfaithful.key hk, ⟨hsource, fun f => ?_⟩, fun b hb => ?_,
    fun i hi hsome => ?_, fun i hi hnone => hfaithful.implicit hi hnone, fun htype m hm hexplicit => ?_,
    fun e he => ?_⟩
  · obtain ⟨ht', -, hle⟩ := hnested.of_part ht
    exact ⟨ht'.le, hle.trans hstop, fun u hu => ht'.children_within hu, ht'.children_pairwise⟩
  · constructor
    · exact fun hf => hf.unique hparses (hlength.trans (L.safe _))
    · rintro rfl
      exact hparses
  · obtain ⟨hwithin, hcount⟩ := bare_within hw hb
    have hitem : Rfc9651.Item (b.toSpan.slice d.source) ⟨b.value, []⟩ [] :=
      ⟨[], hfaithful.bare hb, .nil .nil⟩
    refine exists_reparsed hlength (parses_item (isAscii_slice hascii _) hitem) ⟨hcount, hwithin, ?_⟩
    exact ⟨Nat.zero_le _, by simp⟩
  · obtain ⟨hwithin, hcount⟩ := item_within hw hi
    exact exists_reparsed hlength (parses_item (isAscii_slice hascii _) ((hfaithful.item hi).text hsome))
      ⟨hcount, hwithin⟩
  · obtain ⟨hwithin, hcount⟩ := member_within hw hm
    have hone := one_le_maxMembers hparses htype hw hm
    refine exists_reparsed hlength (parses_member (isAscii_slice hascii _)
      ((hfaithful.member hm).text hexplicit)) ⟨by simpa [Field.occurrences] using hcount, hone, ?_⟩
    exact List.forall_mem_singleton.mpr hwithin
  · obtain ⟨hone, hwithin, hcount⟩ := entry_within hparses hw he
    refine exists_reparsed hlength (parses_entry (isAscii_slice hascii _) (hfaithful.entry he).text)
      ⟨by simpa [Field.occurrences] using hcount, hone, ?_⟩
    exact List.forall_mem_singleton.mpr hwithin

/-- The raw document of a dictionary that repeats a key. -/
def repeatedDocument : RawDocument where
  fieldType := .dictionary
  source := ascii "a=1;b, a"
  root := .dictionary ⟨⟨0, 8⟩,
    [⟨⟨0, 5⟩, ascii "a", ⟨0, 1⟩, false, .item ⟨⟨2, 5⟩, some ⟨⟨2, 3⟩, .integer (.integer 1)⟩,
        [⟨⟨3, 5⟩, ascii "b", ⟨4, 5⟩, none⟩]⟩⟩,
      ⟨⟨7, 8⟩, ascii "a", ⟨7, 8⟩, true, .item ⟨⟨8, 8⟩, none, []⟩⟩]⟩

theorem parseRaw_spans_repeatedDocument :
    parseRaw DEFAULT_LIMITS (.text (ascii "a=1;b, a")) .dictionary = .ok repeatedDocument ∧
      (∀ f, Rfc9651.Parses .dictionary (ascii "a=1;b, a") f ↔ f = .dictionary
        [(ascii "a", .item ⟨.integer (.integer 1), [(ascii "b", .boolean true)]⟩),
          (ascii "a", .item ⟨.boolean true, []⟩)]) ∧
      ∃ d, parseRaw DEFAULT_LIMITS (.text (ascii "1;b")) .item = .ok d ∧
        d.root.occurrences = .item ⟨.integer (.integer 1), [(ascii "b", .boolean true)]⟩ := by
  have hparse : parseRaw DEFAULT_LIMITS (.text (ascii "a=1;b, a")) .dictionary = .ok repeatedDocument := by
    decide +kernel
  obtain ⟨-, -, ⟨-, hoccurrences⟩, -, hitems, -⟩ := parseRaw_spans _ _ _ _ hparse
  exact ⟨hparse, hoccurrences, hitems ⟨⟨2, 5⟩, some ⟨⟨2, 3⟩, .integer (.integer 1)⟩,
    [⟨⟨3, 5⟩, ascii "b", ⟨4, 5⟩, none⟩]⟩ (by decide) rfl⟩

end AgentSig.StructuredFields
