import AgentSig.Commons.SpanTrees
import AgentSig.StructuredFields.Positions

/-!
# Spans of raw documents

The spans of a raw document are a tree that is laid out in its source: the parts of a node are within its
span, in the order of the source, and do not overlap. The slice of a key is the key, and the slices of bare
items, items, members and entries are texts that the grammar reads as the same values.

## Main definitions

* `RawField.tree`: the spans of a raw root
* `RawField.Faithful source`: the slices of its nodes read as the nodes

## Main results

* `item_spans`, `innerList_spans`, `member_spans`, `entry_spans`: what each production records
* `fieldRoot_spans`: the spans of a root are laid out, and its slices read as its nodes
-/

namespace AgentSig.StructuredFields

open Commons SpanTree

/-! ## Trees -/

/-- A span and its parts. -/
def Span.tree (s : Span) (parts : List SpanTree) : SpanTree := .node s.start s.stop parts

/-- A bare item has no parts. -/
def RawBareItem.tree (b : RawBareItem) : SpanTree := b.toSpan.tree []

/-- A parameter: its key and its bare item. -/
def RawParameter.tree (p : RawParameter) : SpanTree :=
  p.toSpan.tree (p.keySpan.tree [] :: (p.bare.map RawBareItem.tree).toList)

/-- An item: its bare item and its parameters. -/
def RawItem.tree (i : RawItem) : SpanTree :=
  i.toSpan.tree ((i.bare.map RawBareItem.tree).toList ++ i.parameters.map RawParameter.tree)

/-- An inner list: its items and its parameters. -/
def RawInnerList.tree (l : RawInnerList) : SpanTree :=
  l.toSpan.tree (l.items.map RawItem.tree ++ l.parameters.map RawParameter.tree)

/-- The tree of a member. -/
def RawMember.tree : RawMember → SpanTree
  | .item i => i.tree
  | .innerList l => l.tree

/-- The span of a member. -/
def RawMember.span : RawMember → Span
  | .item i => i.toSpan
  | .innerList l => l.toSpan

/-- An entry: its key and its member. -/
def RawDictionaryEntry.tree (e : RawDictionaryEntry) : SpanTree :=
  e.toSpan.tree [e.keySpan.tree [], e.member.tree]

/-- The tree of a root. -/
def RawField.tree : RawField → SpanTree
  | .item i => i.tree
  | .list l => l.toSpan.tree (l.members.map RawMember.tree)
  | .dictionary d => d.toSpan.tree (d.entries.map RawDictionaryEntry.tree)

/-! ## Slices -/

/-- The slice of the key is the key, and the one of the bare item reads as its value. -/
structure RawParameter.Faithful (source : Text) (p : RawParameter) : Prop where
  key : p.keySpan.slice source = p.key
  bare : ∀ b ∈ p.bare, Rfc9651.Bare (b.toSpan.slice source) b.value []

/-- The slice of the bare item reads as its value and, if there is one, the slice of the item as the
item. -/
structure RawItem.Faithful (source : Text) (i : RawItem) : Prop where
  bare : ∀ b ∈ i.bare, Rfc9651.Bare (b.toSpan.slice source) b.value []
  parameters : ∀ p ∈ i.parameters, p.Faithful source
  text : i.bare.isSome → Rfc9651.Item (i.toSpan.slice source) i.occurrence []

/-- The items of a member: itself, or those of an inner list. -/
def RawMember.items : RawMember → List RawItem
  | .item i => [i]
  | .innerList l => l.items

/-- A member that is no implicit Boolean. -/
def RawMember.explicit : RawMember → Bool
  | .item i => i.bare.isSome
  | .innerList _ => true

/-- The slices of the items and parameters read as these and, unless the member is an implicit Boolean, its
slice as the member. -/
structure RawMember.Faithful (source : Text) (m : RawMember) : Prop where
  items : ∀ i ∈ m.items, i.Faithful source
  parameters : ∀ p ∈ m.parameters, p.Faithful source
  text : m.explicit → Rfc9651.Member (m.span.slice source) m.occurrence []
  inner : ∀ i ∈ m.items, i.bare.isSome ∨ m = .item i

/-- The slice of the key is the key, those of the member and of the entry read as these, and implicit
Booleans are marked. -/
structure RawDictionaryEntry.Faithful (source : Text) (e : RawDictionaryEntry) : Prop where
  key : e.keySpan.slice source = e.key
  member : e.member.Faithful source
  text : Rfc9651.Entry (e.toSpan.slice source) e.occurrence []
  implicit : e.implicit = !e.member.explicit

/-- The slices of the nodes of a root read as the nodes. -/
def RawField.Faithful (source : Text) : RawField → Prop
  | .item i => i.Faithful source ∧ i.bare.isSome
  | .list l => ∀ m ∈ l.members, m.Faithful source ∧ m.explicit
  | .dictionary d => ∀ e ∈ d.entries, e.Faithful source

/-! ## Productions -/

variable {L : Limits} {source : Text} {c c' : Cursor}

theorem bare_spans {b : RawBareItem} (hc : c.At source) (h : bare L c = .ok (b, c')) :
    c.Advances c' ∧ LaidOut c.position [b.tree] c'.position ∧
      Rfc9651.Bare (b.toSpan.slice source) b.value [] := by
  obtain ⟨hadvance, hspan⟩ := bare_advances h
  obtain ⟨hspec, -, -⟩ := bare_sound h
  refine ⟨hadvance, ?_, ?_⟩
  · rw [RawBareItem.tree, hspan]
    exact .single (nested_leaf hadvance.position_le)
  · rw [hspan]
    exact hc.reads hspec.run hadvance

/-- The slice of a key is the key. -/
theorem key_spans {k : Text} {s : Span} (hc : c.At source) (h : key L c = .ok ((k, s), c')) :
    c.Advances c' ∧ LaidOut c.position [s.tree []] c'.position ∧ s.slice source = k := by
  obtain ⟨hadvance, rfl, hrest⟩ := key_advances h
  refine ⟨hadvance, .single (nested_leaf hadvance.position_le), ?_⟩
  exact List.append_cancel_right ((hc.advance hadvance).2.symm.trans hrest)

theorem parameterValue_spans {b : Option RawBareItem} (hc : c.At source)
    (h : parameterValue L c = .ok (b, c')) :
    c.Advances c' ∧ LaidOut c.position (b.map RawBareItem.tree).toList c'.position ∧
      ∀ b' ∈ b, Rfc9651.Bare (b'.toSpan.slice source) b'.value [] := by
  unfold parameterValue at h
  split at h
  · rename_i hcode
    simp only [bind_eq_ok, Prod.exists, pure_eq_ok, Prod.mk.injEq] at h
    obtain ⟨b, c', h, rfl, rfl⟩ := h
    have hnext := Cursor.next_advances hcode
    obtain ⟨hadvance, hlaid, hbare⟩ := bare_spans (hc.advance hnext).1 h
    refine ⟨hnext.trans hadvance, hlaid.widen hnext.position_le le_rfl, ?_⟩
    rintro b' ⟨⟩
    exact hbare
  · simp only [pure_eq_ok, Prod.mk.injEq] at h
    obtain ⟨rfl, rfl⟩ := h
    exact ⟨.of_eq rfl rfl, .nil le_rfl, by simp⟩

/-- Parameters follow one another. -/
theorem parametersLoop_spans {fuel count : ℕ} {ps : List RawParameter} (hc : c.At source)
    (h : parametersLoop L fuel count c = .ok (ps, c')) :
    c.Advances c' ∧ LaidOut c.position (ps.map RawParameter.tree) c'.position ∧
      ∀ p ∈ ps, p.Faithful source := by
  induction fuel generalizing count c ps with
  | zero =>
    rw [parametersLoop] at h
    split at h
    · simp [Cursor.fail] at h
    · cases h
      exact ⟨.of_eq rfl rfl, .nil le_rfl, by simp⟩
  | succ fuel ih =>
    rw [parametersLoop] at h
    split at h
    · rename_i hcode
      simp only [bind_eq_ok, Limits.check_eq_ok, exists_const, Prod.exists, pure_eq_ok,
        Prod.mk.injEq] at h
      obtain ⟨-, c₁, hconsume, k, s, c₂, hkey, b, c₃, hvalue, ps, c₄, hrest, rfl, rfl⟩ := h
      have hcode₁ : c₁.code = some 59 := by
        obtain ⟨-, rfl⟩ := consumeOccurrence_eq_ok.mp hconsume
        exact hcode
      have hstart := ((Cursor.consumeOccurrence_advances hconsume).trans
        (Cursor.next_advances hcode₁)).trans (Cursor.spaces_advances false)
      obtain ⟨hadvance, hlaid, hslice⟩ := key_spans (hc.advance hstart).1 hkey
      have hkeyed := hstart.trans hadvance
      obtain ⟨hadvance', hlaid', hbare⟩ := parameterValue_spans (hc.advance hkeyed).1 hvalue
      have hend := hkeyed.trans hadvance'
      obtain ⟨hadvances, hparameters, hfaithful⟩ := ih (hc.advance hend).1 hrest
      refine ⟨hend.trans hadvances, ?_, ?_⟩
      · exact .cons le_rfl (.node ((hlaid.append hlaid').widen hstart.position_le le_rfl)) hparameters
      · exact List.forall_mem_cons.mpr ⟨⟨hslice, hbare⟩, hfaithful⟩
    · cases h
      exact ⟨.of_eq rfl rfl, .nil le_rfl, by simp⟩

/-- What an item records. -/
theorem item_spans {i : RawItem} (hc : c.At source) (h : item L c = .ok (i, c')) :
    c.Advances c' ∧ LaidOut c.position [i.tree] c'.position ∧ i.Faithful source ∧ i.bare.isSome ∧
      i.toSpan = ⟨c.position, c'.position⟩ := by
  obtain ⟨hspec, -, -⟩ := item_sound h
  simp only [item, bind_eq_ok, Prod.exists, pure_eq_ok, Prod.mk.injEq] at h
  obtain ⟨c₁, hconsume, b, c₂, hbare, ps, c₃, hps, rfl, rfl⟩ := h
  have hstart := Cursor.consumeOccurrence_advances hconsume
  obtain ⟨hadvance, hlaid, hvalue⟩ := bare_spans (hc.advance hstart).1 hbare
  have hbared := hstart.trans hadvance
  obtain ⟨hadvance', hlaid', hfaithful⟩ := parametersLoop_spans (hc.advance hbared).1 hps
  have hend := hbared.trans hadvance'
  refine ⟨hend, ?_, ⟨?_, hfaithful, fun _ => hc.reads hspec.run hend⟩, rfl, rfl⟩
  · exact .single (.node ((hlaid.append hlaid').widen hstart.position_le le_rfl))
  · rintro b' ⟨⟩
    exact hvalue

/-- The items of an inner list. -/
theorem innerListLoop_spans {fuel count : ℕ} {is : List RawItem} (hc : c.At source)
    (h : innerListLoop L fuel count c = .ok (is, c')) :
    c.Advances c' ∧ LaidOut c.position (is.map RawItem.tree) c'.position ∧
      ∀ i ∈ is, i.Faithful source ∧ i.bare.isSome := by
  induction fuel generalizing count c is with
  | zero => simp [innerListLoop, Cursor.fail] at h
  | succ fuel ih =>
    simp only [innerListLoop, bind_eq_ok, require_eq_ok, exists_const] at h
    obtain ⟨-, h⟩ := h
    have hspaces : c.Advances (c.spaces false) := Cursor.spaces_advances false
    split at h
    · rename_i hcode
      cases h
      have hend := hspaces.trans (Cursor.next_advances hcode)
      exact ⟨hend, .nil hend.position_le, by simp⟩
    · simp only [bind_eq_ok, require_eq_ok, Limits.check_eq_ok, exists_const, Prod.exists, pure_eq_ok,
        Prod.mk.injEq] at h
      obtain ⟨-, i, c₂, hitem, -, is, c₃, his, rfl, rfl⟩ := h
      obtain ⟨hadvance, hlaid, hfaithful, hsome, -⟩ := item_spans (hc.advance hspaces).1 hitem
      have hitemed := hspaces.trans hadvance
      obtain ⟨hadvance', hlaid', hfaithful'⟩ := ih (hc.advance hitemed).1 his
      refine ⟨hitemed.trans hadvance', ?_, List.forall_mem_cons.mpr ⟨⟨hfaithful, hsome⟩, hfaithful'⟩⟩
      exact (hlaid.widen hspaces.position_le le_rfl).append hlaid'

/-- What an inner list records. -/
theorem innerList_spans {l : RawInnerList} (hc : c.At source) (hcode : c.code = some 40)
    (h : innerList L c = .ok (l, c')) :
    c.Advances c' ∧ LaidOut c.position [l.tree] c'.position ∧
      (∀ i ∈ l.items, i.Faithful source ∧ i.bare.isSome) ∧ (∀ p ∈ l.parameters, p.Faithful source) ∧
      l.toSpan = ⟨c.position, c'.position⟩ := by
  simp only [innerList, bind_eq_ok, Prod.exists, pure_eq_ok, Prod.mk.injEq] at h
  obtain ⟨c₁, hconsume, is, c₂, his, ps, c₃, hps, rfl, rfl⟩ := h
  have hcode₁ : c₁.code = some 40 := by
    obtain ⟨-, rfl⟩ := consumeOccurrence_eq_ok.mp hconsume
    exact hcode
  have hstart := (Cursor.consumeOccurrence_advances hconsume).trans (Cursor.next_advances hcode₁)
  obtain ⟨hadvance, hlaid, hitems⟩ := innerListLoop_spans (hc.advance hstart).1 his
  have hitemed := hstart.trans hadvance
  obtain ⟨hadvance', hlaid', hparameters⟩ := parametersLoop_spans (hc.advance hitemed).1 hps
  refine ⟨hitemed.trans hadvance', ?_, hitems, hparameters, rfl⟩
  exact .single (.node ((hlaid.append hlaid').widen hstart.position_le le_rfl))

/-- What a member records. -/
theorem member_spans {m : RawMember} (hc : c.At source) (h : member L c = .ok (m, c')) :
    c.Advances c' ∧ LaidOut c.position [m.tree] c'.position ∧ m.Faithful source ∧ m.explicit := by
  obtain ⟨hspec, -, -⟩ := member_sound h
  have hrun : ∃ run, c.rest = run ++ c'.rest ∧ Rfc9651.Reads Rfc9651.continues Rfc9651.Member run
      m.occurrence := by
    obtain ⟨run, -, hrest, hreads⟩ := hspec.run
    exact ⟨run, hrest, hreads⟩
  unfold member at h
  split at h
  · rename_i hcode
    simp only [bind_eq_ok, Prod.exists, pure_eq_ok, Prod.mk.injEq] at h
    obtain ⟨l, c', h, rfl, rfl⟩ := h
    obtain ⟨hadvance, hlaid, hitems, hparameters, hspan⟩ := innerList_spans hc hcode h
    refine ⟨hadvance, hlaid, ⟨fun i hi => (hitems i hi).1, hparameters, fun _ => ?_,
      fun i hi => .inl (hitems i hi).2⟩, rfl⟩
    rw [RawMember.span, hspan]
    exact hc.reads hrun hadvance
  · simp only [bind_eq_ok, Prod.exists, pure_eq_ok, Prod.mk.injEq] at h
    obtain ⟨i, c', h, rfl, rfl⟩ := h
    obtain ⟨hadvance, hlaid, hfaithful, hsome, hspan⟩ := item_spans hc h
    refine ⟨hadvance, hlaid, ⟨?_, hfaithful.parameters, fun _ => ?_, ?_⟩, hsome⟩
    · rintro i' hi'
      rw [List.mem_singleton.mp hi']
      exact hfaithful
    · rw [RawMember.span, hspan]
      exact hc.reads hrun hadvance
    · intro i' hi'
      rw [List.mem_singleton.mp hi']
      exact .inr rfl

/-- What an entry records. -/
theorem entry_spans {e : RawDictionaryEntry} (hc : c.At source) (h : entry L c = .ok (e, c')) :
    c.Advances c' ∧ LaidOut c.position [e.tree] c'.position ∧ e.Faithful source := by
  obtain ⟨hspec, -, -⟩ := entry_sound h
  have hrun : ∃ run, c.rest = run ++ c'.rest ∧ Rfc9651.Reads Rfc9651.continues Rfc9651.Entry run
      e.occurrence := by
    obtain ⟨run, -, hrest, hreads⟩ := hspec.run
    exact ⟨run, hrest, hreads⟩
  simp only [entry, bind_eq_ok, Prod.exists] at h
  obtain ⟨k, s, c₁, hkey, h⟩ := h
  obtain ⟨hadvance, hlaid, hslice⟩ := key_spans hc hkey
  split at h
  · rename_i hcode
    simp only [bind_eq_ok, Prod.exists, pure_eq_ok, Prod.mk.injEq] at h
    obtain ⟨m, c₂, hm, rfl, rfl⟩ := h
    have hequals := hadvance.trans (Cursor.next_advances hcode)
    obtain ⟨hadvance', hlaid', hmember, hexplicit⟩ := member_spans (hc.advance hequals).1 hm
    have hend := hequals.trans hadvance'
    refine ⟨hend, ?_, hslice, hmember, hc.reads hrun hend, by rw [hexplicit]; rfl⟩
    have hwide := hlaid'.widen (Cursor.next_advances hcode).position_le le_rfl
    exact .single (.node (hlaid.append hwide))
  · simp only [bind_eq_ok, Prod.exists, pure_eq_ok, Prod.mk.injEq] at h
    obtain ⟨c₂, hconsume, ps, c₃, hps, rfl, rfl⟩ := h
    have hconsumed := Cursor.consumeOccurrence_advances hconsume
    have hkeyed := hadvance.trans hconsumed
    obtain ⟨hadvance', hlaid', hparameters⟩ := parametersLoop_spans (hc.advance hkeyed).1 hps
    have hend := hkeyed.trans hadvance'
    refine ⟨hend, ?_, hslice, ⟨?_, hparameters, fun h => absurd h Bool.false_ne_true, ?_⟩, hc.reads hrun hend, rfl⟩
    · -- the member starts after the key and ends with its parameters
      have hitem := LaidOut.single (t := RawItem.tree ⟨⟨c₂.position, c₃.position⟩, none, ps⟩) (.node hlaid')
      have hwide := hitem.widen hconsumed.position_le le_rfl
      exact .single (.node (hlaid.append hwide))
    · intro i hi
      rw [List.mem_singleton.mp hi]
      exact ⟨by simp, hparameters, fun h => absurd h Bool.false_ne_true⟩
    · intro i hi
      rw [List.mem_singleton.mp hi]
      exact .inr rfl

/-- Elements are laid out with separators between them. -/
theorem membersLoop_spans {α : Type} {element : Cursor → Except SfError (α × Cursor)} {tree : α → SpanTree}
    {F : α → Prop} (helement : ∀ {c c' : Cursor} {a : α}, c.At source → element c = .ok (a, c') →
      c.Advances c' ∧ LaidOut c.position [tree a] c'.position ∧ F a)
    {fuel count : ℕ} {as : List α} (hc : c.At source) (h : membersLoop L element fuel count c = .ok (as, c')) :
    c.Advances c' ∧ LaidOut c.position (as.map tree) c'.position ∧ ∀ a ∈ as, F a := by
  induction fuel generalizing count c as with
  | zero =>
    rw [membersLoop] at h
    split at h
    · cases h
      exact ⟨.of_eq rfl rfl, .nil le_rfl, by simp⟩
    · simp [Cursor.fail] at h
  | succ fuel ih =>
    rw [membersLoop] at h
    split at h
    · cases h
      exact ⟨.of_eq rfl rfl, .nil le_rfl, by simp⟩
    · simp only [bind_eq_ok, Limits.check_eq_ok, exists_const, Prod.exists] at h
      obtain ⟨-, a, c₁, ha, more, c₂, hseparator, h⟩ := h
      obtain ⟨hadvance, hlaid, hfirst⟩ := helement hc ha
      have hseparated := separator_advances hseparator
      have hnext := hadvance.trans hseparated
      have hwide := hlaid.widen le_rfl hseparated.position_le
      split at h
      · simp only [bind_eq_ok, Prod.exists, pure_eq_ok, Prod.mk.injEq] at h
        obtain ⟨as, c₃, has, rfl, rfl⟩ := h
        obtain ⟨hadvance', hlaid', hothers⟩ := ih (hc.advance hnext).1 has
        exact ⟨hnext.trans hadvance', hwide.append hlaid', List.forall_mem_cons.mpr ⟨hfirst, hothers⟩⟩
      · simp only [pure_eq_ok, Prod.mk.injEq] at h
        obtain ⟨rfl, rfl⟩ := h
        exact ⟨hnext, hwide, List.forall_mem_singleton.mpr hfirst⟩

/-- The spans of a root are laid out, and its slices read as its nodes. -/
theorem fieldRoot_spans {type : FieldType} {r : RawField} (hc : c.At source)
    (h : fieldRoot L type c = .ok (r, c')) :
    c.Advances c' ∧ LaidOut c.position [r.tree] c'.position ∧ r.Faithful source := by
  cases type with
  | dictionary =>
    simp only [fieldRoot, dictionary, bind_eq_ok, Prod.exists, pure_eq_ok, Prod.mk.injEq] at h
    obtain ⟨d, c', ⟨es, c'', h, rfl, rfl⟩, rfl, rfl⟩ := h
    obtain ⟨hadvance, hlaid, hfaithful⟩ := membersLoop_spans entry_spans hc h
    exact ⟨hadvance, .single (.node hlaid), hfaithful⟩
  | list =>
    simp only [fieldRoot, list, bind_eq_ok, Prod.exists, pure_eq_ok, Prod.mk.injEq] at h
    obtain ⟨d, c', ⟨ms, c'', h, rfl, rfl⟩, rfl, rfl⟩ := h
    obtain ⟨hadvance, hlaid, hfaithful⟩ := membersLoop_spans member_spans hc h
    exact ⟨hadvance, .single (.node hlaid), hfaithful⟩
  | item =>
    simp only [fieldRoot, bind_eq_ok, Prod.exists, pure_eq_ok, Prod.mk.injEq] at h
    obtain ⟨i, c', h, rfl, rfl⟩ := h
    obtain ⟨hadvance, hlaid, hfaithful, hsome, -⟩ := item_spans hc h
    exact ⟨hadvance, hlaid, hfaithful, hsome⟩

end AgentSig.StructuredFields
