import AgentSig.Commons.Narrowing
import AgentSig.StructuredFields.Parse
import AgentSig.StructuredFields.Serializer

/-!
# Structured fields under narrower limits

The parser and the serializer compare what they read and write with the limits and use the limits for
nothing else. Under smaller limits they end as under larger ones, or with the error of an exceeded
limit: no limit makes a text mean something else, or hides another error behind a wrong one.

## Main definitions

* `Limits.Below`: each limit is at most the other
* `Limits.Exceeded`: the errors of charges above the smaller limits

## Main results

* `Parser.parseRaw_narrows`, `Writer.field_narrows`: the parser and the writer
* `parse_serialize_narrows`: **limits only turn outcomes into limit errors**
-/

namespace AgentSig.StructuredFields

open Commons

/-- Each limit of `L` is at most that of `M`. -/
def Limits.Below (L M : Limits) : Prop := ∀ name, L.get name ≤ M.get name

/-- The error of a charge above a limit of `L` that is smaller than that of `M`. -/
def Limits.Exceeded (L M : Limits) (e : SfError) : Prop :=
  ∃ name observed, e = .limit name (L.get name) observed ∧ L.get name < observed ∧
    L.get name < M.get name

variable {L M : Limits} {α : Type}

/-- A charge against a smaller limit. -/
theorem Limits.check_narrows (h : L.Below M) (name : LimitName) (observed : ℕ) :
    Narrows (L.Exceeded M) (L.check name observed) (M.check name observed) := by
  apply Narrows.bind_right
  intro _ _
  rcases (h name).eq_or_lt with heq | hlt
  · rw [heq]
    exact .refl _
  · by_cases hfits : observed ≤ L.get name
    · rw [require_of hfits, require_of (hfits.trans hlt.le)]
      exact .refl _
    · rw [require_eq_error.mpr ⟨hfits, rfl⟩]
      exact .of_error ⟨name, observed, rfl, Nat.lt_of_not_le hfits, hlt⟩

/-! ## The parser -/

theorem Cursor.consumeOccurrence_narrows (h : L.Below M) (c : Cursor) :
    Narrows (L.Exceeded M) (c.consumeOccurrence L) (c.consumeOccurrence M) :=
  (L.check_narrows h _ _).bind_left _

theorem scan_narrows (h : L.Below M) (limit : LimitName) (p : UInt16 → Bool) (taken : ℕ) (t : Text) :
    Narrows (L.Exceeded M) (scan L limit p taken t) (scan M limit p taken t) := by
  induction t generalizing taken with
  | nil => exact .refl _
  | cons u rest ih =>
    apply Narrows.ite _ (.refl _)
    apply (L.check_narrows h _ _).bind
    intro _
    exact (ih _).bind_left _

theorem key_narrows (h : L.Below M) (c : Cursor) :
    Narrows (L.Exceeded M) (key L c) (key M c) := by
  apply Narrows.bind_right
  intro _ _
  exact (scan_narrows h _ _ _ _).bind_left _

theorem token_narrows (h : L.Below M) (c : Cursor) :
    Narrows (L.Exceeded M) (token L c) (token M c) :=
  (scan_narrows h _ _ _ _).bind_left _

theorem stringLoop_narrows (h : L.Below M) (position length : ℕ) (t : Text) :
    Narrows (L.Exceeded M) (stringLoop L position length t) (stringLoop M position length t) := by
  induction position, length, t using stringLoop.induct with
  | case1 => exact .refl _
  | case2 =>
    rw [stringLoop.eq_def, stringLoop.eq_def M]
    exact .refl _
  | case3 position length v rest _ ih =>
    simp only [stringLoop, reduceIte]
    apply Narrows.ite (.refl _)
    apply Narrows.bind_right
    intro _ _
    apply (L.check_narrows h _ _).bind
    intro _
    exact ih.bind_left _
  | case4 => exact .refl _
  | case5 position length u rest hquote hescape ih =>
    rw [stringLoop.eq_def, stringLoop.eq_def M]
    simp only [hquote, hescape, reduceIte]
    apply Narrows.bind_right
    intro _ _
    apply (L.check_narrows h _ _).bind
    intro _
    exact ih.bind_left _

theorem bytesLoop_narrows (h : L.Below M) (position content padding : ℕ) (t : Text) :
    Narrows (L.Exceeded M) (bytesLoop L position content padding t)
      (bytesLoop M position content padding t) := by
  induction t generalizing position content padding with
  | nil => exact .refl _
  | cons u rest ih =>
    apply Narrows.ite (.refl _)
    apply Narrows.ite
    · apply Narrows.bind_right
      intro _ _
      exact (ih _ _ _).bind_left _
    · apply Narrows.bind_right
      intro _ _
      apply (L.check_narrows h _ _).bind
      intro _
      exact (ih _ _ _).bind_left _

theorem displayLoop_narrows (h : L.Below M) (position length : ℕ) (t : Text) :
    Narrows (L.Exceeded M) (displayLoop L position length t) (displayLoop M position length t) := by
  induction position, length, t using displayLoop.induct with
  | case1 => exact .refl _
  | case2 =>
    rw [displayLoop.eq_def, displayLoop.eq_def M]
    exact .refl _
  | case3 position length u rest hquote hrange =>
    rw [displayLoop.eq_def, displayLoop.eq_def M]
    simp only [hquote, hrange, reduceIte, not_false_eq_true]
    exact .refl _
  | case4 position length first second rest hquote hrange ih =>
    simp only [displayLoop, hquote, hrange, reduceIte]
    apply Narrows.bind_right
    intro _ _
    apply (L.check_narrows h _ _).bind
    intro _
    exact ih.bind_left _
  | case5 position length rest hshort =>
    -- An escape that is cut short fails before it is charged.
    rcases rest with _ | ⟨first, _ | ⟨second, rest⟩⟩
    · exact .refl _
    · exact .refl _
    · exact absurd rfl (hshort first second rest)
  | case6 position length u rest hquote hrange hescape ih =>
    rw [displayLoop.eq_def, displayLoop.eq_def M]
    simp only [hquote, hrange, hescape, reduceIte]
    apply (L.check_narrows h _ _).bind
    intro _
    exact ih.bind_left _

theorem displayString_narrows (h : L.Below M) (c : Cursor) :
    Narrows (L.Exceeded M) (displayString L c) (displayString M c) := by
  apply Narrows.bind_right
  intro _ _
  exact (displayLoop_narrows h _ _ _).bind_left _

theorem string_narrows (h : L.Below M) (c : Cursor) :
    Narrows (L.Exceeded M) (string L c) (string M c) :=
  (stringLoop_narrows h _ _ _).bind_left _

theorem bytes_narrows (h : L.Below M) (c : Cursor) :
    Narrows (L.Exceeded M) (bytes L c) (bytes M c) :=
  (bytesLoop_narrows h _ _ _ _).bind_left _

theorem bareBranch_narrows (h : L.Below M) (c : Cursor) :
    Narrows (L.Exceeded M) (bareBranch L c) (bareBranch M c) := by
  unfold bareBranch
  cases c.code with
  | none => exact .refl _
  | some code =>
    apply Narrows.ite (.refl _)
    apply Narrows.ite ((string_narrows h c).bind_left _)
    apply Narrows.ite ((token_narrows h c).bind_left _)
    apply Narrows.ite ((bytes_narrows h c).bind_left _)
    apply Narrows.ite (.refl _)
    apply Narrows.ite (.refl _)
    exact Narrows.ite ((displayString_narrows h c).bind_left _) (.refl _)

theorem bare_narrows (h : L.Below M) (c : Cursor) :
    Narrows (L.Exceeded M) (bare L c) (bare M c) :=
  (bareBranch_narrows h c).bind_left _

theorem parameterValue_narrows (h : L.Below M) (c : Cursor) :
    Narrows (L.Exceeded M) (parameterValue L c) (parameterValue M c) :=
  Narrows.ite ((bare_narrows h _).bind_left _) (.refl _)

theorem parametersLoop_narrows (h : L.Below M) (fuel count : ℕ) (c : Cursor) :
    Narrows (L.Exceeded M) (parametersLoop L fuel count c) (parametersLoop M fuel count c) := by
  induction fuel generalizing count c with
  | zero => exact .refl _
  | succ fuel ih =>
    apply Narrows.ite _ (.refl _)
    apply (L.check_narrows h _ _).bind
    intro _
    apply (c.consumeOccurrence_narrows h).bind
    intro c₁
    apply (key_narrows h _).bind
    rintro ⟨⟨key, keySpan⟩, c₂⟩
    apply (parameterValue_narrows h _).bind
    rintro ⟨bare, c₃⟩
    exact (ih _ _).bind_left _

theorem parameters_narrows (h : L.Below M) (c : Cursor) :
    Narrows (L.Exceeded M) (parameters L c) (parameters M c) :=
  parametersLoop_narrows h _ _ _

theorem item_narrows (h : L.Below M) (c : Cursor) :
    Narrows (L.Exceeded M) (item L c) (item M c) := by
  apply (c.consumeOccurrence_narrows h).bind
  intro c₁
  apply (bare_narrows h _).bind
  rintro ⟨bare, c₂⟩
  exact (parameters_narrows h _).bind_left _

theorem innerListLoop_narrows (h : L.Below M) (fuel count : ℕ) (c : Cursor) :
    Narrows (L.Exceeded M) (innerListLoop L fuel count c) (innerListLoop M fuel count c) := by
  induction fuel generalizing count c with
  | zero => exact .refl _
  | succ fuel ih =>
    apply Narrows.bind_right
    intro _ _
    apply Narrows.ite (.refl _)
    apply (L.check_narrows h _ _).bind
    intro _
    apply (item_narrows h _).bind
    rintro ⟨item, c₂⟩
    apply Narrows.bind_right
    intro _ _
    exact (ih _ _).bind_left _

theorem innerList_narrows (h : L.Below M) (c : Cursor) :
    Narrows (L.Exceeded M) (innerList L c) (innerList M c) := by
  apply (c.consumeOccurrence_narrows h).bind
  intro c₁
  apply (innerListLoop_narrows h _ _ _).bind
  rintro ⟨items, c₂⟩
  exact (parameters_narrows h _).bind_left _

theorem member_narrows (h : L.Below M) (c : Cursor) :
    Narrows (L.Exceeded M) (member L c) (member M c) :=
  Narrows.ite ((innerList_narrows h c).bind_left _) ((item_narrows h c).bind_left _)

/-- The loop narrows when its elements do. -/
theorem membersLoop_narrows (h : L.Below M) {f g : Cursor → Except SfError (α × Cursor)}
    (hf : ∀ c, Narrows (L.Exceeded M) (f c) (g c)) (fuel count : ℕ) (c : Cursor) :
    Narrows (L.Exceeded M) (membersLoop L f fuel count c) (membersLoop M g fuel count c) := by
  induction fuel generalizing count c with
  | zero => exact .refl _
  | succ fuel ih =>
    apply Narrows.ite (.refl _)
    apply (L.check_narrows h _ _).bind
    intro _
    apply (hf c).bind
    rintro ⟨first, c₁⟩
    apply Narrows.bind_right
    rintro ⟨more, c₂⟩ _
    exact Narrows.ite ((ih _ _).bind_left _) (.refl _)

theorem entry_narrows (h : L.Below M) (c : Cursor) :
    Narrows (L.Exceeded M) (entry L c) (entry M c) := by
  apply (key_narrows h c).bind
  rintro ⟨⟨key, keySpan⟩, c₁⟩
  apply Narrows.ite ((member_narrows h _).bind_left _)
  apply (c₁.consumeOccurrence_narrows h).bind
  intro c₂
  exact (parameters_narrows h _).bind_left _

theorem fieldRoot_narrows (h : L.Below M) (type : FieldType) (c : Cursor) :
    Narrows (L.Exceeded M) (fieldRoot L type c) (fieldRoot M type c) := by
  cases type with
  | dictionary => exact ((membersLoop_narrows h (entry_narrows h) _ _ _).bind_left _).bind_left _
  | list => exact ((membersLoop_narrows h (member_narrows h) _ _ _).bind_left _).bind_left _
  | item => exact (item_narrows h c).bind_left _

/-- **The parser under smaller limits.** -/
theorem parseRaw_narrows (h : L.Below M) (input : Input) (type : FieldType) :
    Narrows (L.Exceeded M) (parseRaw L input type) (parseRaw M input type) := by
  apply (L.check_narrows h _ _).bind
  intro _
  cases input.units.findIdx? fun code => ¬ code ≤ 127 with
  | some index => exact .refl _
  | none => exact ((fieldRoot_narrows h _ _).bind_left _).bind_left _

theorem parse_narrows (h : L.Below M) (input : Input) (type : FieldType) :
    Narrows (L.Exceeded M) (parse L input type) (parse M input type) :=
  (parseRaw_narrows h input type).bind_left _

/-! ## The serializer -/

namespace Writer

theorem reserve_narrows (h : L.Below M) (w : Writer) (length : ℕ) :
    Narrows (L.Exceeded M) (w.reserve L length) (w.reserve M length) :=
  L.check_narrows h _ _

theorem append_narrows (h : L.Below M) (value : Text) (w : Writer) :
    Narrows (L.Exceeded M) (append L value w) (append M value w) :=
  (w.reserve_narrows h _).bind_left _

theorem consumeOccurrence_narrows (h : L.Below M) (w : Writer) :
    Narrows (L.Exceeded M) (consumeOccurrence L w) (consumeOccurrence M w) :=
  (L.check_narrows h _ _).bind_left _

theorem key_narrows (h : L.Below M) (seen : List Text) (k : Text) (w : Writer) :
    Narrows (L.Exceeded M) (key L seen k w) (key M seen k w) := by
  apply (L.check_narrows h _ _).bind
  intro _
  apply Narrows.bind_right
  intro _ _
  apply Narrows.bind_right
  intro _ _
  apply (w.reserve_narrows h _).bind
  intro _
  exact append_narrows h k w

theorem measureString_narrows (h : L.Below M) (w : Writer) (encodedSize : ℕ) (t : Text) :
    Narrows (L.Exceeded M) (w.measureString L encodedSize t) (w.measureString M encodedSize t) := by
  induction t generalizing encodedSize with
  | nil => exact .refl _
  | cons c rest ih =>
    apply Narrows.bind_right
    intro _ _
    apply (w.reserve_narrows h _).bind
    intro _
    exact ih _

theorem string_narrows (h : L.Below M) (value : Text) (w : Writer) :
    Narrows (L.Exceeded M) (string L value w) (string M value w) := by
  apply (L.check_narrows h _ _).bind
  intro _
  apply (w.reserve_narrows h _).bind
  intro _
  apply (w.measureString_narrows h _ _).bind
  intro _
  exact append_narrows h _ w

theorem measureDisplayString_narrows (h : L.Below M) (w : Writer) (decodedSize encodedSize : ℕ)
    (t : Text) : Narrows (L.Exceeded M) (w.measureDisplayString L decodedSize encodedSize t)
      (w.measureDisplayString M decodedSize encodedSize t) := by
  induction decodedSize, encodedSize, t using measureDisplayString.induct with
  | case1 => exact .refl _
  | case2 decodedSize encodedSize code hhigh low rest ih =>
    rw [measureDisplayString.eq_def, measureDisplayString.eq_def M]
    simp only [hhigh, reduceIte]
    apply Narrows.bind_right
    intro _ _
    apply (L.check_narrows h _ _).bind
    intro _
    apply (w.reserve_narrows h _).bind
    intro _
    exact ih
  | case3 decodedSize encodedSize code hhigh =>
    rw [measureDisplayString.eq_def, measureDisplayString.eq_def M]
    simp only [hhigh, reduceIte]
    exact .refl _
  | case4 decodedSize encodedSize code rest hhigh hlow =>
    rw [measureDisplayString.eq_def, measureDisplayString.eq_def M]
    simp only [hhigh, hlow, reduceIte]
    exact .refl _
  | case5 decodedSize encodedSize code rest hhigh hlow _ _ ih =>
    rw [measureDisplayString.eq_def, measureDisplayString.eq_def M]
    simp only [hhigh, hlow]
    apply (L.check_narrows h _ _).bind
    intro _
    apply (w.reserve_narrows h _).bind
    intro _
    exact ih

theorem displayString_narrows (h : L.Below M) (value : Text) (w : Writer) :
    Narrows (L.Exceeded M) (displayString L value w) (displayString M value w) := by
  apply (L.check_narrows h _ _).bind
  intro _
  apply (w.reserve_narrows h _).bind
  intro _
  apply (w.measureDisplayString_narrows h _ _ _).bind
  intro _
  exact append_narrows h _ w

theorem bare_narrows (h : L.Below M) (b : BareItem) (w : Writer) :
    Narrows (L.Exceeded M) (bare L b w) (bare M b w) := by
  cases b with
  | integer value => exact Narrows.bind_right fun z _ => append_narrows h _ w
  | date value => exact Narrows.bind_right fun z _ => append_narrows h _ w
  | decimal value => exact Narrows.bind_right fun z _ => append_narrows h _ w
  | boolean value => exact append_narrows h _ w
  | token value =>
    apply (L.check_narrows h _ _).bind
    intro _
    exact Narrows.bind_right fun _ _ => append_narrows h _ w
  | string value => exact string_narrows h value w
  | displayString value => exact displayString_narrows h value w
  | bytes value =>
    apply (L.check_narrows h _ _).bind
    intro _
    apply (w.reserve_narrows h _).bind
    intro _
    exact append_narrows h _ w

theorem parameterValue_narrows (h : L.Below M) (value : BareItem) (w : Writer) :
    Narrows (L.Exceeded M) (parameterValue L value w) (parameterValue M value w) :=
  Narrows.ite (.refl _) ((append_narrows h _ w).bind fun w => bare_narrows h value w)

theorem parametersLoop_narrows (h : L.Below M) (seen : List Text) (ps : Parameters) (w : Writer) :
    Narrows (L.Exceeded M) (parametersLoop L seen ps w) (parametersLoop M seen ps w) := by
  induction ps generalizing seen w with
  | nil => exact .refl _
  | cons p rest ih =>
    obtain ⟨k, value⟩ := p
    apply (consumeOccurrence_narrows h w).bind
    intro w
    apply (append_narrows h _ w).bind
    intro w
    apply (key_narrows h _ _ w).bind
    intro w
    apply (parameterValue_narrows h _ w).bind
    intro w
    exact ih _ w

theorem parameters_narrows (h : L.Below M) (ps : Parameters) (w : Writer) :
    Narrows (L.Exceeded M) (parameters L ps w) (parameters M ps w) :=
  (L.check_narrows h _ _).bind fun _ => parametersLoop_narrows h _ _ w

theorem item_narrows (h : L.Below M) (i : Item) (w : Writer) :
    Narrows (L.Exceeded M) (item L i w) (item M i w) := by
  apply (consumeOccurrence_narrows h w).bind
  intro w
  apply (bare_narrows h _ w).bind
  intro w
  exact parameters_narrows h _ w

/-- The loop narrows when its elements do. -/
theorem separated_narrows (h : L.Below M) (separator : Text) {f g : α → Writer → Except SfError Writer}
    (hf : ∀ a w, Narrows (L.Exceeded M) (f a w) (g a w)) (as : List α) (w : Writer) :
    Narrows (L.Exceeded M) (separated L separator f as w) (separated M separator g as w) := by
  induction as generalizing w with
  | nil => exact .refl _
  | cons a as ih =>
    cases as with
    | nil => exact hf a w
    | cons b rest =>
      apply (hf a w).bind
      intro w
      apply (append_narrows h _ w).bind
      intro w
      exact ih w

theorem member_narrows (h : L.Below M) (m : Member) (w : Writer) :
    Narrows (L.Exceeded M) (member L m w) (member M m w) := by
  cases m with
  | item i => exact item_narrows h i w
  | innerList l =>
    apply (consumeOccurrence_narrows h w).bind
    intro w
    apply (L.check_narrows h _ _).bind
    intro _
    apply (append_narrows h _ w).bind
    intro w
    apply (separated_narrows h _ (item_narrows h) _ w).bind
    intro w
    apply (append_narrows h _ w).bind
    intro w
    exact parameters_narrows h _ w

theorem entry_narrows (h : L.Below M) (seen : List Text) (e : Text × Member) (w : Writer) :
    Narrows (L.Exceeded M) (entry L seen e w) (entry M seen e w) := by
  obtain ⟨k, m⟩ := e
  apply (key_narrows h _ _ w).bind
  intro w
  have hmember (m : Member) : Narrows (L.Exceeded M) (append L [61] w >>= member L m)
      (append M [61] w >>= member M m) :=
    (append_narrows h _ w).bind fun w => member_narrows h m w
  -- Boolean true is written by its parameters alone.
  cases m with
  | innerList l => exact hmember (.innerList l)
  | item i =>
    obtain ⟨b, ps⟩ := i
    cases b with
    | boolean value =>
      cases value with
      | true => exact (consumeOccurrence_narrows h w).bind fun w => parameters_narrows h ps w
      | false => exact hmember (.item ⟨.boolean false, ps⟩)
    | _ => exact hmember _

theorem entriesLoop_narrows (h : L.Below M) (seen : List Text) (es : List (Text × Member)) (w : Writer) :
    Narrows (L.Exceeded M) (entriesLoop L seen es w) (entriesLoop M seen es w) := by
  induction es generalizing seen w with
  | nil => exact .refl _
  | cons e es ih =>
    cases es with
    | nil => exact entry_narrows h seen e w
    | cons e' rest =>
      apply (entry_narrows h seen e w).bind
      intro w
      apply (append_narrows h _ w).bind
      intro w
      exact ih _ w

/-- **The writer under smaller limits.** -/
theorem field_narrows (h : L.Below M) (f : Field) (w : Writer) :
    Narrows (L.Exceeded M) (field L f w) (field M f w) := by
  cases f with
  | item i => exact item_narrows h i w
  | list members =>
    apply (L.check_narrows h _ _).bind
    intro _
    exact separated_narrows h _ (member_narrows h) _ w
  | dictionary entries =>
    apply (L.check_narrows h _ _).bind
    intro _
    exact entriesLoop_narrows h _ _ w

end Writer

theorem serialize_narrows (h : L.Below M) (f : Field) :
    Narrows (L.Exceeded M) (serialize L f) (serialize M f) :=
  (Writer.field_narrows h f _).bind_left _

theorem serializeMember_narrows (h : L.Below M) (m : Member) :
    Narrows (L.Exceeded M) (serializeMember L m) (serializeMember M m) :=
  (Writer.member_narrows h m _).bind_left _

/-- **Limits only turn outcomes into limit errors.** Under smaller limits, parsing and serializing end
as under the larger ones, with the same result or the same error, or they fail with the error of a
charge above a limit that is smaller. -/
theorem parse_serialize_narrows (L M : Limits) (h : L.Below M) :
    (∀ input type, parse L input type = parse M input type ∨
      ∃ e, L.Exceeded M e ∧ parse L input type = .error e) ∧
    (∀ f, serialize L f = serialize M f ∨ ∃ e, L.Exceeded M e ∧ serialize L f = .error e) ∧
    ∀ m, serializeMember L m = serializeMember M m ∨
      ∃ e, L.Exceeded M e ∧ serializeMember L m = .error e :=
  ⟨parse_narrows h, serialize_narrows h, serializeMember_narrows h⟩

/-- The default limits, but for a single member. -/
def singleMember : Limits where
  get name := if name = .maxMembers then 1 else DEFAULT_LIMITS.get name
  safe name := by
    split
    · decide
    · exact DEFAULT_LIMITS.safe name

theorem singleMember_below : singleMember.Below DEFAULT_LIMITS := by
  intro name
  unfold singleMember
  dsimp only
  split
  · rename_i hname
    rw [hname]
    decide
  · exact le_rfl

theorem parse_serialize_narrows_singleMember :
    parse singleMember (.text (ascii "a;b=\"")) .list = parse DEFAULT_LIMITS (.text (ascii "a;b=\"")) .list ∧
      ∃ e, singleMember.Exceeded DEFAULT_LIMITS e ∧
        parse singleMember (.text (ascii "a, b")) .list = .error e := by
  obtain ⟨hparse, -, -⟩ := parse_serialize_narrows singleMember DEFAULT_LIMITS singleMember_below
  constructor
  · rcases hparse (.text (ascii "a;b=\"")) .list with h | ⟨e, ⟨name, observed, rfl, -, -⟩, h⟩
    · exact h
    · cases h
  · rcases hparse (.text (ascii "a, b")) .list with h | h
    · cases h
    · exact h

end AgentSig.StructuredFields
