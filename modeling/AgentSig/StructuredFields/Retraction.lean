import AgentSig.StructuredFields.CanonicalText
import AgentSig.StructuredFields.Determinism
import Mathlib.Algebra.Order.BigOperators.Group.List

/-!
# Canonicalization

The parser is more liberal than the writer: it takes optional whitespace, repeated keys,
surplus zeros, missing padding and needless escapes. Every value it accepts is serializable all
the same, with charges within the limits of the parse, so parsing and then serializing is a
retraction of the accepted texts onto the canonical ones.

## Main results

* `Rfc9651.Parses.serializable`: a value that is read is serializable
* `Field.Within.lastWins`: resolving repeated keys charges no more
* `canonicalization_retraction`: **canonicalization is a retraction**
-/

namespace AgentSig.Rfc9651

open Commons StructuredFields

/-! ## What is read is serializable -/

theorem natAbs_applySign (negative : Bool) (n : ℕ) : (applySign negative n).natAbs = n := by
  cases negative <;> simp [applySign]

theorem readDigits_le {ds : Text} (h : ∀ c ∈ ds, DIGIT c) {k : ℕ} (hlen : ds.length ≤ k) :
    readDigits 0 ds ≤ 10 ^ k - 1 := by
  have hlt := readDigits_lt (fun c hc => by simpa [DIGIT] using h c hc) 0
  have hpow : 10 ^ ds.length ≤ 10 ^ k := Nat.pow_le_pow_right (by omega) hlen
  omega

theorem Integer.natAbs_le {input : Text} {z : ℤ} {rest : Text} (h : Integer input z rest) :
    z.natAbs ≤ 999999999999999 := by
  obtain ⟨negative, ds, -, hds, -, hlen, -, rfl⟩ := h
  rw [natAbs_applySign]
  exact readDigits_le hds hlen

/-- At most 12 digits before the point and 3 after it make at most 15 digits of thousandths. -/
theorem Decimal.natAbs_le {input : Text} {z : ℤ} {rest : Text} (h : Decimal input z rest) :
    z.natAbs ≤ 999999999999999 := by
  obtain ⟨negative, whole, fraction, -, hwhole, hfraction, -, hwlen, hfpos, hflen, -, rfl⟩ := h
  rw [natAbs_applySign]
  have hw : readDigits 0 whole ≤ 999999999999 := readDigits_le hwhole hwlen
  have hf : readDigits 0 fraction * 10 ^ (3 - fraction.length) ≤ 999 := by
    have hlt := readDigits_le hfraction (le_refl fraction.length)
    obtain hlen | hlen | hlen : fraction.length = 1 ∨ fraction.length = 2 ∨ fraction.length = 3 := by
      omega
    all_goals
      rw [hlen] at hlt ⊢
      omega
  omega

theorem StringBody.printable_value {input value rest : Text} (h : StringBody input value rest) :
    ∀ c ∈ value, printable c := by
  induction h with
  | close => simp
  | escape hc _ ih =>
    refine List.forall_mem_cons.mpr ⟨?_, ih⟩
    rcases hc with rfl | rfl <;> decide
  | char hc _ _ _ ih => exact List.forall_mem_cons.mpr ⟨hc, ih⟩

theorem Bare.serializable {input : Text} {v : BareItem} {rest : Text} (h : Bare input v rest) :
    v.Serializable := by
  cases h with
  | integer h => exact ⟨_, rfl, h.natAbs_le⟩
  | decimal h => exact ⟨_, rfl, h.natAbs_le⟩
  | date h => exact ⟨_, rfl, h.natAbs_le⟩
  | string h => exact h.printable_value
  | token h => exact tokenPattern_iff.mpr ⟨h.2.1, h.2.2.1⟩
  | bytes => trivial
  | boolean => trivial
  | displayString => exact wellFormed_units _

theorem Key.pattern {input k rest : Text} (h : Key input k rest) : Writer.keyPattern k :=
  keyPattern_iff.mpr ⟨h.2.1, h.2.2.1⟩

theorem ParameterValue.serializable {input : Text} {v : BareItem} {rest : Text}
    (h : ParameterValue input v rest) : v.Serializable := by
  cases h with
  | explicit h => exact h.serializable
  | implicit => trivial

theorem Parameters.values {input : Text} {ps : StructuredFields.Parameters} {rest : Text}
    (h : Parameters input ps rest) : ∀ p ∈ ps, Writer.keyPattern p.1 ∧ p.2.Serializable := by
  induction h with
  | nil => simp
  | cons hk hv _ ih => exact List.forall_mem_cons.mpr ⟨⟨hk.pattern, hv.serializable⟩, ih⟩

/-- Resolving repeated keys keeps each key once. -/
theorem Parameters.serializable {input : Text} {ps : StructuredFields.Parameters} {rest : Text}
    (h : Parameters input ps rest) : ParametersSerializable (OrderedMap.lastWins ps) :=
  ⟨OrderedMap.nodup_keys_lastWins ps, fun p hp => h.values p (OrderedMap.mem_of_mem_lastWins hp)⟩

theorem Item.serializable {input : Text} {i : StructuredFields.Item} {rest : Text}
    (h : Item input i rest) : i.lastWins.Serializable := by
  obtain ⟨s, hb, hp⟩ := h
  exact ⟨hb.serializable, hp.serializable⟩

theorem InnerItems.serializable {input : Text} {is : List StructuredFields.Item} {rest : Text}
    (h : InnerItems input is rest) : ∀ i ∈ is, i.lastWins.Serializable := by
  induction h with
  | close => simp
  | item _ _ hi _ _ ih => exact List.forall_mem_cons.mpr ⟨hi.serializable, ih⟩

theorem Member.serializable {input : Text} {m : StructuredFields.Member} {rest : Text}
    (h : Member input m rest) : m.lastWins.Serializable := by
  cases h with
  | innerList h =>
    obtain ⟨s, s', -, hi, hp⟩ := h
    exact ⟨List.forall_mem_map.mpr hi.serializable, hp.serializable⟩
  | item _ h => exact h.serializable

theorem Entry.serializable {input : Text} {e : Text × StructuredFields.Member} {rest : Text}
    (h : Entry input e rest) : Writer.keyPattern e.1 ∧ e.2.lastWins.Serializable := by
  cases h with
  | explicit hk hm => exact ⟨hk.pattern, hm.serializable⟩
  | implicit hk _ hp => exact ⟨hk.pattern, trivial, hp.serializable⟩

theorem Separated.forall {α : Type} {element : Text → α → Text → Prop} {P : α → Prop}
    (hP : ∀ input a rest, element input a rest → P a) {input : Text} {as : List α}
    (h : Separated element input as) : ∀ a ∈ as, P a := by
  induction h with
  | nil => simp
  | last _ ha _ => simpa using hP _ _ _ ha
  | cons _ ha _ _ ih => exact List.forall_mem_cons.mpr ⟨hP _ _ _ ha, ih⟩

/-- **The value that a text is read as is serializable.** -/
theorem Parses.serializable {type : FieldType} {input : Text} {f : Field}
    (h : Parses type input f) : f.lastWins.Serializable := by
  cases h with
  | list _ h =>
    refine List.forall_mem_map.mpr (Separated.forall (fun _ _ _ hm => ?_) h)
    exact hm.serializable
  | @dictionary _ es _ h =>
    have hentries : ∀ e ∈ es, Writer.keyPattern e.1 ∧ e.2.lastWins.Serializable :=
      Separated.forall (fun _ _ _ he => he.serializable) h
    constructor
    · have hnodup := OrderedMap.nodup_keys_lastWins es
      simpa [Field.lastWins, Function.comp_def] using hnodup
    · intro e he
      obtain ⟨e', he', rfl⟩ := List.mem_map.mp he
      exact hentries e' (OrderedMap.mem_of_mem_lastWins he')
  | item _ h _ => exact h.serializable

end AgentSig.Rfc9651

namespace AgentSig.StructuredFields

open Commons

variable {L : Limits}

/-! ## Resolving repeated keys charges no more -/

theorem ParametersWithin.lastWins {ps : Parameters} (h : ParametersWithin L ps) :
    ParametersWithin L (OrderedMap.lastWins ps) :=
  ⟨(OrderedMap.length_lastWins_le ps).trans h.1,
    fun p hp => h.2 p (OrderedMap.mem_of_mem_lastWins hp)⟩

theorem Item.Within.lastWins {i : Item} (h : i.Within L) : i.lastWins.Within L :=
  ⟨h.1, h.2.lastWins⟩

theorem Member.Within.lastWins {m : Member} (h : m.Within L) : m.lastWins.Within L := by
  cases m with
  | item i => exact Item.Within.lastWins h
  | innerList l =>
    obtain ⟨hlen, hitems, hparams⟩ := h
    refine ⟨by simpa [InnerList.lastWins] using hlen, ?_, hparams.lastWins⟩
    exact List.forall_mem_map.mpr fun i hi => (hitems i hi).lastWins

theorem Item.occurrences_lastWins_le (i : Item) : i.lastWins.occurrences ≤ i.occurrences :=
  Nat.add_le_add_left (OrderedMap.length_lastWins_le i.parameters) 1

theorem Member.occurrences_lastWins_le (m : Member) : m.lastWins.occurrences ≤ m.occurrences := by
  cases m with
  | item i => exact i.occurrences_lastWins_le
  | innerList l =>
    have hitems : (l.items.map fun i => i.lastWins.occurrences).sum ≤
        (l.items.map Item.occurrences).sum :=
      List.sum_le_sum fun i _ => i.occurrences_lastWins_le
    have hparams := OrderedMap.length_lastWins_le l.parameters
    simp only [Member.lastWins, InnerList.lastWins, Member.occurrences, InnerList.occurrences,
      List.map_map, Function.comp_def]
    omega

/-- Resolving repeated keys charges no more. -/
theorem Field.Within.lastWins {f : Field} (h : f.Within L) : f.lastWins.Within L := by
  obtain ⟨hocc, h⟩ := h
  cases f with
  | item i => exact ⟨i.occurrences_lastWins_le.trans hocc, Item.Within.lastWins h⟩
  | list ms =>
    refine ⟨le_trans ?_ hocc, by simpa using h.1, ?_⟩
    · simp only [Field.lastWins, Field.occurrences, List.map_map, Function.comp_def]
      exact List.sum_le_sum fun m _ => m.occurrences_lastWins_le
    · exact List.forall_mem_map.mpr fun m hm => (h.2 m hm).lastWins
  | dictionary es =>
    refine ⟨le_trans ?_ hocc, ?_, ?_⟩
    · simp only [Field.lastWins, Field.occurrences, List.map_map, Function.comp_def]
      calc ((OrderedMap.lastWins es).map fun e => e.2.lastWins.occurrences).sum
          ≤ ((OrderedMap.lastWins es).map fun e => e.2.occurrences).sum :=
            List.sum_le_sum fun e _ => e.2.occurrences_lastWins_le
        _ ≤ (es.map fun e => e.2.occurrences).sum := OrderedMap.sum_lastWins_le _ es
    · rw [List.length_map]
      exact (OrderedMap.length_lastWins_le es).trans h.1
    · intro e he
      obtain ⟨e', he', rfl⟩ := List.mem_map.mp he
      obtain ⟨hkey, hm⟩ := h.2 e' (OrderedMap.mem_of_mem_lastWins he')
      exact ⟨hkey, hm.lastWins⟩

/-! ## The retraction -/

theorem Field.type_lastWins (f : Field) : f.lastWins.type = f.type := by
  cases f <;> rfl

theorem parse_serializable {w : Input} {type : FieldType} {f : Field}
    (h : parse L w type = .ok f) : f.Serializable ∧ f.Within L ∧ f.type = type := by
  obtain ⟨g, hg, rfl, -, hw⟩ := parse_sound h
  refine ⟨hg.serializable, hw.lastWins, ?_⟩
  rw [Field.type_lastWins]
  cases hg <;> rfl

/-- `L` with the budget `n` for the output. -/
def Limits.withOutput (L : Limits) (n : ℕ) (h : n ≤ maxSafeInteger) : Limits where
  get name := if name = .maxOutputBytes then n else L.get name
  safe name := by
    split
    · exact h
    · exact L.safe name

/-- The canonical text of a parsed field is read as that field. -/
theorem parse_text {w : Input} {type : FieldType} {f : Field} (h : parse L w type = .ok f)
    {M : Limits} (hM : M.Admits L) (hlen : f.text.length ≤ M.get .maxInputBytes) :
    parse M (.text f.text) type = .ok f := by
  obtain ⟨hf, hw, rfl⟩ := parse_serializable h
  -- The text is written under limits whose output budget is the input budget of `M`.
  set K := M.withOutput (M.get .maxInputBytes) (M.safe _)
  have hK : K.Admits L := by
    intro name hin hout
    simpa [K, Limits.withOutput, hout] using hM name hin hout
  have hwritten : serialize K f = .ok f.text := serialize_of_serializable hf (hw.mono hK) hlen
  obtain ⟨-, hread⟩ := parse_serialize K f f.text hwritten
  rw [hread M (hw.mono hM) hlen, parse_canonical h]

/-- **Canonicalization is a retraction.** Under all limits that admit the charges of the parse, a
parsed field is serialized exactly when its canonical text fits the output, and that text is
parsed to the field exactly when it fits the input; whatever field it is parsed to serializes to
the same text again. So accepted texts have the same canonical text exactly when they are parsed
to the same field. -/
theorem canonicalization_retraction (type : FieldType) :
    (∀ (L : Limits) (w : Input) (f : Field), parse L w type = .ok f →
      ∀ M : Limits, M.Admits L →
        (serialize M f = .ok f.text ↔ f.text.length ≤ M.get .maxOutputBytes) ∧
        (parse M (.text f.text) type = .ok f ↔ f.text.length ≤ M.get .maxInputBytes) ∧
        ∀ c g, serialize M f = .ok c → parse M (.text c) type = .ok g →
          g = f ∧ serialize M g = .ok c) ∧
    ∀ (L L' M M' : Limits) (w w' : Input) (f f' : Field) (c c' : Text),
      parse L w type = .ok f → parse L' w' type = .ok f' →
      serialize M f = .ok c → serialize M' f' = .ok c' → (c = c' ↔ f = f') := by
  have hfits {M : Limits} {t : Text} {g : Field} (hg : parse M (.text t) type = .ok g) :
      t.length ≤ M.get .maxInputBytes := by
    obtain ⟨_, _, _, hlen, _⟩ := parse_sound hg
    exact hlen
  constructor
  · intro L w f h M hM
    obtain ⟨hf, hw, -⟩ := parse_serializable h
    refine ⟨⟨fun hc => (text_of_serialize hf hc).2, serialize_of_serializable hf (hw.mono hM)⟩,
      ⟨hfits, parse_text h hM⟩, ?_⟩
    intro c g hc hg
    have hgf : parse M (.text f.text) type = .ok f := by
      apply parse_text h hM
      rw [← (text_of_serialize hf hc).1]
      exact hfits hg
    rw [← (text_of_serialize hf hc).1, hg] at hgf
    obtain rfl : g = f := Except.ok.inj hgf
    exact ⟨rfl, hc⟩
  · intro L L' M M' w w' f f' c c' h h' hc hc'
    obtain ⟨hf, -, hft⟩ := parse_serializable h
    obtain ⟨hf', -, hft'⟩ := parse_serializable h'
    constructor
    · -- The text has one derivation, and its value is the field up to `-0`.
      rintro rfl
      have hlen := (text_of_serialize hf hc).2.trans (M.safe _)
      obtain ⟨-, hp, -⟩ := serialize_spec hc
      obtain ⟨-, hp', -⟩ := serialize_spec hc'
      rw [parse_canonical h, hft] at hp
      rw [parse_canonical h', hft'] at hp'
      exact hp.unique hp' hlen
    · rintro rfl
      rw [(text_of_serialize hf hc).1, (text_of_serialize hf' hc').1]

/-- A repeated key, missing padding, an explicit true and tight commas become canonical. -/
theorem canonicalization_retraction_example :
    ∃ f, parse DEFAULT_LIMITS (.text (ascii "a=1,b;x=?1,a=:YQ:")) .dictionary = .ok f ∧
      serialize DEFAULT_LIMITS f = .ok (ascii "a=:YQ==:, b;x") ∧
      parse DEFAULT_LIMITS (.text (ascii "a=:YQ==:, b;x")) .dictionary = .ok f := by
  have hparse : parse DEFAULT_LIMITS (.text (ascii "a=1,b;x=?1,a=:YQ:")) .dictionary =
      .ok (.dictionary [(ascii "a", .item ⟨.bytes [97], []⟩),
        (ascii "b", .item ⟨.boolean true, [(ascii "x", .boolean true)]⟩)]) := by rfl
  have hadmits : DEFAULT_LIMITS.Admits DEFAULT_LIMITS := fun _ _ _ => le_rfl
  obtain ⟨hserialize, hread, -⟩ :=
    (canonicalization_retraction .dictionary).1 _ _ _ hparse DEFAULT_LIMITS hadmits
  exact ⟨_, hparse, hserialize.mpr (by decide), hread.mpr (by decide)⟩

/-- A canonical text can be longer than the text it came from, and then exceed its input limit. -/
theorem canonical_text_exceeds_input : ∃ L, resolveLimits [("maxInputBytes", .integer 3)] = .ok L ∧
    ∃ f, parse L (.text (ascii "1,2")) .list = .ok f ∧ serialize L f = .ok (ascii "1, 2") ∧
      parse L (.text (ascii "1, 2")) .list = .error (.limit .maxInputBytes 3 4) := by
  refine ⟨_, rfl, .list [.item ⟨.integer (.integer 1), []⟩, .item ⟨.integer (.integer 2), []⟩], ?_,
    ?_, ?_⟩
  · rfl
  · rfl
  · rfl

end AgentSig.StructuredFields
