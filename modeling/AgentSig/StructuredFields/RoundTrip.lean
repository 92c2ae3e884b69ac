import AgentSig.StructuredFields.BareTexts
import AgentSig.StructuredFields.Conformance

/-!
# Serializing and then parsing

The text that the writer appends for a value has a derivation in RFC 9651 whose value is
that value up to `-0`, and what the writer charges bounds what reading the text charges. So
`parse` inverts `serialize`.

## Main definitions

* `ParametersFollow`, `ItemFollows`, `MemberFollows`: a text does not extend a value

## Main results

* `Writer.parameters_wrote`, `Writer.item_wrote`, `Writer.member_wrote`: the texts of values
* `serialize_spec`: the text of a field
* `parse_serialize`: **`parse` inverts `serialize`**
-/

namespace AgentSig.StructuredFields

open Commons

variable {L : Limits}

/-! ## What may follow -/

/-- A character that extends a parameter: a semicolon, an equals sign or a key character. -/
def extendsParameter (c : UInt16) : Bool := c == 0x3b || c == 0x3d || Rfc9651.keyChar c

/-- `rest` does not extend the text of the parameters `ps`. -/
def ParametersFollow (ps : Parameters) (rest : Text) : Prop :=
  StartsWithout extendsParameter rest ∧ ∀ p ∈ ps, Follows p.2 rest

/-- `rest` does not extend the text of the item `i`. -/
def ItemFollows (i : Item) (rest : Text) : Prop :=
  Follows i.bare rest ∧ ParametersFollow i.parameters rest

/-- `rest` does not extend the text of the member `m`. -/
def MemberFollows : Member → Text → Prop
  | .item i, rest => ItemFollows i rest
  | .innerList l, rest => ParametersFollow l.parameters rest

/-- A character that ends every value: a space, a comma or a closing parenthesis. -/
def ends (c : UInt16) : Bool := c == 0x20 || c == 0x2c || c == 0x29

/-- A text that is empty or starts with an ending character. -/
def Ended (t : Text) : Prop := StartsWithout (fun c => !ends c) t

theorem ended_cons {c : UInt16} {t : Text} (h : ends c) : Ended (c :: t) :=
  startsWithout_cons.mpr (by simp [h])

theorem startsWithout_of_ended {p : UInt16 → Bool} {t : Text} (h : Ended t)
    (hp : p 0x20 = false ∧ p 0x2c = false ∧ p 0x29 = false) : StartsWithout p t := by
  intro c hc
  have := h c hc
  simp only [Bool.not_eq_false', ends, Bool.or_eq_true, beq_iff_eq] at this
  rcases this with (rfl | rfl) | rfl
  · exact hp.1
  · exact hp.2.1
  · exact hp.2.2

theorem follows_of_ended {t : Text} (h : Ended t) (b : BareItem) : Follows b t := by
  cases b <;> first | exact startsWithout_of_ended h (by decide) | trivial

theorem parametersFollow_of_ended {t : Text} (h : Ended t) (ps : Parameters) :
    ParametersFollow ps t :=
  ⟨startsWithout_of_ended h (by decide), fun p _ => follows_of_ended h p.2⟩

theorem itemFollows_of_ended {t : Text} (h : Ended t) (i : Item) : ItemFollows i t :=
  ⟨follows_of_ended h i.bare, parametersFollow_of_ended h i.parameters⟩

theorem memberFollows_of_ended {t : Text} (h : Ended t) (m : Member) : MemberFollows m t := by
  cases m with
  | item i => exact itemFollows_of_ended h i
  | innerList l => exact parametersFollow_of_ended h l.parameters

/-- Parameters that follow a value do not extend it. -/
theorem follows_semicolon (b : BareItem) (t : Text) : Follows b (0x3b :: t) := by
  cases b <;> first | exact startsWithout_cons.mpr (by decide) | trivial

/-! ## Parameters -/

theorem parameterValue_wrote {b : BareItem} {w w' : Writer} (h : w.parameterValue L b = .ok w') :
    ∃ s, Wrote L w s 0 w' ∧ isPrintable s ∧ b.Within L ∧
      (∀ {rest}, StartsWithout Rfc9651.keyChar rest → StartsWithout Rfc9651.keyChar (s ++ rest)) ∧
      ∀ {rest}, Follows b rest → StartsWithout (· == 0x3d) rest →
        Rfc9651.ParameterValue (s ++ rest) b.canonical rest := by
  unfold Writer.parameterValue at h
  split at h
  · rename_i hb
    simp only [pure_eq_ok] at h
    subst h hb
    exact ⟨[], .refl w, rfl, trivial, id, fun _ => .implicit⟩
  · simp only [bind_eq_ok] at h
    obtain ⟨w₁, hw₁, h⟩ := h
    obtain ⟨s, hs, hascii, hw, hspec⟩ := Writer.bare_wrote h
    exact ⟨_, (Writer.append_wrote hw₁).trans hs, isPrintable_cons.mpr ⟨by decide, hascii⟩, hw,
      fun _ => startsWithout_cons.mpr (by decide), fun hf _ => .explicit (hspec hf)⟩

theorem parametersLoop_wrote {seen : List Text} {ps : Parameters} {w w' : Writer}
    (h : w.parametersLoop L seen ps = .ok w') :
    ∃ s, Wrote L w s ps.length w' ∧ isPrintable s ∧
      (∀ p ∈ ps, p.1.length ≤ L.get .maxKeyLength ∧ p.2.Within L) ∧
      (ps.map (·.1)).Nodup ∧ (∀ p ∈ ps, p.1 ∉ seen) ∧ (s = [] ∨ s.head? = some 0x3b) ∧
      ∀ {rest}, ParametersFollow ps rest →
        Rfc9651.Parameters (s ++ rest) (canonicalParameters ps) rest := by
  induction ps generalizing seen w with
  | nil =>
    simp only [Writer.parametersLoop, pure_eq_ok] at h
    subst h
    refine ⟨[], .refl w, rfl, by simp, by simp, by simp, .inl rfl, fun hf => .nil ?_⟩
    exact hf.1.mono fun c hc => by simp [extendsParameter, eq_of_beq hc]
  | cons p ps ih =>
    obtain ⟨k, b⟩ := p
    simp only [Writer.parametersLoop, bind_eq_ok] at h
    obtain ⟨w₁, hw₁, w₂, hw₂, w₃, hw₃, w₄, hw₄, h⟩ := h
    obtain ⟨hwk, hka, hklen, hkseen, hkey⟩ := Writer.key_wrote hw₃
    obtain ⟨v, hwv, hva, hvw, hvkey, hvalue⟩ := parameterValue_wrote hw₄
    obtain ⟨s, hws, hsa, hsw, hnodup, hnotseen, hhead, hspec⟩ := ih h
    refine ⟨0x3b :: (k ++ v ++ s), ?_, ?_, ?_, ?_, ?_, .inr rfl, fun {rest} hf => ?_⟩
    · have := (Writer.consumeOccurrence_wrote hw₁).trans ((Writer.append_wrote hw₂).trans
        ((hwk.trans hwv).trans hws))
      simpa [Nat.add_comm] using this
    · rw [isPrintable_cons, isPrintable_append, isPrintable_append, hka, hva, hsa]
      exact ⟨by decide, rfl⟩
    · exact List.forall_mem_cons.mpr ⟨⟨hklen, hvw⟩, hsw⟩
    · rw [List.map_cons, List.nodup_cons]
      refine ⟨fun hk => ?_, hnodup⟩
      obtain ⟨p, hp, heq⟩ := List.mem_map.mp hk
      exact hnotseen p hp (heq ▸ List.mem_cons_self)
    · exact List.forall_mem_cons.mpr ⟨hkseen, fun p hp hs => hnotseen p hp (List.mem_cons_of_mem _ hs)⟩
    · obtain ⟨hrest, hfollows⟩ := hf
      obtain ⟨hbf, hpf⟩ := List.forall_mem_cons.mp hfollows
      -- The text after the value is the next parameter or `rest`: neither extends the value.
      have hnext : Follows b (s ++ rest) ∧ StartsWithout (· == 0x3d) (s ++ rest) ∧
          StartsWithout Rfc9651.keyChar (s ++ rest) := by
        rcases hhead with rfl | hhead
        · exact ⟨hbf, hrest.mono fun c hc => by simp [extendsParameter, eq_of_beq hc],
            hrest.mono fun c hc => by simp [extendsParameter, hc]⟩
        · obtain ⟨t, rfl⟩ := List.head?_eq_some_iff.mp hhead
          exact ⟨follows_semicolon b _, startsWithout_cons.mpr (by decide),
            startsWithout_cons.mpr (by decide)⟩
      have hk := hkey (hvkey hnext.2.2)
      have hsp := dropWhile_of_startsWithout (hk.first.mono fun _ => Rfc9651.SP_of_outside)
      simp only [List.cons_append, List.append_assoc]
      exact .cons (hsp.symm ▸ hk) (hvalue hnext.1 hnext.2.1) (hspec ⟨hrest, hpf⟩)

theorem Writer.parameters_wrote {ps : Parameters} {w w' : Writer}
    (h : w.parameters L ps = .ok w') :
    ∃ s, Wrote L w s ps.length w' ∧ isPrintable s ∧ ParametersWithin L ps ∧ (ps.map (·.1)).Nodup ∧
      (s = [] ∨ s.head? = some 0x3b) ∧
      ∀ {rest}, ParametersFollow ps rest →
        Rfc9651.Parameters (s ++ rest) (canonicalParameters ps) rest := by
  simp only [parameters, bind_eq_ok, Limits.check_eq_ok, exists_const] at h
  obtain ⟨hlen, h⟩ := h
  obtain ⟨s, hs, ha, hw, hnodup, -, hhead, hspec⟩ := parametersLoop_wrote h
  exact ⟨s, hs, ha, ⟨hlen, hw⟩, hnodup, hhead, hspec⟩

/-! ## Items -/

/-- Every key of `i` occurs once. -/
def Item.Distinct (i : Item) : Prop := (i.parameters.map (·.1)).Nodup

/-- Every key of `l` and of its items occurs once. -/
def InnerList.Distinct (l : InnerList) : Prop :=
  (∀ i ∈ l.items, i.Distinct) ∧ (l.parameters.map (·.1)).Nodup

/-- Every key of `m` occurs once. -/
def Member.Distinct : Member → Prop
  | .item i => i.Distinct
  | .innerList l => l.Distinct

theorem lastWins_canonicalParameters {ps : Parameters} (h : (ps.map (·.1)).Nodup) :
    OrderedMap.lastWins (canonicalParameters ps) = canonicalParameters ps :=
  OrderedMap.lastWins_eq_self (by rwa [keys_canonicalParameters])

theorem Item.lastWins_canonical {i : Item} (h : i.Distinct) :
    i.canonical.lastWins = i.canonical := by
  rw [Item.canonical, Item.lastWins, lastWins_canonicalParameters h]

theorem Member.lastWins_canonical {m : Member} (h : m.Distinct) :
    m.canonical.lastWins = m.canonical := by
  cases m with
  | item i => rw [Member.canonical, Member.lastWins, Item.lastWins_canonical h]
  | innerList l =>
    simp only [Member.canonical, Member.lastWins, InnerList.canonical, InnerList.lastWins,
      lastWins_canonicalParameters h.2, List.map_map]
    congr 2
    exact List.map_congr_left fun i hi => Item.lastWins_canonical (h.1 i hi)

theorem Writer.item_wrote {i : Item} {w w' : Writer} (h : w.item L i = .ok w') :
    ∃ s, Wrote L w s i.occurrences w' ∧ isPrintable s ∧ i.Within L ∧ i.Distinct ∧
      ∀ {rest}, ItemFollows i rest → Rfc9651.Item (s ++ rest) i.canonical rest := by
  simp only [item, bind_eq_ok] at h
  obtain ⟨w₁, hw₁, w₂, hw₂, h⟩ := h
  obtain ⟨s, hs, hsa, hbw, hbare⟩ := bare_wrote hw₂
  obtain ⟨t, ht, hta, hpw, hnodup, hhead, hparams⟩ := parameters_wrote h
  refine ⟨s ++ t, ?_, by rw [isPrintable_append, hsa, hta]; rfl, ⟨hbw, hpw⟩, hnodup, ?_⟩
  · have := ((consumeOccurrence_wrote hw₁).trans hs).trans ht
    simpa [Item.occurrences] using this
  · intro rest ⟨hbf, hpf⟩
    rw [List.append_assoc]
    refine ⟨t ++ rest, hbare ?_, hparams hpf⟩
    rcases hhead with rfl | hhead
    · exact hbf
    · obtain ⟨t, rfl⟩ := List.head?_eq_some_iff.mp hhead
      exact follows_semicolon _ _

/-! ## Inner lists and members -/

theorem Writer.innerItems_wrote {is : List Item} {w w' : Writer}
    (h : separated L [32] (item L) is w = .ok w') :
    ∃ s, Wrote L w s (is.map Item.occurrences).sum w' ∧ isPrintable s ∧ (∀ i ∈ is, i.Within L) ∧
      (∀ i ∈ is, i.Distinct) ∧
      ∀ {rest}, Rfc9651.InnerItems (s ++ 0x29 :: rest) (is.map Item.canonical) rest := by
  induction is generalizing w with
  | nil =>
    simp only [separated, pure_eq_ok] at h
    subst h
    exact ⟨[], .refl w, rfl, by simp, by simp, .close rfl⟩
  | cons i is ih =>
    cases is with
    | nil =>
      obtain ⟨s, hs, ha, hw, hd, hspec⟩ := item_wrote h
      refine ⟨s, by simpa using hs, ha, by simpa using hw, by simpa using hd, fun {rest} => ?_⟩
      exact .item_append (hspec (itemFollows_of_ended (ended_cons (by decide)) i)) (.inr rfl)
        (.close rfl)
    | cons j is =>
      simp only [separated, bind_eq_ok] at h
      obtain ⟨w₁, hw₁, w₂, hw₂, h⟩ := h
      obtain ⟨s, hs, hsa, hiw, hid, hi⟩ := item_wrote hw₁
      obtain ⟨t, ht, hta, hw, hd, hspec⟩ := ih h
      refine ⟨s ++ 0x20 :: t, ?_, ?_, List.forall_mem_cons.mpr ⟨hiw, hw⟩,
        List.forall_mem_cons.mpr ⟨hid, hd⟩, fun {rest} => ?_⟩
      · have := (hs.trans (append_wrote hw₂)).trans ht
        simpa using this
      · rw [isPrintable_append, hsa, Bool.true_and, isPrintable_cons]
        exact ⟨by decide, hta⟩
      · rw [List.append_assoc, List.cons_append]
        exact .item_append (hi (itemFollows_of_ended (ended_cons (by decide)) i)) (.inl rfl)
          hspec.space

theorem Writer.member_wrote {m : Member} {w w' : Writer} (h : w.member L m = .ok w') :
    ∃ s, Wrote L w s m.occurrences w' ∧ isPrintable s ∧ m.Within L ∧ m.Distinct ∧
      ∀ {rest}, MemberFollows m rest → Rfc9651.Member (s ++ rest) m.canonical rest := by
  cases m with
  | item i =>
    obtain ⟨s, hs, ha, hw, hd, hspec⟩ := item_wrote h
    refine ⟨s, hs, ha, hw, hd, fun {rest} hf => .item (fun he => ?_) (hspec hf)⟩
    exact absurd ((hspec hf).first 0x28 he) (by decide)
  | innerList l =>
    simp only [member, bind_eq_ok, Limits.check_eq_ok, exists_const] at h
    obtain ⟨w₁, hw₁, hlen, w₂, hw₂, w₃, hw₃, w₄, hw₄, h⟩ := h
    obtain ⟨s, hs, hsa, hiw, hid, hitems⟩ := innerItems_wrote hw₃
    obtain ⟨t, ht, hta, hpw, hnodup, -, hparams⟩ := parameters_wrote h
    refine ⟨0x28 :: (s ++ 0x29 :: t), ?_, ?_, ⟨hlen, hiw, hpw⟩, ⟨hid, hnodup⟩,
      fun {rest} hf => .innerList ?_⟩
    · have := (((consumeOccurrence_wrote hw₁).trans (append_wrote hw₂)).trans hs).trans
        ((append_wrote hw₄).trans ht)
      simpa [Member.occurrences, InnerList.occurrences, Nat.add_assoc] using this
    · rw [isPrintable_cons, isPrintable_append, hsa, Bool.true_and, isPrintable_cons]
      exact ⟨by decide, by decide, hta⟩
    · refine ⟨s ++ 0x29 :: (t ++ rest), t ++ rest, by simp, hitems, hparams hf⟩

/-! ## Lists and dictionaries -/

theorem Writer.members_wrote {ms : List Member} {w w' : Writer}
    (h : separated L [44, 32] (member L) ms w = .ok w') :
    ∃ s, Wrote L w s (ms.map Member.occurrences).sum w' ∧ isPrintable s ∧ (∀ m ∈ ms, m.Within L) ∧
      (∀ m ∈ ms, m.Distinct) ∧ (ms ≠ [] → s ≠ []) ∧ StartsWithout Rfc9651.OWS s ∧
      Rfc9651.ListMembers s (ms.map Member.canonical) := by
  induction ms generalizing w with
  | nil =>
    simp only [separated, pure_eq_ok] at h
    subst h
    exact ⟨[], .refl w, rfl, by simp, by simp, by simp, .nil, .nil⟩
  | cons m ms ih =>
    cases ms with
    | nil =>
      obtain ⟨s, hs, ha, hw, hd, hspec⟩ := member_wrote h
      have hm := hspec (memberFollows_of_ended .nil m)
      rw [List.append_nil] at hm
      have hne : s ≠ [] := List.length_pos_iff.mp hm.length_lt
      exact ⟨s, by simpa using hs, ha, by simpa using hw, by simpa using hd, fun _ => hne, hm.first,
        .last hne hm rfl⟩
    | cons m' ms =>
      simp only [separated, bind_eq_ok] at h
      obtain ⟨w₁, hw₁, w₂, hw₂, h⟩ := h
      obtain ⟨s, hs, hsa, hmw, hmd, hm⟩ := member_wrote hw₁
      obtain ⟨t, ht, hta, hw, hd, hne, hfirst, hspec⟩ := ih h
      have hm := hm (memberFollows_of_ended (ended_cons (c := 44) (t := 32 :: t) (by decide)) m)
      refine ⟨s ++ 44 :: 32 :: t, ?_, ?_, List.forall_mem_cons.mpr ⟨hmw, hw⟩,
        List.forall_mem_cons.mpr ⟨hmd, hd⟩, by simp, hm.first,
        .append hm (hne (by simp)) hfirst hspec⟩
      · have := (hs.trans (append_wrote hw₂)).trans ht
        simpa using this
      · rw [isPrintable_append, hsa, Bool.true_and, isPrintable_cons, isPrintable_cons]
        exact ⟨by decide, by decide, hta⟩

theorem Writer.entry_wrote {seen : List Text} {e : Text × Member} {w w' : Writer}
    (h : w.entry L seen e = .ok w') :
    ∃ s, Wrote L w s e.2.occurrences w' ∧ isPrintable s ∧
      (e.1.length ≤ L.get .maxKeyLength ∧ e.2.Within L) ∧ e.2.Distinct ∧ e.1 ∉ seen ∧
      ∀ {rest}, MemberFollows e.2 rest →
        Rfc9651.Entry (s ++ rest) (e.1, e.2.canonical) rest := by
  obtain ⟨k, m⟩ := e
  simp only [entry, bind_eq_ok] at h
  obtain ⟨w₁, hw₁, h⟩ := h
  obtain ⟨hwk, hka, hklen, hseen, hkey⟩ := key_wrote hw₁
  split at h
  · simp only [bind_eq_ok] at h
    obtain ⟨w₂, hw₂, h⟩ := h
    obtain ⟨s, hs, hsa, hpw, hnodup, hhead, hspec⟩ := parameters_wrote h
    refine ⟨k ++ s, ?_, ?_, ⟨hklen, trivial, hpw⟩, hnodup, hseen, fun {rest} hf => ?_⟩
    · have := (hwk.trans (consumeOccurrence_wrote hw₂)).trans hs
      simpa [Member.occurrences, Item.occurrences] using this
    · rw [isPrintable_append, hka, hsa]
      rfl
    · have hnext : StartsWithout (· == 0x3d) (s ++ rest) ∧
          StartsWithout Rfc9651.keyChar (s ++ rest) := by
        rcases hhead with rfl | hhead
        · exact ⟨hf.2.1.mono fun c hc => by simp [extendsParameter, eq_of_beq hc],
            hf.2.1.mono fun c hc => by simp [extendsParameter, hc]⟩
        · obtain ⟨t, rfl⟩ := List.head?_eq_some_iff.mp hhead
          exact ⟨startsWithout_cons.mpr (by decide), startsWithout_cons.mpr (by decide)⟩
      rw [List.append_assoc]
      exact .implicit (hkey hnext.2) hnext.1 (hspec hf.2)
  · simp only [bind_eq_ok] at h
    obtain ⟨w₂, hw₂, h⟩ := h
    obtain ⟨s, hs, hsa, hw, hd, hspec⟩ := member_wrote h
    refine ⟨k ++ 61 :: s, ?_, ?_, ⟨hklen, hw⟩, hd, hseen, fun {rest} hf => ?_⟩
    · have := (hwk.trans (append_wrote hw₂)).trans hs
      simpa using this
    · rw [isPrintable_append, hka, Bool.true_and, isPrintable_cons]
      exact ⟨by decide, hsa⟩
    · rw [List.append_assoc]
      exact .explicit (hkey (startsWithout_cons.mpr (by decide))) (hspec hf)

theorem Writer.entries_wrote {seen : List Text} {es : List (Text × Member)} {w w' : Writer}
    (h : w.entriesLoop L seen es = .ok w') :
    ∃ s, Wrote L w s (es.map fun e => e.2.occurrences).sum w' ∧ isPrintable s ∧
      (∀ e ∈ es, e.1.length ≤ L.get .maxKeyLength ∧ e.2.Within L) ∧ (∀ e ∈ es, e.2.Distinct) ∧
      (es.map (·.1)).Nodup ∧ (∀ e ∈ es, e.1 ∉ seen) ∧ (es ≠ [] → s ≠ []) ∧
      StartsWithout Rfc9651.OWS s ∧ Rfc9651.Entries s (es.map fun e => (e.1, e.2.canonical)) := by
  induction es generalizing seen w with
  | nil =>
    simp only [entriesLoop, pure_eq_ok] at h
    subst h
    exact ⟨[], .refl w, rfl, by simp, by simp, by simp, by simp, by simp, .nil, .nil⟩
  | cons e es ih =>
    cases es with
    | nil =>
      obtain ⟨s, hs, ha, hw, hd, hseen, hspec⟩ := entry_wrote h
      have he := hspec (memberFollows_of_ended .nil e.2)
      rw [List.append_nil] at he
      have hne : s ≠ [] := List.length_pos_iff.mp he.length_lt
      exact ⟨s, by simpa using hs, ha, by simpa using hw, by simpa using hd, by simp,
        by simpa using hseen, fun _ => hne, he.first, .last hne he rfl⟩
    | cons e' es =>
      simp only [entriesLoop, bind_eq_ok] at h
      obtain ⟨w₁, hw₁, w₂, hw₂, h⟩ := h
      obtain ⟨s, hs, hsa, hew, hed, heseen, he⟩ := entry_wrote hw₁
      obtain ⟨t, ht, hta, hw, hd, hnodup, hseen, hne, hfirst, hspec⟩ := ih h
      have he := he (memberFollows_of_ended (ended_cons (c := 44) (t := 32 :: t) (by decide)) e.2)
      refine ⟨s ++ 44 :: 32 :: t, ?_, ?_, List.forall_mem_cons.mpr ⟨hew, hw⟩,
        List.forall_mem_cons.mpr ⟨hed, hd⟩, ?_, ?_, by simp, he.first,
        .append he (hne (by simp)) hfirst hspec⟩
      · have := (hs.trans (append_wrote hw₂)).trans ht
        simpa using this
      · rw [isPrintable_append, hsa, Bool.true_and, isPrintable_cons, isPrintable_cons]
        exact ⟨by decide, by decide, hta⟩
      · rw [List.map_cons, List.nodup_cons]
        refine ⟨fun hk => ?_, hnodup⟩
        obtain ⟨p, hp, heq⟩ := List.mem_map.mp hk
        exact hseen p hp (heq ▸ List.mem_cons_self)
      · exact List.forall_mem_cons.mpr
          ⟨heseen, fun p hp hs => hseen p hp (List.mem_cons_of_mem _ hs)⟩

/-! ## Charges of canonical values -/

@[simp] theorem BareItem.canonical_within {b : BareItem} : b.canonical.Within L ↔ b.Within L := by
  cases b <;> rfl

@[simp] theorem canonicalParameters_within {ps : Parameters} :
    ParametersWithin L (canonicalParameters ps) ↔ ParametersWithin L ps := by
  simp only [ParametersWithin, canonicalParameters, List.length_map, List.forall_mem_map,
    BareItem.canonical_within]

@[simp] theorem Item.canonical_within {i : Item} : i.canonical.Within L ↔ i.Within L := by
  simp [Item.Within, Item.canonical]

@[simp] theorem Member.canonical_within {m : Member} : m.canonical.Within L ↔ m.Within L := by
  cases m with
  | item i => exact Item.canonical_within
  | innerList l => simp [Member.canonical, Member.Within, InnerList.Within, InnerList.canonical]

@[simp] theorem Item.canonical_occurrences (i : Item) :
    i.canonical.occurrences = i.occurrences := by
  simp [Item.canonical, Item.occurrences, canonicalParameters]

@[simp] theorem Member.canonical_occurrences (m : Member) :
    m.canonical.occurrences = m.occurrences := by
  cases m with
  | item i => exact i.canonical_occurrences
  | innerList l =>
    simp [Member.canonical, Member.occurrences, InnerList.canonical, InnerList.occurrences,
      canonicalParameters, Function.comp_def]

/-- `-0` and `0` charge the same. -/
theorem Field.canonical_within {f : Field} : f.canonical.Within L ↔ f.Within L := by
  cases f with
  | item i => simp [Field.canonical, Field.Within, Field.occurrences]
  | list ms => simp [Field.canonical, Field.Within, Field.occurrences, Function.comp_def]
  | dictionary es =>
    simp only [Field.canonical, Field.Within, Field.occurrences, List.length_map, List.map_map,
      Function.comp_def, Member.canonical_occurrences, List.forall_mem_map, Member.canonical_within]

/-! ## Fields -/

/-- The text of a field has a derivation, its value is the field up to `-0`, and the writer
charges at least what the field is charged. -/
theorem serialize_spec {f : Field} {t : Text} (h : serialize L f = .ok t) :
    f.Within L ∧ Rfc9651.Parses f.type t f.canonical ∧ f.canonical.lastWins = f.canonical := by
  simp only [serialize, bind_eq_ok, pure_eq_ok] at h
  obtain ⟨w, h, rfl⟩ := h
  have hfits {s : Text} {n : ℕ} (hs : Wrote L ⟨0, []⟩ s n w) :
      w.text = s ∧ n ≤ L.get .maxTotalOccurrences := by
    refine ⟨by simpa using hs.text, ?_⟩
    have := hs.occurrences
    by_cases hn : n = 0
    · omega
    · have := hs.fits hn
      omega
  cases f with
  | item i =>
    obtain ⟨s, hs, ha, hw, hd, hspec⟩ := Writer.item_wrote h
    obtain ⟨rfl, hocc⟩ := hfits hs
    have hi := hspec (itemFollows_of_ended .nil i)
    rw [List.append_nil] at hi
    have hsp := dropWhile_of_startsWithout (hi.first.mono fun _ => Rfc9651.SP_of_outside)
    exact ⟨⟨hocc, hw⟩, .item (isAscii_of_isPrintable ha) (hsp.symm ▸ hi) rfl,
      congrArg Field.item (Item.lastWins_canonical hd)⟩
  | list ms =>
    simp only [Writer.field, bind_eq_ok, Limits.check_eq_ok, exists_const] at h
    obtain ⟨hlen, h⟩ := h
    obtain ⟨s, hs, ha, hw, hd, -, hfirst, hspec⟩ := Writer.members_wrote h
    obtain ⟨rfl, hocc⟩ := hfits hs
    have hsp := dropWhile_of_startsWithout (hfirst.mono fun _ h => Rfc9651.OWS_of_SP h)
    refine ⟨⟨hocc, hlen, hw⟩, .list (isAscii_of_isPrintable ha) (hsp.symm ▸ hspec), ?_⟩
    simp only [Field.canonical, Field.lastWins, List.map_map]
    exact congrArg Field.list (List.map_congr_left fun m hm => Member.lastWins_canonical (hd m hm))
  | dictionary es =>
    simp only [Writer.field, bind_eq_ok, Limits.check_eq_ok, exists_const] at h
    obtain ⟨hlen, h⟩ := h
    obtain ⟨s, hs, ha, hw, hd, hnodup, -, -, hfirst, hspec⟩ := Writer.entries_wrote h
    obtain ⟨rfl, hocc⟩ := hfits hs
    have hsp := dropWhile_of_startsWithout (hfirst.mono fun _ h => Rfc9651.OWS_of_SP h)
    refine ⟨⟨hocc, hlen, hw⟩, .dictionary (isAscii_of_isPrintable ha) (hsp.symm ▸ hspec), ?_⟩
    simp only [Field.canonical, Field.lastWins]
    rw [OrderedMap.lastWins_eq_self (by simpa [Function.comp_def] using hnodup), List.map_map]
    refine congrArg Field.dictionary (List.map_congr_left fun e he => ?_)
    rw [Function.comp_apply, Member.lastWins_canonical (hd e he)]

/-- **`parse` inverts `serialize`, up to `-0`.** Serializing charges at least what the field
is charged, and parsing its text charges no more: it succeeds under all limits that the
charges of the field are within. -/
theorem parse_serialize (L : Limits) (f : Field) (t : Text) (h : serialize L f = .ok t) :
    f.Within L ∧ ∀ M : Limits, f.Within M → t.length ≤ M.get .maxInputBytes →
      parse M (.text t) f.type = .ok f.canonical := by
  obtain ⟨hw, hparses, hlast⟩ := serialize_spec h
  refine ⟨hw, fun M hM hlen => ?_⟩
  have := parse_complete (show Rfc9651.Parses _ (Input.text t).units _ from hparses) hlen
    (Field.canonical_within.mpr hM)
  rwa [hlast] at this

/-! ## Writing canonical values

`-0` and `0` are written alike. -/

section Canonical

theorem Number.toInt?_canonical (n : Number) : n.canonical.toInt? = n.toInt? := by
  cases n <;> rfl

theorem Writer.bare_canonical (b : BareItem) (w : Writer) : w.bare L b.canonical = w.bare L b := by
  have hinteger (n : Number) : integer n.canonical = integer n := by
    rw [integer, integer, Number.safeInteger?, Number.safeInteger?, n.toInt?_canonical]
  cases b with
  | integer n | decimal n | date n => simp only [BareItem.canonical, bare, hinteger]
  | _ => rfl

theorem Writer.parameterValue_canonical (b : BareItem) (w : Writer) :
    w.parameterValue L b.canonical = w.parameterValue L b := by
  have htrue : b.canonical = .boolean true ↔ b = .boolean true := by
    cases b <;> simp [BareItem.canonical]
  simp only [parameterValue, htrue, bare_canonical]

theorem Writer.parametersLoop_canonical (seen : List Text) (ps : Parameters) (w : Writer) :
    w.parametersLoop L seen (canonicalParameters ps) = w.parametersLoop L seen ps := by
  induction ps generalizing seen w with
  | nil => rfl
  | cons p ps ih =>
    obtain ⟨k, v⟩ := p
    simp only [canonicalParameters, List.map_cons, parametersLoop, parameterValue_canonical]
    simp only [← canonicalParameters.eq_def, ih]

theorem Writer.parameters_canonical (ps : Parameters) (w : Writer) :
    w.parameters L (canonicalParameters ps) = w.parameters L ps := by
  simp only [parameters, parametersLoop_canonical]
  rw [canonicalParameters, List.length_map]

theorem Writer.item_canonical (i : Item) (w : Writer) : w.item L i.canonical = w.item L i := by
  simp only [item, Item.canonical, bare_canonical, parameters_canonical]

theorem Writer.innerItems_canonical (is : List Item) (w : Writer) :
    separated L [32] (item L) (is.map Item.canonical) w = separated L [32] (item L) is w := by
  induction is generalizing w with
  | nil => rfl
  | cons i is ih =>
    cases is with
    | nil => exact item_canonical i w
    | cons j is =>
      simp only [List.map_cons] at ih
      simp only [List.map_cons, separated, item_canonical, ih]

theorem Writer.member_canonical (m : Member) (w : Writer) :
    w.member L m.canonical = w.member L m := by
  cases m with
  | item i => exact item_canonical i w
  | innerList l =>
    simp only [Member.canonical, InnerList.canonical, member, innerItems_canonical,
      parameters_canonical, List.length_map]

end Canonical

/-! ## Reading a member off a text

The text of a member splits off from what follows it in one way only, whatever limits it was
written under. -/

section Monotone

variable {M : Limits}

theorem BareItem.Within.mono (hLM : M.Admits L) {b : BareItem} (h : b.Within L) : b.Within M := by
  cases b <;> first | exact le_trans h (hLM _ (by decide) (by decide)) | trivial

theorem ParametersWithin.mono (hLM : M.Admits L) {ps : Parameters} (h : ParametersWithin L ps) :
    ParametersWithin M ps := by
  refine ⟨h.1.trans (hLM _ (by decide) (by decide)), fun p hp => ⟨?_, (h.2 p hp).2.mono hLM⟩⟩
  exact (h.2 p hp).1.trans (hLM _ (by decide) (by decide))

theorem Item.Within.mono (hLM : M.Admits L) {i : Item} (h : i.Within L) : i.Within M :=
  ⟨h.1.mono hLM, h.2.mono hLM⟩

theorem Member.Within.mono (hLM : M.Admits L) {m : Member} (h : m.Within L) : m.Within M := by
  cases m with
  | item i => exact Item.Within.mono hLM h
  | innerList l =>
    exact ⟨h.1.trans (hLM _ (by decide) (by decide)), fun i hi => (h.2.1 i hi).mono hLM,
      h.2.2.mono hLM⟩

/-- The charges of a field are within all limits that admit those it is within. -/
theorem Field.Within.mono (hLM : M.Admits L) {f : Field} (h : f.Within L) : f.Within M := by
  obtain ⟨hocc, h⟩ := h
  refine ⟨hocc.trans (hLM _ (by decide) (by decide)), ?_⟩
  cases f with
  | item i => exact Item.Within.mono hLM h
  | list ms =>
    exact ⟨h.1.trans (hLM _ (by decide) (by decide)), fun m hm => (h.2 m hm).mono hLM⟩
  | dictionary es =>
    refine ⟨h.1.trans (hLM _ (by decide) (by decide)), fun e he => ⟨?_, (h.2 e he).2.mono hLM⟩⟩
    exact (h.2 e he).1.trans (hLM _ (by decide) (by decide))

end Monotone

theorem serializeMember_spec {m : Member} {t : Text} (h : serializeMember L m = .ok t) :
    isPrintable t ∧ (m.Within L ∧ m.occurrences ≤ L.get .maxTotalOccurrences) ∧
      ∀ {rest}, MemberFollows m rest → Rfc9651.Member (t ++ rest) m.canonical rest := by
  simp only [serializeMember, bind_eq_ok, pure_eq_ok] at h
  obtain ⟨w, h, rfl⟩ := h
  obtain ⟨s, hs, hp, hw, -, hspec⟩ := Writer.member_wrote h
  obtain rfl : w.text = s := by simpa using hs.text
  refine ⟨hp, ⟨hw, ?_⟩, hspec⟩
  have := hs.occurrences
  by_cases hn : m.occurrences = 0
  · omega
  · have := hs.fits hn
    omega

/-- A derivation within some limits determines its value and its remainder. -/
theorem member_unique {input rest rest' : Text} {m m' : Member}
    (h : Rfc9651.Member input m rest) (h' : Rfc9651.Member input m' rest')
    (hw : m.Within L ∧ m.occurrences ≤ L.get .maxTotalOccurrences)
    (hw' : m'.Within L ∧ m'.occurrences ≤ L.get .maxTotalOccurrences) : m = m' ∧ rest = rest' := by
  obtain ⟨r, c, hr, rfl, rfl, -⟩ := member_complete (c := ⟨0, input, 0⟩) h hw.1 (by simpa using hw.2)
  obtain ⟨r', c', hr', rfl, rfl, -⟩ :=
    member_complete (c := ⟨0, input, 0⟩) h' hw'.1 (by simpa using hw'.2)
  rw [hr] at hr'
  obtain ⟨rfl, rfl⟩ := Prod.mk.inj (Except.ok.inj hr')
  exact ⟨rfl, rfl⟩

/-- Two texts that start with serialized members and agree start with the same member, up to
`-0`, and go on alike. -/
theorem serializeMember_append_inj {L M : Limits} {m m' : Member} {t t' rest rest' : Text}
    (h : serializeMember L m = .ok t) (h' : serializeMember M m' = .ok t')
    (hf : MemberFollows m rest) (hf' : MemberFollows m' rest') (heq : t ++ rest = t' ++ rest') :
    m.canonical = m'.canonical ∧ rest = rest' := by
  obtain ⟨-, ⟨hw, hocc⟩, hspec⟩ := serializeMember_spec h
  obtain ⟨-, ⟨hw', hocc'⟩, hspec'⟩ := serializeMember_spec h'
  have hL : (L.max M).Admits L := fun n _ _ => Nat.le_max_left _ _
  have hM : (L.max M).Admits M := fun n _ _ => Nat.le_max_right _ _
  refine member_unique (hspec hf) (heq ▸ hspec' hf') (L := L.max M) ⟨?_, ?_⟩ ⟨?_, ?_⟩
  · exact Member.canonical_within.mpr (hw.mono hL)
  · rw [Member.canonical_occurrences]
    exact hocc.trans (hL _ (by decide) (by decide))
  · exact Member.canonical_within.mpr (hw'.mono hM)
  · rw [Member.canonical_occurrences]
    exact hocc'.trans (hM _ (by decide) (by decide))

/-- A signature dictionary with an inner list, an escaped string, an elided Boolean and `-0`. -/
def exampleField : Field :=
  .dictionary [(ascii "sig", .innerList ⟨[⟨.string (ascii "a\"b"), [(ascii "sf", .boolean true)]⟩],
    [(ascii "created", .integer .negativeZero), (ascii "alg", .token (ascii "ed25519"))]⟩)]

theorem parse_serialize_exampleField :
    serialize DEFAULT_LIMITS exampleField =
        .ok (ascii "sig=(\"a\\\"b\";sf);created=0;alg=ed25519") ∧
      parse DEFAULT_LIMITS (.text (ascii "sig=(\"a\\\"b\";sf);created=0;alg=ed25519")) .dictionary =
        .ok exampleField.canonical := by
  have h : serialize DEFAULT_LIMITS exampleField =
      .ok (ascii "sig=(\"a\\\"b\";sf);created=0;alg=ed25519") := by rfl
  obtain ⟨hw, hparse⟩ := parse_serialize DEFAULT_LIMITS exampleField _ h
  exact ⟨h, hparse DEFAULT_LIMITS hw (by decide)⟩

end AgentSig.StructuredFields
