import AgentSig.StructuredFields.Conformance

/-!
# A text is read in one way

Everything that a derivation charges is paid for by a character that it consumes, so every
derivation is within limits as large as its input. Within them the parser finds the
occurrences of the derivation, so a text has at most one derivation. No text writes `-0`, so
the values of a derivation are canonical.

## Main definitions

* `Limits.uniform n`: every limit is `n`

## Main results

* `Parses.within`: what a derivation charges is at most the length of its input
* `Parses.unique`: a text determines its occurrences
* `parse_canonical`: a parsed field is its canonical self
-/

namespace AgentSig.StructuredFields

/-- Limits that are all `n`. -/
def Limits.uniform (n : ℕ) (h : n ≤ maxSafeInteger) : Limits := ⟨fun _ => n, fun _ => h⟩

end AgentSig.StructuredFields

namespace AgentSig.Rfc9651

open Commons StructuredFields

variable {n : ℕ} {hn : n ≤ maxSafeInteger}

/-! ## Bare items -/

theorem StringBody.value_length {input value rest : Text} (h : StringBody input value rest) :
    value.length + rest.length < input.length := by
  induction h with
  | close => simp
  | escape _ _ ih => simp; omega
  | char _ _ _ _ ih => simp; omega

theorem DisplayBody.octets_length {input : Text} {octets : List UInt8} {rest : Text}
    (h : DisplayBody input octets rest) : octets.length + rest.length < input.length := by
  induction h with
  | close => simp
  | escape _ _ _ ih => simp; omega
  | char _ _ _ _ ih => simp; omega

theorem length_mapM_sextet {t : Text} {ss : List (Fin 64)} (h : t.mapM Base64.sextet = some ss) :
    ss.length = t.length := by
  induction t generalizing ss with
  | nil =>
    obtain rfl : ss = [] := by simpa [eq_comm] using h
    rfl
  | cons c t ih =>
    simp only [List.mapM_cons, Option.pure_def, Option.bind_eq_bind, Option.bind_eq_some_iff,
      Option.some.injEq] at h
    obtain ⟨s, -, ss', hss, rfl⟩ := h
    rw [List.length_cons, ih hss, List.length_cons]

theorem length_decodeText {symbols : Text} {value : List UInt8}
    (h : Base64.decodeText symbols = some value) : value.length ≤ symbols.length := by
  obtain ⟨ss, hss, rfl⟩ := Option.map_eq_some_iff.mp h
  have := length_mapM_sextet hss
  rw [Base64.length_decode]
  omega

theorem Bare.within {input : Text} {v : BareItem} {rest : Text} (h : Bare input v rest)
    (hlen : input.length ≤ n) : v.Within (.uniform n hn) := by
  cases h with
  | integer | decimal | boolean | date => trivial
  | string h =>
    have := h.value_length
    simp only [List.length_cons] at hlen
    exact show _ ≤ n by omega
  | token h =>
    obtain ⟨rfl, -⟩ := h
    simp only [List.length_append] at hlen
    exact show _ ≤ n by omega
  | bytes h =>
    obtain ⟨symbols, pads, rfl, -, -, -, hvalue⟩ := h
    have := length_decodeText hvalue
    simp only [List.length_cons, List.length_append] at hlen
    exact show _ ≤ n by omega
  | displayString h hcs =>
    have := h.octets_length
    simp only [List.length_cons] at hlen
    show utf8Length _ ≤ n
    rw [utf8Length, characters_units, utf8Encode_of_utf8Decode hcs]
    omega

/-! ## Parameters, items and members -/

theorem Key.length_key {input k rest : Text} (h : Key input k rest) :
    k.length + rest.length = input.length := by
  rw [h.1, List.length_append]

theorem ParameterValue.within {input : Text} {v : BareItem} {rest : Text}
    (h : ParameterValue input v rest) (hlen : input.length ≤ n) : v.Within (.uniform n hn) := by
  cases h with
  | explicit h => exact h.within ((Nat.le_succ _).trans hlen)
  | implicit => trivial

theorem Parameters.charges {input : Text} {ps : StructuredFields.Parameters} {rest : Text}
    (h : Parameters input ps rest) : ps.length + rest.length ≤ input.length := by
  induction h with
  | nil => simp
  | @cons input k s v s' rest ps hk hv _ ih =>
    have := hk.length_lt
    have := hv.length_le
    have := length_dropWhile_le SP input
    simp only [List.length_cons]
    omega

theorem Parameters.within {input : Text} {ps : StructuredFields.Parameters} {rest : Text}
    (h : Parameters input ps rest) (hlen : input.length ≤ n) :
    ParametersWithin (.uniform n hn) ps := by
  refine ⟨show _ ≤ n by have := h.charges; omega, ?_⟩
  induction h with
  | nil => simp
  | @cons input k s v s' rest ps hk hv _ ih =>
    have hkey := hk.length_key
    have hs := hv.length_le
    have hdrop := length_dropWhile_le SP input
    simp only [List.length_cons] at hlen
    refine List.forall_mem_cons.mpr ⟨⟨show k.length ≤ n by omega, hv.within (by omega)⟩,
      ih (by omega)⟩

theorem Item.charges {input : Text} {i : StructuredFields.Item} {rest : Text}
    (h : Item input i rest) : i.occurrences + rest.length ≤ input.length := by
  obtain ⟨s, hb, hp⟩ := h
  have := hb.length_lt
  have := hp.charges
  simp only [StructuredFields.Item.occurrences]
  omega

theorem Item.within {input : Text} {i : StructuredFields.Item} {rest : Text}
    (h : Item input i rest) (hlen : input.length ≤ n) : i.Within (.uniform n hn) := by
  obtain ⟨s, hb, hp⟩ := h
  exact ⟨hb.within hlen, hp.within (hb.length_lt.le.trans hlen)⟩

theorem InnerItems.charges {input : Text} {is : List StructuredFields.Item} {rest : Text}
    (h : InnerItems input is rest) :
    (is.map StructuredFields.Item.occurrences).sum + rest.length < input.length := by
  induction h with
  | @close input rest h =>
    have := length_dropWhile_le SP input
    simp only [h, List.length_cons, List.map_nil, List.sum_nil] at this ⊢
    omega
  | @item input s rest i is _ _ hi _ _ ih =>
    have := hi.charges
    have := length_dropWhile_le SP input
    simp only [List.map_cons, List.sum_cons]
    omega

theorem InnerItems.within {input : Text} {is : List StructuredFields.Item} {rest : Text}
    (h : InnerItems input is rest) (hlen : input.length ≤ n) :
    ∀ i ∈ is, i.Within (.uniform n hn) := by
  induction h with
  | close => simp
  | @item input s rest i is _ _ hi _ _ ih =>
    have := hi.length_lt
    have := length_dropWhile_le SP input
    exact List.forall_mem_cons.mpr ⟨hi.within (by omega), ih (by omega)⟩

theorem length_le_sum {α : Type} {f : α → ℕ} (hf : ∀ a, 1 ≤ f a) (l : List α) :
    l.length ≤ (l.map f).sum := by
  induction l with
  | nil => simp
  | cons a l ih =>
    have := hf a
    simp only [List.length_cons, List.map_cons, List.sum_cons]
    omega

theorem one_le_occurrences (m : StructuredFields.Member) : 1 ≤ m.occurrences := by
  cases m <;> simp only [StructuredFields.Member.occurrences, StructuredFields.Item.occurrences,
    StructuredFields.InnerList.occurrences] <;> omega

theorem Member.charges {input : Text} {m : StructuredFields.Member} {rest : Text}
    (h : Member input m rest) : m.occurrences + rest.length ≤ input.length := by
  cases h with
  | innerList h =>
    obtain ⟨s, s', rfl, hi, hp⟩ := h
    have := hi.charges
    have := hp.charges
    simp only [StructuredFields.Member.occurrences, StructuredFields.InnerList.occurrences,
      List.length_cons]
    omega
  | item _ h => exact h.charges

theorem Member.within {input : Text} {m : StructuredFields.Member} {rest : Text}
    (h : Member input m rest) (hlen : input.length ≤ n) : m.Within (.uniform n hn) := by
  cases h with
  | innerList h =>
    obtain ⟨s, s', rfl, hi, hp⟩ := h
    have hitems := hi.charges
    simp only [List.length_cons] at hlen
    have hcount := (length_le_sum (fun i => Nat.le_add_right 1 _) _).trans
      ((Nat.le_add_right _ _).trans hitems.le)
    exact ⟨hcount.trans (show _ ≤ n by omega), hi.within (by omega), hp.within (by omega)⟩
  | item _ h => exact h.within hlen

theorem Entry.charges {input : Text} {e : Text × StructuredFields.Member} {rest : Text}
    (h : Entry input e rest) : e.2.occurrences + rest.length ≤ input.length := by
  cases h with
  | explicit hk hm =>
    have := hk.length_lt
    have := hm.charges
    simp only [List.length_cons] at *
    omega
  | implicit hk _ hp =>
    have := hk.length_lt
    have := hp.charges
    simp only [StructuredFields.Member.occurrences, StructuredFields.Item.occurrences]
    omega

theorem Entry.within {input : Text} {e : Text × StructuredFields.Member} {rest : Text}
    (h : Entry input e rest) (hlen : input.length ≤ n) :
    e.1.length ≤ n ∧ e.2.Within (.uniform n hn) := by
  cases h with
  | @explicit k _ _ _ hk hm =>
    have := hk.length_key
    simp only [List.length_cons] at this
    exact ⟨show k.length ≤ n by omega, hm.within (by omega)⟩
  | @implicit k _ _ _ hk _ hp =>
    have := hk.length_key
    exact ⟨show k.length ≤ n by omega, trivial, hp.within (by omega)⟩

/-! ## Fields -/

section Separated

variable {α : Type} {element : Text → α → Text → Prop} {f : α → ℕ} {W : α → Prop}

theorem Separated.charges {input : Text} {as : List α} (h : Separated element input as)
    (hf : ∀ {input a rest}, element input a rest → f a + rest.length ≤ input.length) :
    (as.map f).sum ≤ input.length := by
  induction h with
  | nil => simp
  | last _ ha _ =>
    have := hf ha
    simp only [List.map_cons, List.map_nil, List.sum_cons, List.sum_nil]
    omega
  | cons _ ha hsep _ ih =>
    have := hf ha
    have := hsep.length_lt
    simp only [List.map_cons, List.sum_cons]
    omega

theorem Separated.within {input : Text} {as : List α} (h : Separated element input as)
    (hf : ∀ {input a rest}, element input a rest → f a + rest.length ≤ input.length)
    (hW : ∀ {input a rest}, element input a rest → input.length ≤ n → W a)
    (hlen : input.length ≤ n) : ∀ a ∈ as, W a := by
  induction h with
  | nil => simp
  | last _ ha _ => simpa using hW ha hlen
  | cons _ ha hsep _ ih =>
    have := hf ha
    have := hsep.length_lt
    exact List.forall_mem_cons.mpr ⟨hW ha hlen, ih (by omega)⟩

end Separated

/-- What a derivation charges is at most the length of its input. -/
theorem Parses.within {type : FieldType} {input : Text} {f : Field} (h : Parses type input f)
    (hlen : input.length ≤ n) : f.Within (.uniform n hn) := by
  have hdrop := (length_dropWhile_le SP input).trans hlen
  cases h with
  | list _ h =>
    have hsum := (Separated.charges h Member.charges).trans hdrop
    exact ⟨hsum, (length_le_sum one_le_occurrences _).trans hsum,
      Separated.within h Member.charges Member.within hdrop⟩
  | @dictionary _ es _ h =>
    have hsum := (Separated.charges h Entry.charges).trans hdrop
    exact ⟨hsum, (length_le_sum (fun e => one_le_occurrences e.2) es).trans hsum,
      Separated.within h Entry.charges Entry.within hdrop⟩
  | @item _ _ i _ h _ =>
    have := h.charges
    exact ⟨show i.occurrences ≤ n by omega, h.within hdrop⟩

/-- A text determines its occurrences. -/
theorem Parses.unique {type : FieldType} {input : Text} {f f' : Field}
    (h : Parses type input f) (h' : Parses type input f') (hlen : input.length ≤ maxSafeInteger) :
    f = f' := by
  obtain ⟨d, hd, rfl⟩ := parseRaw_complete (L := .uniform _ hlen)
    (show Rfc9651.Parses type (Input.text input).units f from h) le_rfl (h.within le_rfl)
  obtain ⟨d', hd', rfl⟩ := parseRaw_complete (L := .uniform _ hlen)
    (show Rfc9651.Parses type (Input.text input).units f' from h') le_rfl (h'.within le_rfl)
  rw [hd] at hd'
  rw [Except.ok.inj hd']

/-! ## Canonical values -/

theorem Bare.canonical {input : Text} {v : BareItem} {rest : Text} (h : Bare input v rest) :
    v.canonical = v := by
  cases h <;> rfl

theorem ParameterValue.canonical {input : Text} {v : BareItem} {rest : Text}
    (h : ParameterValue input v rest) : v.canonical = v := by
  cases h with
  | explicit h => exact h.canonical
  | implicit => rfl

theorem Parameters.canonical {input : Text} {ps : StructuredFields.Parameters} {rest : Text}
    (h : Parameters input ps rest) : canonicalParameters ps = ps := by
  induction h with
  | nil => rfl
  | cons _ hv _ ih =>
    simp only [canonicalParameters, List.map_cons, hv.canonical] at ih ⊢
    rw [ih]

theorem Item.canonical {input : Text} {i : StructuredFields.Item} {rest : Text}
    (h : Item input i rest) : i.canonical = i := by
  obtain ⟨s, hb, hp⟩ := h
  simp only [StructuredFields.Item.canonical, hb.canonical, hp.canonical]

theorem InnerItems.canonical {input : Text} {is : List StructuredFields.Item} {rest : Text}
    (h : InnerItems input is rest) : is.map StructuredFields.Item.canonical = is := by
  induction h with
  | close => rfl
  | item _ _ hi _ _ ih => rw [List.map_cons, hi.canonical, ih]

theorem Member.canonical {input : Text} {m : StructuredFields.Member} {rest : Text}
    (h : Member input m rest) : m.canonical = m := by
  cases h with
  | innerList h =>
    obtain ⟨s, s', -, hi, hp⟩ := h
    simp only [StructuredFields.Member.canonical, StructuredFields.InnerList.canonical,
      hi.canonical, hp.canonical]
  | item _ h => rw [StructuredFields.Member.canonical, h.canonical]

theorem Entry.canonical {input : Text} {e : Text × StructuredFields.Member} {rest : Text}
    (h : Entry input e rest) : (e.1, e.2.canonical) = e := by
  cases h with
  | explicit _ h => rw [h.canonical]
  | implicit _ _ h =>
    simp only [StructuredFields.Member.canonical, StructuredFields.Item.canonical, h.canonical]
    rfl

theorem Separated.map_eq {α : Type} {element : Text → α → Text → Prop} {g : α → α}
    (hg : ∀ {input a rest}, element input a rest → g a = a) {input : Text} {as : List α}
    (h : Separated element input as) : as.map g = as := by
  induction h with
  | nil => rfl
  | last _ ha _ => rw [List.map_cons, hg ha, List.map_nil]
  | cons _ ha _ _ ih => rw [List.map_cons, hg ha, ih]

theorem Parses.canonical {type : FieldType} {input : Text} {f : Field} (h : Parses type input f) :
    f.canonical = f := by
  cases h with
  | list _ h => exact congrArg Field.list (Separated.map_eq Member.canonical h)
  | dictionary _ h => exact congrArg Field.dictionary (Separated.map_eq Entry.canonical h)
  | item _ h _ => exact congrArg Field.item h.canonical

end AgentSig.Rfc9651

namespace AgentSig.StructuredFields

open Commons

theorem canonicalParameters_lastWins (ps : Parameters) :
    canonicalParameters (OrderedMap.lastWins ps) = OrderedMap.lastWins (canonicalParameters ps) :=
  OrderedMap.lastWins_map BareItem.canonical ps

theorem Item.canonical_lastWins (i : Item) : i.lastWins.canonical = i.canonical.lastWins := by
  simp only [Item.canonical, Item.lastWins, canonicalParameters_lastWins]

theorem Member.canonical_lastWins (m : Member) : m.lastWins.canonical = m.canonical.lastWins := by
  cases m with
  | item i => exact congrArg Member.item i.canonical_lastWins
  | innerList l =>
    simp only [Member.lastWins, Member.canonical, InnerList.lastWins, InnerList.canonical,
      canonicalParameters_lastWins, List.map_map, Member.innerList.injEq, InnerList.mk.injEq,
      and_true]
    exact List.map_congr_left fun i _ => i.canonical_lastWins

theorem Field.canonical_lastWins (f : Field) : f.lastWins.canonical = f.canonical.lastWins := by
  cases f with
  | item i => exact congrArg Field.item i.canonical_lastWins
  | list ms =>
    simp only [Field.lastWins, Field.canonical, List.map_map, Field.list.injEq]
    exact List.map_congr_left fun m _ => m.canonical_lastWins
  | dictionary es =>
    simp only [Field.lastWins, Field.canonical, ← OrderedMap.lastWins_map Member.canonical,
      List.map_map, Field.dictionary.injEq]
    exact List.map_congr_left fun e _ => congrArg (Prod.mk e.1) e.2.canonical_lastWins

/-- A parsed field is its canonical self. -/
theorem parse_canonical {L : Limits} {input : Input} {type : FieldType} {v : Field}
    (h : parse L input type = .ok v) : v.canonical = v := by
  obtain ⟨f, hf, rfl, -⟩ := parse_sound h
  rw [f.canonical_lastWins, hf.canonical]

end AgentSig.StructuredFields
