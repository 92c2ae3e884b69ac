import AgentSig.StructuredFields.BareItems
import AgentSig.StructuredFields.Parse

/-!
# The parser conforms to RFC 9651

Each nested production reads what the production of Section 4.2 reads, and charges one
occurrence for each item, inner list and parameter. So `parse` returns exactly the value
of the RFC's algorithm, for every input that stays within the limits.

## Main definitions

* `Charged L c n c'`: from `c` to `c'`, `n` occurrences are charged and fit

## Main results

* `parameters_sound`, `item_sound`, `member_sound`, … : what is read has a derivation
* `parameters_complete`, `item_complete`, `member_complete`, … : what has one is read
* `field_sound`, `field_complete`: whole fields
* `parse_sound`, `parse_complete`, `parse_eq_ok_iff`: `parse` and the RFC's algorithm agree within the limits
-/

namespace AgentSig.StructuredFields

open Commons

variable {L : Limits}

/-! ## Cursors -/

theorem space_false : space false = Rfc9651.SP := by
  funext c
  simp [space, Rfc9651.SP]

theorem space_true : space true = Rfc9651.OWS := by
  funext c
  simp [space, Rfc9651.OWS]

@[simp] theorem spaces_false_rest (c : Cursor) :
    (c.spaces false).rest = c.rest.dropWhile Rfc9651.SP := by
  rw [Cursor.spaces, space_false]
  rfl

@[simp] theorem spaces_true_rest (c : Cursor) :
    (c.spaces true).rest = c.rest.dropWhile Rfc9651.OWS := by
  rw [Cursor.spaces, space_true]
  rfl

@[simp] theorem spaces_occurrences (c : Cursor) (b : Bool) :
    (c.spaces b).occurrences = c.occurrences := rfl

@[simp] theorem next_rest (c : Cursor) : c.next.rest = c.rest.tail := rfl

@[simp] theorem next_occurrences (c : Cursor) : c.next.occurrences = c.occurrences := rfl

theorem rest_of_code {c : Cursor} {u : UInt16} (h : c.code = some u) :
    c.rest = u :: c.rest.tail := by
  obtain ⟨t, ht⟩ := List.head?_eq_some_iff.mp h
  rw [ht, List.tail_cons]

theorem startsWithout_of_code {c : Cursor} {u : UInt16} (h : c.code ≠ some u) :
    StartsWithout (· == u) c.rest := by
  intro d hd
  rw [beq_eq_false_iff_ne]
  rintro rfl
  exact h hd

theorem code_of_startsWithout {c : Cursor} {u : UInt16} (h : StartsWithout (· == u) c.rest) :
    c.code ≠ some u :=
  fun hu => by simpa using h u hu

/-- From `c` to `c'`, `n` occurrences are charged, and the last of them fits. -/
def Charged (L : Limits) (c : Cursor) (n : ℕ) (c' : Cursor) : Prop :=
  c'.occurrences = c.occurrences + n ∧ (n ≠ 0 → c'.occurrences ≤ L.get .maxTotalOccurrences)

theorem Charged.zero {c c' : Cursor} (h : c'.occurrences = c.occurrences) : Charged L c 0 c' :=
  ⟨h, by simp⟩

theorem Charged.trans {c c' c'' : Cursor} {n m : ℕ} (h : Charged L c n c')
    (h' : Charged L c' m c'') : Charged L c (n + m) c'' := by
  obtain ⟨h₁, h₂⟩ := h
  obtain ⟨h₃, h₄⟩ := h'
  refine ⟨by omega, fun _ => ?_⟩
  by_cases hm : m = 0
  · have := h₂ (by omega)
    omega
  · exact h₄ hm

/-- A charge may be split off by its cursor's occurrences alone. -/
theorem Charged.of_eq {c c' d d' : Cursor} {n : ℕ} (h : Charged L c n c')
    (hd : d.occurrences = c.occurrences) (hd' : d'.occurrences = c'.occurrences) :
    Charged L d n d' := by
  obtain ⟨h₁, h₂⟩ := h
  exact ⟨by omega, fun hn => by have := h₂ hn; omega⟩

theorem consumeOccurrence_eq_ok {c c' : Cursor} :
    c.consumeOccurrence L = .ok c' ↔ c.occurrences + 1 ≤ L.get .maxTotalOccurrences ∧
      c' = { c with occurrences := c.occurrences + 1 } := by
  simp only [Cursor.consumeOccurrence, bind_eq_ok, Limits.check_eq_ok, exists_const, pure_eq_ok]
  exact and_congr_right fun _ => eq_comm

theorem Charged.consumeOccurrence {c c' : Cursor} (h : c.consumeOccurrence L = .ok c') :
    Charged L c 1 c' := by
  obtain ⟨hle, rfl⟩ := consumeOccurrence_eq_ok.mp h
  exact ⟨rfl, fun _ => hle⟩

theorem consumeOccurrence_of_le {c : Cursor}
    (h : c.occurrences + 1 ≤ L.get .maxTotalOccurrences) :
    c.consumeOccurrence L = .ok { c with occurrences := c.occurrences + 1 } :=
  consumeOccurrence_eq_ok.mpr ⟨h, rfl⟩

/-! ## Parameters -/

theorem parameterValue_sound {c c' : Cursor} {b : Option RawBareItem}
    (h : parameterValue L c = .ok (b, c')) :
    Rfc9651.ParameterValue c.rest (bareValue b) c'.rest ∧ (bareValue b).Within L ∧
      c'.occurrences = c.occurrences := by
  unfold parameterValue at h
  split at h
  · rename_i hc
    simp only [bind_eq_ok, Prod.exists, pure_eq_ok, Prod.mk.injEq] at h
    obtain ⟨b, c', h, rfl, rfl⟩ := h
    obtain ⟨hspec, hw, hocc⟩ := bare_sound h
    rw [rest_of_code hc]
    exact ⟨.explicit hspec, hw, hocc⟩
  · rename_i hc
    simp only [pure_eq_ok, Prod.mk.injEq] at h
    obtain ⟨rfl, rfl⟩ := h
    exact ⟨.implicit (startsWithout_of_code hc), trivial, rfl⟩

theorem parameterValue_complete {c : Cursor} {v : BareItem} {rest : Text}
    (h : Rfc9651.ParameterValue c.rest v rest) (hw : v.Within L) :
    ∃ b c', parameterValue L c = .ok (b, c') ∧ bareValue b = v ∧ c'.rest = rest ∧
      c'.occurrences = c.occurrences := by
  generalize hinput : c.rest = input at h
  cases h with
  | @explicit s v rest h =>
    have hnext : c.next.rest = s := by simp [hinput]
    obtain ⟨b, c', hb, hv, hrest, hocc⟩ := bare_complete (c := c.next) (hnext ▸ h) hw
    refine ⟨some b, c', ?_, hv, hrest, hocc⟩
    rw [parameterValue, if_pos (by simp [Cursor.code, hinput]), hb]
    rfl
  | implicit h =>
    refine ⟨none, c, ?_, rfl, hinput, rfl⟩
    rw [parameterValue, if_neg (code_of_startsWithout (hinput ▸ h))]
    rfl

theorem parametersLoop_sound {fuel count : ℕ} {c c' : Cursor} {ps : List RawParameter}
    (h : parametersLoop L fuel count c = .ok (ps, c')) :
    Rfc9651.Parameters c.rest (ps.map RawParameter.occurrence) c'.rest ∧
      (∀ p ∈ ps.map RawParameter.occurrence, p.1.length ≤ L.get .maxKeyLength ∧ p.2.Within L) ∧
      (ps ≠ [] → count + ps.length ≤ L.get .maxParameters) ∧ Charged L c ps.length c' := by
  induction fuel, count, c using parametersLoop.induct generalizing ps c' with
  | case1 count c hc => simp [parametersLoop, hc, Cursor.fail] at h
  | case2 count c hc | case4 fuel count c hc =>
    simp only [parametersLoop, if_neg hc, Except.ok.injEq, Prod.mk.injEq] at h
    obtain ⟨rfl, rfl⟩ := h
    exact ⟨.nil (startsWithout_of_code hc), by simp, by simp, .zero rfl⟩
  | case3 fuel count c hc ih =>
    simp only [parametersLoop, if_pos hc, bind_eq_ok, Limits.check_eq_ok, exists_const,
      Prod.exists, pure_eq_ok, Prod.mk.injEq] at h
    obtain ⟨hcount, c₁, hc₁, k, ks, c₂, hk, b, c₃, hb, ps, c₄, hps, rfl, rfl⟩ := h
    have hcharge := Charged.consumeOccurrence hc₁
    obtain ⟨-, rfl⟩ := consumeOccurrence_eq_ok.mp hc₁
    obtain ⟨hkey, hklen, hkocc⟩ := key_sound hk
    obtain ⟨hvalue, hw, hvocc⟩ := parameterValue_sound hb
    obtain ⟨hspec, hpw, hlen, hpcharge⟩ := ih c₃ hps
    simp only [spaces_false_rest, next_rest, spaces_occurrences, next_occurrences] at hkey hkocc
    rw [rest_of_code hc]
    refine ⟨.cons hkey hvalue hspec, ?_, fun _ => ?_, ?_⟩
    · simpa [RawParameter.occurrence, hklen, hw] using hpw
    · cases ps with
      | nil => exact hcount
      | cons q ps => simpa [Nat.add_assoc, Nat.add_comm 1] using hlen (by simp)
    · rw [List.length_cons, Nat.add_comm]
      exact hcharge.trans (hpcharge.of_eq (by rw [hvocc, hkocc]) rfl)

theorem parameters_sound {c c' : Cursor} {ps : List RawParameter}
    (h : parameters L c = .ok (ps, c')) :
    Rfc9651.Parameters c.rest (ps.map RawParameter.occurrence) c'.rest ∧
      ParametersWithin L (ps.map RawParameter.occurrence) ∧ Charged L c ps.length c' := by
  obtain ⟨hspec, hw, hlen, hcharge⟩ := parametersLoop_sound h
  refine ⟨hspec, ⟨?_, hw⟩, hcharge⟩
  cases ps with
  | nil => simp
  | cons p ps => simpa using hlen (by simp)

theorem parametersLoop_complete {fuel m : ℕ} {c : Cursor} {qs : Parameters} {rest : Text}
    (h : Rfc9651.Parameters c.rest qs rest)
    (hw : ∀ q ∈ qs, q.1.length ≤ L.get .maxKeyLength ∧ q.2.Within L)
    (hcount : m + qs.length ≤ L.get .maxParameters)
    (hocc : c.occurrences + qs.length ≤ L.get .maxTotalOccurrences)
    (hfuel : c.rest.length ≤ fuel) :
    ∃ ps c', parametersLoop L fuel m c = .ok (ps, c') ∧
      ps.map RawParameter.occurrence = qs ∧ c'.rest = rest ∧
      c'.occurrences = c.occurrences + qs.length := by
  induction fuel generalizing m c qs with
  | zero =>
    obtain hnil := List.length_eq_zero_iff.mp (Nat.le_zero.mp hfuel)
    rw [hnil] at h
    cases h
    exact ⟨[], c, by simp [parametersLoop, Cursor.code, hnil], rfl, hnil, rfl⟩
  | succ fuel ih =>
    generalize hinput : c.rest = input at h
    cases h with
    | nil hs => exact ⟨[], c, by simp [parametersLoop, code_of_startsWithout (hinput ▸ hs)], rfl,
        hinput, rfl⟩
    | @cons t k s v s' rest qs hk hv hps =>
      have hc : c.code = some 59 := by simp [Cursor.code, hinput]
      obtain ⟨⟨hklen, hvw⟩, hw⟩ := List.forall_mem_cons.mp hw
      simp only [List.length_cons] at hcount hocc
      have hc₁ := consumeOccurrence_of_le (L := L) (c := c) (by omega)
      set c₁ : Cursor := { c with occurrences := c.occurrences + 1 }
      have hkey : Rfc9651.Key (c₁.next.spaces false).rest k s := by simpa [c₁, hinput] using hk
      obtain ⟨ks, c₂, hc₂, hrest₂, hocc₂⟩ := key_complete hkey hklen
      obtain ⟨b, c₃, hc₃, hb, hrest₃, hocc₃⟩ := parameterValue_complete (hrest₂ ▸ hv) hvw
      have hlt := hk.length_lt
      have hle := hv.length_le
      have hdrop := Rfc9651.length_dropWhile_le Rfc9651.SP t
      have hocc₁ : c₃.occurrences = c.occurrences + 1 := by rw [hocc₃, hocc₂]; rfl
      rw [hinput, List.length_cons] at hfuel
      obtain ⟨ps, c₄, hc₄, hps, hrest₄, hocc₄⟩ := ih (m := m + 1) (hrest₃ ▸ hps) hw
        (by omega) (by omega) (by rw [hrest₃]; omega)
      refine ⟨⟨⟨c.position, c₃.position⟩, k, ks, b⟩ :: ps, c₄, ?_, ?_, hrest₄, ?_⟩
      · simp only [parametersLoop, if_pos hc, ok_bind,
          Limits.check_of_le (show m + 1 ≤ L.get .maxParameters by omega), hc₁, hc₂, hc₃, hc₄]
        rfl
      · simp [RawParameter.occurrence, hb, hps]
      · simp only [List.length_cons]
        omega

theorem parameters_complete {c : Cursor} {qs : Parameters} {rest : Text}
    (h : Rfc9651.Parameters c.rest qs rest) (hw : ParametersWithin L qs)
    (hocc : c.occurrences + qs.length ≤ L.get .maxTotalOccurrences) :
    ∃ ps c', parameters L c = .ok (ps, c') ∧ ps.map RawParameter.occurrence = qs ∧
      c'.rest = rest ∧ c'.occurrences = c.occurrences + qs.length :=
  parametersLoop_complete h hw.2 (by rw [Nat.zero_add]; exact hw.1) hocc le_rfl

/-! ## Items -/

theorem item_sound {c c' : Cursor} {i : RawItem} (h : item L c = .ok (i, c')) :
    Rfc9651.Item c.rest i.occurrence c'.rest ∧ i.occurrence.Within L ∧
      Charged L c i.occurrence.occurrences c' := by
  simp only [item, bind_eq_ok, Prod.exists, pure_eq_ok, Prod.mk.injEq] at h
  obtain ⟨c₁, hc₁, b, c₂, hb, ps, c₃, hps, rfl, rfl⟩ := h
  have hcharge := Charged.consumeOccurrence hc₁
  obtain ⟨-, rfl⟩ := consumeOccurrence_eq_ok.mp hc₁
  obtain ⟨hbare, hbw, hbocc⟩ := bare_sound hb
  obtain ⟨hpspec, hpw, hpcharge⟩ := parameters_sound hps
  refine ⟨⟨c₂.rest, hbare, hpspec⟩, ⟨hbw, hpw⟩, ?_⟩
  simp only [RawItem.occurrence, Item.occurrences, List.length_map]
  exact hcharge.trans (hpcharge.of_eq hbocc.symm rfl)

theorem item_complete {c : Cursor} {i : Item} {rest : Text} (h : Rfc9651.Item c.rest i rest)
    (hw : i.Within L) (hocc : c.occurrences + i.occurrences ≤ L.get .maxTotalOccurrences) :
    ∃ r c', item L c = .ok (r, c') ∧ r.occurrence = i ∧ c'.rest = rest ∧
      c'.occurrences = c.occurrences + i.occurrences := by
  obtain ⟨s, hbare, hparams⟩ := h
  simp only [Item.occurrences] at hocc
  obtain ⟨b, c₁, hb, hv, hrest₁, hocc₁⟩ :=
    bare_complete (c := { c with occurrences := c.occurrences + 1 }) hbare hw.1
  simp only at hocc₁
  obtain ⟨ps, c₂, hps, hpo, hrest₂, hocc₂⟩ :=
    parameters_complete (hrest₁ ▸ hparams) hw.2 (by omega)
  refine ⟨⟨⟨c.position, c₂.position⟩, some b, ps⟩, c₂, ?_, ?_, hrest₂, ?_⟩
  · simp only [item, consumeOccurrence_of_le
      (show c.occurrences + 1 ≤ L.get .maxTotalOccurrences by omega), ok_bind, hb, hps]
    rfl
  · simp [RawItem.occurrence, bareValue, hv, hpo]
  · simp only [Item.occurrences]
    omega

/-! ## Inner lists -/

theorem innerListLoop_sound {fuel count : ℕ} {c c' : Cursor} {is : List RawItem}
    (h : innerListLoop L fuel count c = .ok (is, c')) :
    Rfc9651.InnerItems c.rest (is.map RawItem.occurrence) c'.rest ∧
      (∀ i ∈ is.map RawItem.occurrence, i.Within L) ∧
      (is ≠ [] → count + is.length ≤ L.get .maxInnerListItems) ∧
      Charged L c ((is.map RawItem.occurrence).map Item.occurrences).sum c' := by
  induction fuel generalizing count c is c' with
  | zero => simp [innerListLoop, Cursor.fail] at h
  | succ fuel ih =>
    simp only [innerListLoop, bind_eq_ok, require_eq_ok, exists_const] at h
    obtain ⟨hne, h⟩ := h
    split at h
    · rename_i hc
      simp only [Except.ok.injEq, Prod.mk.injEq] at h
      obtain ⟨rfl, rfl⟩ := h
      exact ⟨.close (by simpa using rest_of_code hc), by simp, by simp, .zero rfl⟩
    · rename_i hc
      simp only [bind_eq_ok, Limits.check_eq_ok, require_eq_ok, exists_const, Prod.exists,
        pure_eq_ok, Prod.mk.injEq] at h
      obtain ⟨hcount, i, c₂, hi, hnext, is, c₃, his, rfl, rfl⟩ := h
      obtain ⟨hispec, hiw, hicharge⟩ := item_sound hi
      obtain ⟨hspec, hw, hlen, hcharge⟩ := ih his
      simp only [Cursor.code, spaces_false_rest] at hc hispec
      refine ⟨.item hne hc hispec hnext hspec, by simpa [hiw] using hw, fun _ => ?_, ?_⟩
      · cases is with
        | nil => exact hcount
        | cons j is => simpa [Nat.add_assoc, Nat.add_comm 1] using hlen (by simp)
      · simp only [List.map_cons, List.sum_cons]
        exact (hicharge.of_eq rfl rfl).trans hcharge

theorem innerListLoop_complete {fuel m : ℕ} {c : Cursor} {js : List Item} {rest : Text}
    (h : Rfc9651.InnerItems c.rest js rest) (hw : ∀ j ∈ js, j.Within L)
    (hcount : m + js.length ≤ L.get .maxInnerListItems)
    (hocc : c.occurrences + (js.map Item.occurrences).sum ≤ L.get .maxTotalOccurrences)
    (hfuel : c.rest.length ≤ fuel) :
    ∃ is c', innerListLoop L fuel m c = .ok (is, c') ∧ is.map RawItem.occurrence = js ∧
      c'.rest = rest ∧ c'.occurrences = c.occurrences + (js.map Item.occurrences).sum := by
  induction fuel generalizing m c js with
  | zero =>
    have := h.length_lt
    omega
  | succ fuel ih =>
    have hlt := h.length_lt
    have hne : c.rest ≠ [] := List.length_pos_iff.mp (by omega)
    cases h with
    | close hclose =>
      have hc : (c.spaces false).code = some 41 := by simp [Cursor.code, hclose]
      refine ⟨[], (c.spaces false).next, ?_, rfl, by simp [hclose], rfl⟩
      simp only [innerListLoop, require_of hne, ok_bind, if_pos hc]
    | @item _ s _ i js _ hhead hi hnext hjs =>
      have hc : (c.spaces false).code ≠ some 41 := by simpa [Cursor.code] using hhead
      obtain ⟨hiw, hw⟩ := List.forall_mem_cons.mp hw
      simp only [List.length_cons, List.map_cons, List.sum_cons] at hcount hocc ⊢
      have hilt := hi.length_lt
      have hdrop := Rfc9651.length_dropWhile_le Rfc9651.SP c.rest
      obtain ⟨r, c₂, hr, hro, hrest₂, hocc₂⟩ := item_complete (c := c.spaces false)
        (by simpa using hi) hiw (by simp only [spaces_occurrences]; omega)
      simp only [spaces_occurrences] at hocc₂
      obtain ⟨is, c₃, his, hiso, hrest₃, hocc₃⟩ := ih (m := m + 1) (c := c₂)
        (hrest₂ ▸ hjs) hw (by omega) (by omega) (by rw [hrest₂]; omega)
      refine ⟨r :: is, c₃, ?_, by simp [hro, hiso], hrest₃, by omega⟩
      have hnext' : c₂.code = some 32 ∨ c₂.code = some 41 := by
        rw [Cursor.code, hrest₂]
        exact hnext
      simp only [innerListLoop, require_of hne, ok_bind, if_neg hc,
        Limits.check_of_le (show m + 1 ≤ L.get .maxInnerListItems by omega), hr,
        require_of hnext', his]
      rfl

theorem innerList_sound {c c' : Cursor} {l : RawInnerList} (hc : c.code = some 40)
    (h : innerList L c = .ok (l, c')) :
    Rfc9651.InnerList c.rest l.occurrence c'.rest ∧ l.occurrence.Within L ∧
      Charged L c l.occurrence.occurrences c' := by
  simp only [innerList, bind_eq_ok, Prod.exists, pure_eq_ok, Prod.mk.injEq] at h
  obtain ⟨c₁, hc₁, is, c₂, his, ps, c₃, hps, rfl, rfl⟩ := h
  have hcharge := Charged.consumeOccurrence hc₁
  obtain ⟨-, rfl⟩ := consumeOccurrence_eq_ok.mp hc₁
  obtain ⟨hspec, hw, hlen, hicharge⟩ := innerListLoop_sound his
  obtain ⟨hpspec, hpw, hpcharge⟩ := parameters_sound hps
  refine ⟨⟨c.rest.tail, c₂.rest, rest_of_code hc, hspec, hpspec⟩, ⟨?_, hw, hpw⟩, ?_⟩
  · cases is with
    | nil => simp [RawInnerList.occurrence]
    | cons i is => simpa [RawInnerList.occurrence] using hlen (by simp)
  · simp only [InnerList.occurrences, RawInnerList.occurrence]
    rw [List.length_map]
    exact (hcharge.trans (hicharge.of_eq rfl rfl)).trans hpcharge

theorem innerList_complete {c : Cursor} {l : InnerList} {rest : Text}
    (h : Rfc9651.InnerList c.rest l rest) (hw : l.Within L)
    (hocc : c.occurrences + l.occurrences ≤ L.get .maxTotalOccurrences) :
    ∃ r c', innerList L c = .ok (r, c') ∧ r.occurrence = l ∧ c'.rest = rest ∧
      c'.occurrences = c.occurrences + l.occurrences := by
  obtain ⟨s, s', heq, hitems, hparams⟩ := h
  obtain ⟨hlen, hiw, hpw⟩ := hw
  simp only [InnerList.occurrences] at hocc ⊢
  have hc₁ := consumeOccurrence_of_le (L := L) (c := c) (by omega)
  set c₁ : Cursor := { c with occurrences := c.occurrences + 1 }
  have hnext : c₁.next.rest = s := by simp [c₁, heq]
  have hnocc : c₁.next.occurrences = c.occurrences + 1 := rfl
  obtain ⟨is, c₂, his, hiso, hrest₂, hocc₂⟩ := innerListLoop_complete (m := 0) (hnext ▸ hitems)
    hiw (by omega) (by omega) le_rfl
  obtain ⟨ps, c₃, hps, hpo, hrest₃, hocc₃⟩ :=
    parameters_complete (hrest₂ ▸ hparams) hpw (by omega)
  refine ⟨⟨⟨c.position, c₃.position⟩, is, ps⟩, c₃, ?_, ?_, hrest₃, by omega⟩
  · simp only [innerList, hc₁, ok_bind, his, hps]
    rfl
  · simp [RawInnerList.occurrence, hiso, hpo]

/-! ## Members -/

theorem member_sound {c c' : Cursor} {m : RawMember} (h : member L c = .ok (m, c')) :
    Rfc9651.Member c.rest m.occurrence c'.rest ∧ m.occurrence.Within L ∧
      Charged L c m.occurrence.occurrences c' := by
  unfold member at h
  split at h
  · rename_i hc
    simp only [bind_eq_ok, Prod.exists, pure_eq_ok, Prod.mk.injEq] at h
    obtain ⟨l, c', h, rfl, rfl⟩ := h
    obtain ⟨hspec, hw, hcharge⟩ := innerList_sound hc h
    exact ⟨.innerList hspec, hw, hcharge⟩
  · rename_i hc
    simp only [bind_eq_ok, Prod.exists, pure_eq_ok, Prod.mk.injEq] at h
    obtain ⟨i, c', h, rfl, rfl⟩ := h
    obtain ⟨hspec, hw, hcharge⟩ := item_sound h
    exact ⟨.item hc hspec, hw, hcharge⟩

theorem member_complete {c : Cursor} {m : Member} {rest : Text} (h : Rfc9651.Member c.rest m rest)
    (hw : m.Within L) (hocc : c.occurrences + m.occurrences ≤ L.get .maxTotalOccurrences) :
    ∃ r c', member L c = .ok (r, c') ∧ r.occurrence = m ∧ c'.rest = rest ∧
      c'.occurrences = c.occurrences + m.occurrences := by
  cases h with
  | innerList h =>
    obtain ⟨r, c', hr, rfl, hrest, hocc'⟩ := innerList_complete h hw hocc
    obtain ⟨s, s', heq, -⟩ := h
    refine ⟨.innerList r, c', ?_, rfl, hrest, hocc'⟩
    rw [member, if_pos (by simp [Cursor.code, heq]), hr]
    rfl
  | item hc h =>
    obtain ⟨r, c', hr, rfl, hrest, hocc'⟩ := item_complete h hw hocc
    refine ⟨.item r, c', ?_, rfl, hrest, hocc'⟩
    rw [member, if_neg (show ¬ c.code = some 40 from hc), hr]
    rfl

/-! ## Lists and dictionaries -/

theorem separator_sound {c c' : Cursor} {more : Bool} (h : separator c = .ok (more, c')) :
    (if more then Rfc9651.Separator c.rest c'.rest
      else c.rest.dropWhile Rfc9651.OWS = [] ∧ c'.rest = []) ∧ c'.occurrences = c.occurrences := by
  dsimp only [separator] at h
  split at h
  · rename_i hend
    simp only [pure_eq_ok, Prod.mk.injEq] at h
    obtain ⟨rfl, rfl⟩ := h
    exact ⟨by simpa using hend, rfl⟩
  · simp only [bind_eq_ok, require_eq_ok, exists_const, pure_eq_ok, Prod.mk.injEq] at h
    obtain ⟨hcomma, hne, rfl, rfl⟩ := h
    have hrest := rest_of_code hcomma
    simp only [spaces_true_rest, next_rest] at hrest hne
    exact ⟨⟨_, hrest, by simp, by simpa using hne⟩, rfl⟩

theorem separator_end {c : Cursor} (h : c.rest.dropWhile Rfc9651.OWS = []) :
    separator c = .ok (false, c.spaces true) := by
  rw [separator, if_pos (by simpa using h)]
  rfl

theorem separator_complete {c : Cursor} {rest : Text} (h : Rfc9651.Separator c.rest rest) :
    ∃ c', separator c = .ok (true, c') ∧ c'.rest = rest ∧ c'.occurrences = c.occurrences := by
  obtain ⟨s, hs, rfl, hne⟩ := h
  have hrest : (c.spaces true).rest = 0x2c :: s := by simpa using hs
  refine ⟨(c.spaces true).next.spaces true, ?_, by simp [hs], rfl⟩
  have hend : ¬ (c.spaces true).rest = [] := by simp [hrest]
  have hcomma : (c.spaces true).code = some 44 := by simp [Cursor.code, hrest]
  have hmore : ((c.spaces true).next.spaces true).rest ≠ [] := by simpa [hs] using hne
  simp only [separator, if_neg hend, require_of hcomma, require_of hmore, ok_bind]
  rfl

section Members

variable {α β : Type} {e : Cursor → Except SfError (α × Cursor)} {f : α → β}
  {P : Text → β → Text → Prop} {W : β → Prop} {n : β → ℕ}

/-- If each element that is read is in `P`, the elements that are read are `P` separated. -/
theorem membersLoop_sound
    (helement : ∀ {c a c'}, e c = .ok (a, c') →
      P c.rest (f a) c'.rest ∧ W (f a) ∧ Charged L c (n (f a)) c')
    {fuel count : ℕ} {c c' : Cursor} {as : List α}
    (h : membersLoop L e fuel count c = .ok (as, c')) :
    Rfc9651.Separated P c.rest (as.map f) ∧ c'.rest = [] ∧ (∀ b ∈ as.map f, W b) ∧
      (as ≠ [] → count + as.length ≤ L.get .maxMembers) ∧
      Charged L c ((as.map f).map n).sum c' := by
  induction fuel generalizing count c as c' with
  | zero =>
    unfold membersLoop at h
    split at h
    · rename_i hc
      simp only [Except.ok.injEq, Prod.mk.injEq] at h
      obtain ⟨rfl, rfl⟩ := h
      exact ⟨hc ▸ .nil, hc, by simp, by simp, .zero rfl⟩
    · simp [Cursor.fail] at h
  | succ fuel ih =>
    unfold membersLoop at h
    split at h
    · rename_i hc
      simp only [Except.ok.injEq, Prod.mk.injEq] at h
      obtain ⟨rfl, rfl⟩ := h
      exact ⟨hc ▸ .nil, hc, by simp, by simp, .zero rfl⟩
    · rename_i hne
      simp only [bind_eq_ok, Limits.check_eq_ok, exists_const, Prod.exists] at h
      obtain ⟨hcount, a, c₁, ha, more, c₂, hsep, h⟩ := h
      obtain ⟨hspec, hw, hcharge⟩ := helement ha
      obtain ⟨hsepspec, hsepocc⟩ := separator_sound hsep
      cases more with
      | false =>
        simp only [Bool.false_eq_true, if_false, pure_eq_ok, Prod.mk.injEq] at h hsepspec
        obtain ⟨rfl, rfl⟩ := h
        refine ⟨.last hne hspec hsepspec.1, hsepspec.2, by simpa using hw, fun _ => hcount, ?_⟩
        simpa using hcharge.of_eq rfl hsepocc
      | true =>
        simp only [if_true, bind_eq_ok, Prod.exists, pure_eq_ok, Prod.mk.injEq] at h hsepspec
        obtain ⟨as, c₃, has, rfl, rfl⟩ := h
        obtain ⟨hspec', hend, hw', hlen, hcharge'⟩ := ih has
        refine ⟨.cons hne hspec hsepspec hspec', hend, by simpa [hw] using hw', fun _ => ?_, ?_⟩
        · cases as with
          | nil => exact hcount
          | cons b as => simpa [Nat.add_assoc, Nat.add_comm 1] using hlen (by simp)
        · simp only [List.map_cons, List.sum_cons]
          exact hcharge.trans (hcharge'.of_eq hsepocc.symm rfl)

/-- If each element of `P` is read, elements of `P` separated are read. -/
theorem membersLoop_complete
    (helement : ∀ {c b rest}, P c.rest b rest → W b →
      c.occurrences + n b ≤ L.get .maxTotalOccurrences →
      ∃ a c', e c = .ok (a, c') ∧ f a = b ∧ c'.rest = rest ∧
        c'.occurrences = c.occurrences + n b)
    (hlt : ∀ {input b rest}, P input b rest → rest.length < input.length)
    {fuel m : ℕ} {c : Cursor} {bs : List β} (h : Rfc9651.Separated P c.rest bs)
    (hw : ∀ b ∈ bs, W b) (hcount : m + bs.length ≤ L.get .maxMembers)
    (hocc : c.occurrences + (bs.map n).sum ≤ L.get .maxTotalOccurrences)
    (hfuel : c.rest.length ≤ fuel) :
    ∃ as c', membersLoop L e fuel m c = .ok (as, c') ∧ as.map f = bs ∧ c'.rest = [] := by
  induction fuel generalizing m c bs with
  | zero =>
    have hnil := List.length_eq_zero_iff.mp (Nat.le_zero.mp hfuel)
    rw [hnil] at h
    cases h with
    | nil => exact ⟨[], c, by simp [membersLoop, hnil], rfl, hnil⟩
    | last hne | cons hne => exact absurd rfl hne
  | succ fuel ih =>
    generalize hinput : c.rest = input at h
    cases h with
    | nil => exact ⟨[], c, by simp [membersLoop, hinput], rfl, hinput⟩
    | @last _ s b hne hb hend =>
      subst hinput
      simp only [List.length_singleton, List.map_cons, List.map_nil, List.sum_cons, List.sum_nil]
        at hcount hocc
      obtain ⟨a, c₁, ha, rfl, hrest₁, -⟩ := helement hb (hw b (by simp)) (by omega)
      refine ⟨[a], c₁.spaces true, ?_, rfl, by simp [hrest₁, hend]⟩
      simp only [membersLoop, if_neg hne, Limits.check_of_le hcount, ok_bind, ha,
        separator_end (hrest₁ ▸ hend)]
      rfl
    | @cons _ s s' b bs hne hb hsep hbs =>
      subst hinput
      obtain ⟨hbw, hbsw⟩ := List.forall_mem_cons.mp hw
      simp only [List.length_cons, List.map_cons, List.sum_cons] at hcount hocc
      obtain ⟨a, c₁, ha, rfl, hrest₁, hocc₁⟩ := helement hb hbw (by omega)
      obtain ⟨c₂, hc₂, hrest₂, hocc₂⟩ := separator_complete (hrest₁ ▸ hsep)
      have h₁ := hlt hb
      have h₂ := hsep.length_lt
      obtain ⟨as, c₃, has, hmap, hend⟩ := ih (m := m + 1) (c := c₂)
        (show Rfc9651.Separated P c₂.rest bs from hrest₂ ▸ hbs) hbsw (by omega) (by omega) (by rw [hrest₂]; omega)
      refine ⟨a :: as, c₃, ?_, by simp [hmap], hend⟩
      simp only [membersLoop, if_neg hne,
        Limits.check_of_le (show m + 1 ≤ L.get .maxMembers by omega), ok_bind, ha, hc₂, has]
      rfl

end Members

theorem entry_sound {c c' : Cursor} {e : RawDictionaryEntry} (h : entry L c = .ok (e, c')) :
    Rfc9651.Entry c.rest e.occurrence c'.rest ∧
      (e.occurrence.1.length ≤ L.get .maxKeyLength ∧ e.occurrence.2.Within L) ∧
      Charged L c e.occurrence.2.occurrences c' := by
  simp only [entry, bind_eq_ok, Prod.exists] at h
  obtain ⟨k, ks, c₁, hk, h⟩ := h
  obtain ⟨hkey, hklen, hkocc⟩ := key_sound hk
  split at h
  · rename_i hc
    simp only [bind_eq_ok, Prod.exists, pure_eq_ok, Prod.mk.injEq] at h
    obtain ⟨m, c₂, hm, rfl, rfl⟩ := h
    obtain ⟨hspec, hw, hcharge⟩ := member_sound hm
    rw [rest_of_code hc] at hkey
    exact ⟨.explicit hkey hspec, ⟨hklen, hw⟩, hcharge.of_eq hkocc.symm rfl⟩
  · rename_i hc
    simp only [bind_eq_ok, Prod.exists, pure_eq_ok, Prod.mk.injEq] at h
    obtain ⟨c₂, hc₂, ps, c₃, hps, rfl, rfl⟩ := h
    have hcharge := Charged.consumeOccurrence hc₂
    obtain ⟨-, rfl⟩ := consumeOccurrence_eq_ok.mp hc₂
    obtain ⟨hspec, hw, hpcharge⟩ := parameters_sound hps
    refine ⟨.implicit hkey (startsWithout_of_code hc) hspec, ⟨hklen, trivial, hw⟩, ?_⟩
    simp only [RawDictionaryEntry.occurrence, RawMember.occurrence, RawItem.occurrence,
      Member.occurrences, Item.occurrences, List.length_map]
    exact (hcharge.of_eq hkocc.symm rfl).trans hpcharge

theorem entry_complete {c : Cursor} {e : Text × Member} {rest : Text}
    (h : Rfc9651.Entry c.rest e rest) (hw : e.1.length ≤ L.get .maxKeyLength ∧ e.2.Within L)
    (hocc : c.occurrences + e.2.occurrences ≤ L.get .maxTotalOccurrences) :
    ∃ r c', entry L c = .ok (r, c') ∧ r.occurrence = e ∧ c'.rest = rest ∧
      c'.occurrences = c.occurrences + e.2.occurrences := by
  obtain ⟨hklen, hw⟩ := hw
  cases h with
  | @explicit k s _ m hk hm =>
    obtain ⟨ks, c₁, hc₁, hrest₁, hocc₁⟩ := key_complete hk hklen
    have hnext : c₁.next.rest = s := by rw [next_rest, hrest₁, List.tail_cons]
    obtain ⟨r, c₂, hr, rfl, hrest₂, hocc₂⟩ :=
      member_complete (c := c₁.next) (hnext ▸ hm) hw (by rw [next_occurrences, hocc₁]; exact hocc)
    refine ⟨⟨⟨c.position, c₂.position⟩, k, ks, false, r⟩, c₂, ?_, rfl, hrest₂, ?_⟩
    · simp only [entry, hc₁, ok_bind]
      rw [if_pos (by simp [Cursor.code, hrest₁]), hr]
      rfl
    · rw [hocc₂, next_occurrences, hocc₁]
  | @implicit k s _ ps hk hs hps =>
    obtain ⟨ks, c₁, hc₁, hrest₁, hocc₁⟩ := key_complete hk hklen
    replace hocc : c.occurrences + (1 + ps.length) ≤ L.get .maxTotalOccurrences := hocc
    have hc₂ := consumeOccurrence_of_le (L := L) (c := c₁) (by omega)
    set c₂ : Cursor := { c₁ with occurrences := c₁.occurrences + 1 } with hdef
    have hocc₂ : c₂.occurrences = c.occurrences + 1 := by rw [hdef, hocc₁]
    obtain ⟨qs, c₃, hqs, hqo, hrest₃, hocc₃⟩ :=
      parameters_complete (c := c₂) (show Rfc9651.Parameters c₂.rest ps rest from hrest₁ ▸ hps)
        hw.2 (by omega)
    refine ⟨⟨⟨c.position, c₃.position⟩, k, ks, true, .item ⟨⟨c₂.position, c₃.position⟩, none, qs⟩⟩,
      c₃, ?_, ?_, hrest₃, ?_⟩
    · simp only [entry, hc₁, ok_bind]
      rw [if_neg (code_of_startsWithout (hrest₁ ▸ hs)), hc₂, ok_bind, hqs]
      rfl
    · simp [RawDictionaryEntry.occurrence, RawMember.occurrence, RawItem.occurrence, bareValue, hqo]
    · simp only [Member.occurrences, Item.occurrences]
      omega

/-! ## Fields -/

/-- The occurrences of a field in front of a remainder that is only whitespace. -/
def FieldSpec (type : FieldType) (input : Text) (f : Field) (rest : Text) : Prop :=
  match type, f with
  | .list, .list ms => Rfc9651.ListMembers input ms ∧ rest = []
  | .dictionary, .dictionary es => Rfc9651.Entries input es ∧ rest = []
  | .item, .item i => Rfc9651.Item input i rest
  | _, _ => False

theorem parses_iff {type : FieldType} {input : Text} {f : Field} :
    Rfc9651.Parses type input f ↔ isAscii input ∧
      ∃ rest, FieldSpec type (input.dropWhile Rfc9651.SP) f rest ∧
        rest.dropWhile Rfc9651.SP = [] := by
  constructor
  · rintro (⟨ha, h⟩ | ⟨ha, h⟩ | ⟨ha, h, hrest⟩)
    · exact ⟨ha, [], ⟨h, rfl⟩, rfl⟩
    · exact ⟨ha, [], ⟨h, rfl⟩, rfl⟩
    · exact ⟨ha, _, h, hrest⟩
  · rintro ⟨ha, rest, h, hrest⟩
    cases type <;> cases f <;> simp only [FieldSpec] at h
    · exact .item ha h hrest
    · exact .list ha h.1
    · exact .dictionary ha h.1

theorem fieldRoot_sound {type : FieldType} {c c' : Cursor} {r : RawField}
    (hc : c.occurrences = 0) (h : fieldRoot L type c = .ok (r, c')) :
    FieldSpec type c.rest r.occurrences c'.rest ∧ r.occurrences.Within L := by
  have hfits {n : ℕ} {d : Cursor} (h : Charged L c n d) : n ≤ L.get .maxTotalOccurrences := by
    obtain ⟨h₁, h₂⟩ := h
    by_cases hn : n = 0
    · omega
    · have := h₂ hn
      omega
  have hlength {n m : ℕ} (h : n ≠ 0 → 0 + n ≤ m) : n ≤ m := by omega
  cases type with
  | dictionary =>
    simp only [fieldRoot, dictionary, bind_eq_ok, Prod.exists, pure_eq_ok, Prod.mk.injEq] at h
    obtain ⟨d, c', ⟨es, c'', h, rfl, rfl⟩, rfl, rfl⟩ := h
    obtain ⟨hspec, hend, hw, hlen, hcharge⟩ :=
      membersLoop_sound (P := Rfc9651.Entry) (f := RawDictionaryEntry.occurrence)
        (W := fun e => e.1.length ≤ L.get .maxKeyLength ∧ e.2.Within L)
        (n := fun e => e.2.occurrences) entry_sound h
    refine ⟨⟨hspec, hend⟩, hfits hcharge, ?_, hw⟩
    rw [List.length_map]
    exact hlength fun hne => hlen (by rintro rfl; exact hne rfl)
  | list =>
    simp only [fieldRoot, list, bind_eq_ok, Prod.exists, pure_eq_ok, Prod.mk.injEq] at h
    obtain ⟨d, c', ⟨ms, c'', h, rfl, rfl⟩, rfl, rfl⟩ := h
    obtain ⟨hspec, hend, hw, hlen, hcharge⟩ :=
      membersLoop_sound (P := Rfc9651.Member) (f := RawMember.occurrence) (W := Member.Within L)
        (n := Member.occurrences) member_sound h
    refine ⟨⟨hspec, hend⟩, hfits hcharge, ?_, hw⟩
    rw [List.length_map]
    exact hlength fun hne => hlen (by rintro rfl; exact hne rfl)
  | item =>
    simp only [fieldRoot, bind_eq_ok, Prod.exists, pure_eq_ok, Prod.mk.injEq] at h
    obtain ⟨i, c', h, rfl, rfl⟩ := h
    obtain ⟨hspec, hw, hcharge⟩ := item_sound h
    exact ⟨hspec, hfits hcharge, hw⟩

theorem fieldRoot_complete {type : FieldType} {c : Cursor} {f : Field} {rest : Text}
    (hc : c.occurrences = 0) (h : FieldSpec type c.rest f rest) (hw : f.Within L) :
    ∃ r c', fieldRoot L type c = .ok (r, c') ∧ r.occurrences = f ∧ c'.rest = rest := by
  obtain ⟨hocc, hw⟩ := hw
  cases type <;> cases f <;> simp only [FieldSpec] at h
  case item.item i =>
    obtain ⟨r, c', hr, rfl, hrest, -⟩ := item_complete h hw (by rw [hc, Nat.zero_add]; exact hocc)
    exact ⟨.item r, c', by rw [fieldRoot, hr]; rfl, rfl, hrest⟩
  case list.list ms =>
    obtain ⟨rs, c', hrs, rfl, hend⟩ := membersLoop_complete (m := 0) (e := member L)
      (f := RawMember.occurrence) (n := Member.occurrences) member_complete
      Rfc9651.Member.length_lt h.1 hw.2 (by rw [Nat.zero_add]; exact hw.1)
      (by rw [hc, Nat.zero_add]; exact hocc) le_rfl
    exact ⟨.list ⟨⟨c.position, c'.position⟩, rs⟩, c', by rw [fieldRoot, list, hrs]; rfl, rfl,
      hend.trans h.2.symm⟩
  case dictionary.dictionary es =>
    obtain ⟨rs, c', hrs, rfl, hend⟩ := membersLoop_complete (m := 0) (e := entry L)
      (f := RawDictionaryEntry.occurrence) (n := fun e => e.2.occurrences) entry_complete
      Rfc9651.Entry.length_lt h.1 hw.2 (by rw [Nat.zero_add]; exact hw.1)
      (by rw [hc, Nat.zero_add]; exact hocc) le_rfl
    exact ⟨.dictionary ⟨⟨c.position, c'.position⟩, rs⟩, c', by rw [fieldRoot, dictionary, hrs]; rfl,
      rfl, hend.trans h.2.symm⟩

theorem findIdx_nonAscii {t : Text} :
    t.findIdx? (fun code => ¬ code ≤ 127) = none ↔ isAscii t := by
  simp [isAscii]

/-- The raw document of an input is that of a derivation within the limits. -/
theorem parseRaw_sound {input : Input} {type : FieldType} {d : RawDocument}
    (h : parseRaw L input type = .ok d) :
    Rfc9651.Parses type input.units d.root.occurrences ∧
      input.units.length ≤ L.get .maxInputBytes ∧ d.root.occurrences.Within L := by
  simp only [parseRaw, bind_eq_ok, Limits.check_eq_ok, exists_const] at h
  obtain ⟨hlen, h⟩ := h
  split at h
  · simp at h
  · rename_i hascii
    simp only [field, bind_eq_ok, require_eq_ok, exists_const, Prod.exists, pure_eq_ok] at h
    obtain ⟨r, ⟨r', c, hr, hend, rfl⟩, rfl⟩ := h
    obtain ⟨hspec, hw⟩ := fieldRoot_sound rfl hr
    simp only [spaces_false_rest] at hspec hend
    exact ⟨parses_iff.mpr ⟨findIdx_nonAscii.mp hascii, _, hspec, hend⟩, hlen, hw⟩

/-- A derivation within the limits has a raw document. -/
theorem parseRaw_complete {input : Input} {type : FieldType} {f : Field}
    (h : Rfc9651.Parses type input.units f) (hlen : input.units.length ≤ L.get .maxInputBytes)
    (hw : f.Within L) : ∃ d, parseRaw L input type = .ok d ∧ d.root.occurrences = f := by
  obtain ⟨hascii, rest, hspec, hend⟩ := parses_iff.mp h
  obtain ⟨r, c, hr, rfl, hrest⟩ := fieldRoot_complete (c := Cursor.spaces ⟨0, input.units, 0⟩ false)
    rfl (by simpa using hspec) hw
  refine ⟨⟨type, input.units, r⟩, ?_, rfl⟩
  have hend' : (c.spaces false).rest = [] := by rw [spaces_false_rest, hrest, hend]
  simp only [parseRaw, Limits.check_of_le hlen, ok_bind, findIdx_nonAscii.mpr hascii, field, hr,
    require_of hend']
  rfl

theorem parse_sound {input : Input} {type : FieldType} {v : Field}
    (h : parse L input type = .ok v) :
    ∃ f, Rfc9651.Parses type input.units f ∧ f.lastWins = v ∧
      input.units.length ≤ L.get .maxInputBytes ∧ f.Within L := by
  simp only [parse, bind_eq_ok, pure_eq_ok] at h
  obtain ⟨d, hd, rfl⟩ := h
  obtain ⟨hspec, hlen, hw⟩ := parseRaw_sound hd
  exact ⟨_, hspec, (semantic_eq_lastWins _).symm, hlen, hw⟩

theorem parse_complete {input : Input} {type : FieldType} {f : Field}
    (h : Rfc9651.Parses type input.units f) (hlen : input.units.length ≤ L.get .maxInputBytes)
    (hw : f.Within L) : parse L input type = .ok f.lastWins := by
  obtain ⟨d, hd, rfl⟩ := parseRaw_complete h hlen hw
  simp only [parse, hd, ok_bind, semantic_eq_lastWins]
  rfl

/-- **Within the limits, `parse` returns exactly the value of the algorithm of RFC 9651.** -/
theorem parse_eq_ok_iff (L : Limits) (input : Input) (type : FieldType) (v : Field) :
    parse L input type = .ok v ↔ ∃ f, Rfc9651.Parses type input.units f ∧ f.lastWins = v ∧
      input.units.length ≤ L.get .maxInputBytes ∧ f.Within L := by
  constructor
  · exact parse_sound
  · rintro ⟨f, hspec, rfl, hlen, hw⟩
    exact parse_complete hspec hlen hw

end AgentSig.StructuredFields
