import AgentSig.Commons.QuotedText
import AgentSig.Http.Forwarding

/-!
# Forwarded elements

The grammar of the field that a trusted ingress sets: pairs of a name and a value, with semicolons
between them. A value is a token or a quoted string. The parser reads exactly the texts of one
element, and what it returns are the pairs that the text writes.

## Main definitions

* `ValueText p t v`, `PairText`, `PairsText`: the text `t` writes the value `v`, a pair, some pairs;
  `p` are the characters of quoted strings
* `ForwardedText p pairs t`: the text `t` is an element with these pairs

## Main results

* `quotedValue_eq_ok`: what the loop over a quoted value reads
* `forwardedPairs_complete`, `forwardedPairs_sound`: what the loop over the pairs reads
* `parseForwarded_forwardedText`: the texts of elements, with the characters of the parser, are the
  texts that are parsed
-/

namespace AgentSig.Http

open Commons Core

/-! ## The grammar -/

/-- The name of a pair, in lower case. -/
def ForwardedName.text : ForwardedName → Text
  | .host => ascii "host"
  | .proto => ascii "proto"
  | .for => ascii "for"
  | .by => ascii "by"

/-- A character outside ASCII that a field value may have. -/
def obsText (c : UInt16) : Bool := 128 ≤ c && c ≤ 255

/-- Spaces and tabs. -/
def Blanks (ws : Text) : Prop := ∀ c ∈ ws, blank c

/-- The text of a value: a token, or a quoted string of characters of `p`. -/
inductive ValueText (p : UInt16 → Bool) : Text → Text → Prop
  | token {t : Text} (h : isFieldName t) : ValueText p t t
  | quoted {chars : List QuotedChar} (h : ∀ e ∈ chars, e.Valid p) :
    ValueText p (quotedText chars) (chars.map (·.unit))

/-- The text of a pair, whose name is in either case. -/
inductive PairText (p : UInt16 → Bool) : ForwardedName × Text → Text → Prop
  | mk {name : ForwardedName} {value spelled t : Text} (hname : toLowerCase spelled = name.text)
    (hvalue : ValueText p t value) : PairText p (name, value) (spelled ++ 61 :: t)

/-- The text of pairs, each but the last with a semicolon after it. Blanks may stand around a
semicolon, and at the end. -/
inductive PairsText (p : UInt16 → Bool) : List (ForwardedName × Text) → Text → Prop
  | last {pair : ForwardedName × Text} {t ws : Text} (hpair : PairText p pair t) (hws : Blanks ws) :
    PairsText p [pair] (t ++ ws)
  | more {pair : ForwardedName × Text} {t ws ws' rest : Text} {pairs : List (ForwardedName × Text)}
    (hpair : PairText p pair t) (hws : Blanks ws) (hws' : Blanks ws') (hrest : PairsText p pairs rest) :
    PairsText p (pair :: pairs) (t ++ (ws ++ 59 :: (ws' ++ rest)))

/-- The text of one element: pairs of different names, after blanks. -/
def ForwardedText (p : UInt16 → Bool) (pairs : List (ForwardedName × Text)) (t : Text) : Prop :=
  ∃ ws e, t = ws ++ e ∧ Blanks ws ∧ PairsText p pairs e ∧ (pairs.map (·.1)).Nodup

/-! ## Characters -/

theorem forwardedName?_eq_some {t : Text} {name : ForwardedName} :
    forwardedName? t = some name ↔ t = name.text := by
  constructor
  · intro h
    unfold forwardedName? at h
    split_ifs at h with hhost hproto hfor hby
    all_goals
      obtain rfl := Option.some.inj h
      assumption
  · rintro rfl
    cases name <;> decide

theorem tokenCharacter_of_toLowerCase {c : UInt16} (h : letter (if 65 ≤ c ∧ c ≤ 90 then c + 32 else c)) :
    tokenCharacter c := by
  simp only [letter, tokenCharacter, fieldNameChar, Bool.or_eq_true, Bool.and_eq_true,
    decide_eq_true_eq] at h ⊢
  split at h
  · rename_i hupper
    exact .inl (.inl (.inr hupper))
  · rcases h with h | h
    · exact .inl (.inl (.inr h))
    · exact .inl (.inr h)

/-- A name is a token, in whatever case. -/
theorem tokenCharacter_of_name {spelled : Text} {name : ForwardedName}
    (h : toLowerCase spelled = name.text) : spelled ≠ [] ∧ ∀ c ∈ spelled, tokenCharacter c := by
  have hletters : name.text ≠ [] ∧ ∀ c ∈ name.text, letter c := by
    cases name <;> decide
  rw [← h] at hletters
  constructor
  · rintro rfl
    exact hletters.1 rfl
  · intro c hc
    exact tokenCharacter_of_toLowerCase (hletters.2 _ (List.mem_map_of_mem hc))

theorem not_tokenCharacter_of_blank {c : UInt16} (h : blank c) : tokenCharacter c = false := by
  simp only [blank, Bool.or_eq_true, beq_iff_eq] at h
  rcases h with rfl | rfl <;> decide

/-! ## Quoted values -/

theorem quotedValue_complete {chars : List QuotedChar} (h : ∀ e ∈ chars, e.Valid quotable)
    (rest decoded : Text) :
    quotedValue (chars.flatMap QuotedChar.text ++ 34 :: rest) decoded =
      .ok (decoded ++ chars.map (·.unit), rest) := by
  induction chars generalizing decoded with
  | nil => cases rest <;> simp [quotedValue, pure, Except.pure]
  | cons e chars ih =>
    obtain ⟨⟨hunit, hplain⟩, hchars⟩ := List.forall_mem_cons.mp h
    have hrest := ih hchars (decoded ++ [e.unit])
    rw [List.append_assoc] at hrest
    cases hescaped : e.escaped with
    | true => simpa [QuotedChar.text, hescaped, quotedValue, hunit] using hrest
    | false =>
      obtain ⟨hquote, hslash⟩ := hplain hescaped
      obtain ⟨d, t, ht⟩ : ∃ d t, chars.flatMap QuotedChar.text ++ 34 :: rest = d :: t :=
        List.exists_cons_of_ne_nil (by simp)
      rw [ht] at hrest
      simpa [QuotedChar.text, hescaped, ht, quotedValue, hquote, hslash, hunit] using hrest

theorem quotedValue_sound {t decoded value rest : Text}
    (h : quotedValue t decoded = .ok (value, rest)) :
    ∃ chars : List QuotedChar, (∀ e ∈ chars, e.Valid quotable) ∧
      t = chars.flatMap QuotedChar.text ++ 34 :: rest ∧ value = decoded ++ chars.map (·.unit) := by
  fun_induction quotedValue t decoded with
  | case2 =>
    obtain ⟨rfl, rfl⟩ := Prod.mk.inj (pure_eq_ok.mp h)
    exact ⟨[], by simp, rfl, by simp⟩
  | case4 =>
    obtain ⟨rfl, rfl⟩ := Prod.mk.inj (pure_eq_ok.mp h)
    exact ⟨[], by simp, rfl, by simp⟩
  | case5 d t decoded hunit _ ih =>
    obtain ⟨chars, hchars, rfl, rfl⟩ := ih h
    refine ⟨⟨d, true⟩ :: chars, List.forall_mem_cons.mpr ⟨⟨hunit, ?_⟩, hchars⟩, ?_, ?_⟩
    · intro hplain
      cases hplain
    · simp [QuotedChar.text]
    · simp
  | case7 c d t decoded hquote hslash hunit ih =>
    obtain ⟨chars, hchars, ht, rfl⟩ := ih h
    refine ⟨⟨c, false⟩ :: chars, List.forall_mem_cons.mpr ⟨⟨hunit, fun _ => ⟨hquote, hslash⟩⟩, hchars⟩,
      ?_, ?_⟩
    · simp [QuotedChar.text, ht]
    · simp
  -- the branches that throw
  | case1 => cases h
  | case3 => cases h
  | case6 => cases h
  | case8 => cases h

/-! ## Values -/

theorem pairValue_complete {t value rest : Text} (h : ValueText quotable t value)
    (hrest : StartsWithout tokenCharacter rest) : pairValue (t ++ rest) = .ok (value, rest) := by
  cases h with
  | token h =>
    simp only [isFieldName, Bool.and_eq_true, decide_eq_true_eq, List.all_eq_true] at h
    have hne : t ≠ [] := h.1
    have htoken : ∀ c ∈ t, tokenCharacter c := h.2
    have hquote : ∀ t', t ++ rest = 34 :: t' → False := by
      intro t' ht
      obtain ⟨c, t, rfl⟩ := List.exists_cons_of_ne_nil hne
      obtain ⟨rfl, -⟩ := List.cons.inj ht
      exact absurd (htoken 34 (by simp)) (by decide)
    rw [pairValue.eq_2 _ hquote, takeWhile_run htoken hrest, dropWhile_run htoken hrest,
      require_of hne]
    rfl
  | quoted h =>
    rw [quotedText, List.cons_append, List.append_assoc]
    exact quotedValue_complete h rest []

theorem pairValue_sound {t value rest : Text} (h : pairValue t = .ok (value, rest)) :
    ∃ v, ValueText quotable v value ∧ t = v ++ rest := by
  unfold pairValue at h
  split at h
  · obtain ⟨chars, hchars, rfl, rfl⟩ := quotedValue_sound h
    exact ⟨quotedText chars, .quoted hchars, by simp [quotedText]⟩
  · simp only [bind_eq_ok, require_eq_ok, pure_eq_ok, Prod.mk.injEq] at h
    obtain ⟨-, hne, rfl, rfl⟩ := h
    refine ⟨t.takeWhile tokenCharacter, .token ?_, (List.takeWhile_append_dropWhile ..).symm⟩
    simp only [isFieldName, Bool.and_eq_true, decide_eq_true_eq, List.all_eq_true]
    exact ⟨hne, fun c hc => List.mem_takeWhile_imp hc⟩

/-! ## Pairs -/

/-- What one round reads: a pair, and blanks to the end or a semicolon with more after it. -/
def Round (fuel : ℕ) (rest : Text) (pairs m : List (ForwardedName × Text)) : Prop :=
  ∃ pair t ws, PairText quotable pair t ∧ Blanks ws ∧ pair.1 ∉ pairs.map (·.1) ∧
    ((rest = t ++ ws ∧ m = pairs ++ [pair]) ∨
      ∃ ws' rest', Blanks ws' ∧ rest = t ++ (ws ++ 59 :: (ws' ++ rest')) ∧ rest' ≠ [] ∧
        StartsWithout blank rest' ∧ forwardedPairs fuel rest' (pairs ++ [pair]) = .ok m)

theorem blanks_takeWhile (t : Text) : Blanks (t.takeWhile blank) := fun _ hc => List.mem_takeWhile_imp hc

theorem round_sound {fuel : ℕ} {rest : Text} {pairs m : List (ForwardedName × Text)} (hne : rest ≠ [])
    (h : forwardedPairs (fuel + 1) rest pairs = .ok m) : Round fuel rest pairs m := by
  rw [forwardedPairs.eq_3 _ _ _ hne] at h
  simp only [bind_eq_ok, require_eq_ok] at h
  obtain ⟨-, -, h⟩ := h
  split at h
  · cases h
  · rename_i name hname
    simp only [bind_eq_ok, require_eq_ok] at h
    obtain ⟨-, hnew, h⟩ := h
    split at h
    · rename_i after hafter
      simp only [bind_eq_ok, Prod.exists] at h
      obtain ⟨value, tail, hvalue, h⟩ := h
      obtain ⟨v, hv, rfl⟩ := pairValue_sound hvalue
      have hkeys : name ∉ pairs.map (·.1) := by
        rw [← OrderedMap.lookup_isSome]
        simpa using hnew
      have hpair : PairText quotable (name, value) (rest.takeWhile tokenCharacter ++ 61 :: v) :=
        .mk (forwardedName?_eq_some.mp hname) hv
      have hrest : rest = (rest.takeWhile tokenCharacter ++ 61 :: v) ++ tail := by
        rw [List.append_assoc, List.cons_append, ← hafter, List.takeWhile_append_dropWhile]
      have htail : tail = tail.takeWhile blank ++ tail.dropWhile blank :=
        (List.takeWhile_append_dropWhile ..).symm
      rw [OrderedMap.set_of_notMem hkeys] at h
      refine ⟨(name, value), _, tail.takeWhile blank, hpair, blanks_takeWhile tail, hkeys, ?_⟩
      split at h
      · rename_i hend
        rw [hend, List.append_nil] at htail
        exact .inl ⟨htail ▸ hrest, (pure_eq_ok.mp h).symm⟩
      · rename_i c more hmore
        simp only [bind_eq_ok, require_eq_ok] at h
        obtain ⟨-, -, -, rfl, -, hmore', h⟩ := h
        refine .inr ⟨more.takeWhile blank, more.dropWhile blank, blanks_takeWhile more, ?_, hmore',
          startsWithout_dropWhile more, h⟩
        rw [List.takeWhile_append_dropWhile, ← hmore, ← htail]
        exact hrest
    · cases h

theorem blank_ne {c : UInt16} (h : blank c) : c ≠ 44 ∧ c ≠ 59 := by
  constructor <;>
    rintro rfl <;>
    exact absurd h (by decide)

theorem startsWithout_blanks {ws rest : Text} (hws : Blanks ws)
    (hrest : StartsWithout tokenCharacter rest) : StartsWithout tokenCharacter (ws ++ rest) := by
  cases ws with
  | nil => exact hrest
  | cons c ws => exact startsWithout_cons.mpr (not_tokenCharacter_of_blank (hws c (by simp)))

theorem round_complete {fuel : ℕ} {rest : Text} {pairs m : List (ForwardedName × Text)}
    (h : Round fuel rest pairs m) : forwardedPairs (fuel + 1) rest pairs = .ok m := by
  obtain ⟨_, t, ws, hpair, hws, hkeys, h⟩ := h
  obtain @⟨name, value, spelled, v, hname, hvalue⟩ := hpair
  obtain ⟨hspelled, htoken⟩ := tokenCharacter_of_name hname
  obtain ⟨tail, rfl, htail⟩ : ∃ tail, rest = spelled ++ 61 :: (v ++ (ws ++ tail)) ∧
      StartsWithout tokenCharacter tail := by
    rcases h with ⟨rfl, -⟩ | ⟨ws', rest', -, rfl, -⟩
    · exact ⟨[], by simp, .nil⟩
    · exact ⟨59 :: (ws' ++ rest'), by simp, startsWithout_cons.mpr (by decide)⟩
  have hstop : StartsWithout tokenCharacter (61 :: (v ++ (ws ++ tail))) :=
    startsWithout_cons.mpr (by decide)
  have hcomma : (spelled ++ 61 :: (v ++ (ws ++ tail))).head? ≠ some 44 := by
    obtain ⟨c, spelled, rfl⟩ := List.exists_cons_of_ne_nil hspelled
    intro hc
    obtain rfl := Option.some.inj hc
    exact absurd (htoken 44 (by simp)) (by decide)
  have hnew : (OrderedMap.lookup pairs name).isNone := by
    rw [← OrderedMap.lookup_isSome] at hkeys
    simpa using hkeys
  rw [forwardedPairs.eq_3 _ _ _ (by simp), require_of hcomma, ok_bind, takeWhile_run htoken hstop,
    dropWhile_run htoken hstop, forwardedName?_eq_some.mpr hname]
  simp only []
  rw [require_of hnew, ok_bind, pairValue_complete hvalue (startsWithout_blanks hws htail), ok_bind,
    OrderedMap.set_of_notMem hkeys]
  simp only []
  rcases h with ⟨hrest, rfl⟩ | ⟨ws', rest', hws', hrest, hne, hstart, h⟩
  · obtain rfl : tail = [] := by simpa using hrest
    have hblank : ∀ c ∈ ws, blank c := hws
    rw [dropWhile_run hblank .nil]
    rfl
  · obtain rfl : tail = 59 :: (ws' ++ rest') := by simpa using hrest
    have hblank : ∀ c ∈ ws, blank c := hws
    have hblank' : ∀ c ∈ ws', blank c := hws'
    rw [dropWhile_run hblank (startsWithout_cons.mpr (by decide))]
    simp only []
    rw [require_of (by decide), ok_bind, require_of trivial, ok_bind, dropWhile_run hblank' hstart,
      require_of hne, ok_bind]
    exact h

/-- What the loop returns on a text is what it began with, then the pairs of the text. -/
theorem forwardedPairs_sound {fuel : ℕ} {rest : Text} {pairs m : List (ForwardedName × Text)}
    (hfuel : rest.length ≤ fuel) (hne : rest ≠ []) (hpairs : (pairs.map (·.1)).Nodup)
    (h : forwardedPairs fuel rest pairs = .ok m) :
    ∃ new, PairsText quotable new rest ∧ m = pairs ++ new ∧ (m.map (·.1)).Nodup := by
  induction fuel generalizing rest pairs with
  | zero => exact absurd (List.length_eq_zero_iff.mp (Nat.le_zero.mp hfuel)) hne
  | succ fuel ih =>
    obtain ⟨pair, t, ws, hpair, hws, hkeys, h⟩ := round_sound hne h
    have hnodup : ((pairs ++ [pair]).map (·.1)).Nodup := by
      rw [List.map_append]
      exact hpairs.append (List.nodup_singleton _) (List.disjoint_singleton.mpr hkeys)
    rcases h with ⟨rfl, rfl⟩ | ⟨ws', rest', hws', rfl, hne', -, h⟩
    · exact ⟨[pair], .last hpair hws, rfl, hnodup⟩
    · have hle : rest'.length ≤ fuel := by
        simp only [List.length_append, List.length_cons] at hfuel
        omega
      obtain ⟨new, hnew, rfl, hall⟩ := ih hle hne' hnodup h
      exact ⟨pair :: new, .more hpair hws hws' hnew, by simp, hall⟩

theorem PairsText.startsWithout {p : UInt16 → Bool} {pairs : List (ForwardedName × Text)} {t : Text}
    (h : PairsText p pairs t) : t ≠ [] ∧ StartsWithout blank t := by
  have hpair {pair : ForwardedName × Text} {t : Text} (hpair : PairText p pair t) (rest : Text) :
      t ++ rest ≠ [] ∧ StartsWithout blank (t ++ rest) := by
    obtain @⟨name, value, spelled, v, hname, -⟩ := hpair
    obtain ⟨hspelled, htoken⟩ := tokenCharacter_of_name hname
    obtain ⟨c, spelled, rfl⟩ := List.exists_cons_of_ne_nil hspelled
    refine ⟨by simp, startsWithout_cons.mpr ?_⟩
    rw [Bool.eq_false_iff]
    intro hblank
    have htoken := htoken c (by simp)
    rw [not_tokenCharacter_of_blank hblank] at htoken
    cases htoken
  cases h with
  | last h _ => exact hpair h _
  | more h _ _ _ => exact hpair h _

/-- The loop reads every text of pairs. -/
theorem forwardedPairs_complete {fuel : ℕ} {rest : Text} {pairs new : List (ForwardedName × Text)}
    (hfuel : rest.length ≤ fuel) (h : PairsText quotable new rest)
    (hnodup : ((pairs ++ new).map (·.1)).Nodup) :
    forwardedPairs fuel rest pairs = .ok (pairs ++ new) := by
  induction h generalizing fuel pairs with
  | @last pair t ws hpair hws =>
    obtain ⟨hne, -⟩ := (PairsText.last hpair hws).startsWithout
    obtain ⟨fuel, rfl⟩ := Nat.exists_eq_add_one.mpr ((List.length_pos_iff.mpr hne).trans_le hfuel)
    rw [List.map_append] at hnodup
    have hkeys := List.disjoint_singleton.mp (List.disjoint_of_nodup_append hnodup)
    exact round_complete ⟨pair, t, ws, hpair, hws, hkeys, .inl ⟨rfl, rfl⟩⟩
  | @more pair t ws ws' rest new hpair hws hws' hrest ih =>
    obtain ⟨hne, -⟩ := (PairsText.more hpair hws hws' hrest).startsWithout
    obtain ⟨hne', hstart⟩ := hrest.startsWithout
    obtain ⟨fuel, rfl⟩ := Nat.exists_eq_add_one.mpr ((List.length_pos_iff.mpr hne).trans_le hfuel)
    have hle : rest.length ≤ fuel := by
      simp only [List.length_append, List.length_cons] at hfuel
      omega
    rw [List.append_cons] at hnodup
    have hfirst : ((pairs ++ [pair]).map (·.1)).Nodup := by
      rw [List.map_append] at hnodup
      exact hnodup.sublist (List.sublist_append_left _ _)
    rw [List.map_append] at hfirst
    have hkeys := List.disjoint_singleton.mp (List.disjoint_of_nodup_append hfirst)
    have h := ih hle hnodup
    rw [← List.append_cons] at h
    exact round_complete ⟨pair, t, ws, hpair, hws, hkeys, .inr ⟨ws', rest, hws', rfl, hne', hstart, h⟩⟩

/-- Every round reads a character, so the loop ends by itself. -/
theorem forwardedPairs_fuel {m n : ℕ} {rest : Text} (pairs : List (ForwardedName × Text))
    (hm : rest.length ≤ m) (hn : rest.length ≤ n) :
    forwardedPairs m rest pairs = forwardedPairs n rest pairs := by
  induction m generalizing n rest pairs with
  | zero =>
    obtain rfl : rest = [] := List.length_eq_zero_iff.mp (Nat.le_zero.mp hm)
    cases n <;> rfl
  | succ m ih =>
    by_cases hne : rest = []
    · rw [hne]
      cases n <;> rfl
    · obtain ⟨n, rfl⟩ := Nat.exists_eq_add_one.mpr ((List.length_pos_iff.mpr hne).trans_le hn)
      rw [forwardedPairs.eq_3 _ _ _ hne, forwardedPairs.eq_3 _ _ _ hne]
      refine bind_congr fun _ => ?_
      split
      · rfl
      · refine bind_congr fun _ => ?_
        split
        · rename_i after hafter
          have hlength : after.length < rest.length := by
            have hle := List.length_dropWhile_le tokenCharacter rest
            rw [hafter, List.length_cons] at hle
            omega
          cases hvalue : pairValue after with
          | error e => rfl
          | ok read =>
            obtain ⟨value, tail⟩ := read
            obtain ⟨v, -, rfl⟩ := pairValue_sound hvalue
            rw [ok_bind, ok_bind]
            simp only []
            split
            · rfl
            · rename_i c more hmore
              have htail := List.length_dropWhile_le blank tail
              have hmore' := List.length_dropWhile_le blank more
              rw [hmore, List.length_cons] at htail
              rw [List.length_append] at hlength
              refine bind_congr fun _ => bind_congr fun _ => bind_congr fun _ => ?_
              exact ih _ (by omega) (by omega)
        · rfl

/-! ## Elements -/

theorem parseForwarded_eq_ok {t : Text} {pairs : List (ForwardedName × Text)} :
    parseForwarded t = .ok pairs ↔ ForwardedText quotable pairs t := by
  have hle : (t.dropWhile blank).length ≤ t.length := List.length_dropWhile_le ..
  simp only [parseForwarded, bind_eq_ok, require_eq_ok, pure_eq_ok]
  constructor
  · rintro ⟨m, h, -, hm, rfl⟩
    have hne : t.dropWhile blank ≠ [] := by
      intro hnil
      rw [hnil] at h
      have hm' : m = [] := by
        cases hlength : t.length <;>
          rw [hlength] at h <;>
          exact (pure_eq_ok.mp h).symm
      exact hm hm'
    have hnil : (([] : List (ForwardedName × Text)).map (·.1)).Nodup := List.nodup_nil
    obtain ⟨new, hnew, rfl, hnodup⟩ := forwardedPairs_sound hle hne hnil h
    exact ⟨t.takeWhile blank, t.dropWhile blank, (List.takeWhile_append_dropWhile ..).symm,
      blanks_takeWhile t, hnew, hnodup⟩
  · rintro ⟨ws, e, rfl, hws, hpairs, hnodup⟩
    obtain ⟨-, hstart⟩ := hpairs.startsWithout
    have hblank : ∀ c ∈ ws, blank c := hws
    rw [dropWhile_run hblank hstart] at hle ⊢
    refine ⟨pairs, forwardedPairs_complete hle hpairs hnodup, (), ?_, rfl⟩
    rintro rfl
    cases hpairs

theorem notMem_blanks {ws : Text} (h : Blanks ws) {c : UInt16} (hc : blank c = false) : c ∉ ws := by
  intro hmem
  rw [h c hmem] at hc
  cases hc

/-- A pair has no comma outside of a quoted string, and closes what it opens. -/
theorem not_exposed_pair {p : UInt16 → Bool} {pair : ForwardedName × Text} {t : Text}
    (h : PairText p pair t) : ¬ Exposed .outside 44 t ∧ Quoting.outside.after t = .outside := by
  obtain @⟨name, value, spelled, v, hname, hvalue⟩ := h
  have hplain {t : Text} (ht : ∀ c ∈ t, tokenCharacter c) : 44 ∉ t ∧ 34 ∉ t := by
    constructor <;>
      intro hc <;>
      exact absurd (ht _ hc) (by decide)
  obtain ⟨hcomma, hquote⟩ := hplain (tokenCharacter_of_name hname).2
  have hv : ¬ Exposed .outside 44 v ∧ Quoting.outside.after v = .outside := by
    cases hvalue with
    | token h =>
      have htoken : isFieldName value = true := h
      simp only [isFieldName, Bool.and_eq_true, List.all_eq_true] at htoken
      obtain ⟨hcomma, hquote⟩ := hplain htoken.2
      exact ⟨not_exposed_of_notMem hcomma, after_of_notMem hquote⟩
    | quoted h => exact ⟨not_exposed_quotedText h (by decide), after_quotedText h⟩
  constructor
  · simp [exposed_append, not_exposed_of_notMem hcomma, after_of_notMem hquote, Quoting.next, hv.1]
  · simp [after_of_notMem hquote, Quoting.next, hv.2]

/-- The text of pairs has no comma outside of quoted strings. -/
theorem not_exposed_pairs {p : UInt16 → Bool} {pairs : List (ForwardedName × Text)} {t : Text}
    (h : PairsText p pairs t) : ¬ Exposed .outside 44 t := by
  induction h with
  | last hpair hws =>
    obtain ⟨hcomma, hafter⟩ := not_exposed_pair hpair
    simp [exposed_append, hcomma, hafter, not_exposed_of_notMem (notMem_blanks hws (c := 44) (by decide))]
  | more hpair hws hws' _ ih =>
    obtain ⟨hcomma, hafter⟩ := not_exposed_pair hpair
    simp [exposed_append, hcomma, hafter, Quoting.next,
      not_exposed_of_notMem (notMem_blanks hws (c := 44) (by decide)),
      after_of_notMem (notMem_blanks hws (c := 34) (by decide)),
      not_exposed_of_notMem (notMem_blanks hws' (c := 44) (by decide)),
      after_of_notMem (notMem_blanks hws' (c := 34) (by decide)), ih]

/-- **The field is read as exactly one element.** The parser returns the pairs of the texts of
elements whose quoted characters are ASCII, and it refuses every other text, in particular every text
with a comma outside of quoted strings. Its loop ends by itself. -/
theorem parseForwarded_forwardedText (t : Text) :
    (∀ pairs, parseForwarded t = .ok pairs ↔ ForwardedText quotable pairs t) ∧
    (Exposed .outside 44 t → ∀ pairs, parseForwarded t ≠ .ok pairs) ∧
    ∀ fuel, t.length ≤ fuel → forwardedPairs fuel (t.dropWhile blank) [] =
      forwardedPairs t.length (t.dropWhile blank) [] := by
  refine ⟨fun pairs => parseForwarded_eq_ok, ?_, ?_⟩
  · intro hexposed pairs h
    obtain ⟨ws, e, rfl, hws, hpairs, -⟩ := parseForwarded_eq_ok.mp h
    rw [exposed_append, after_of_notMem (notMem_blanks hws (by decide))] at hexposed
    rcases hexposed with hexposed | hexposed
    · exact not_exposed_of_notMem (notMem_blanks hws (by decide)) hexposed
    · exact not_exposed_pairs hpairs hexposed
  · intro fuel hfuel
    have hle : (t.dropWhile blank).length ≤ t.length := List.length_dropWhile_le ..
    exact forwardedPairs_fuel [] (hle.trans hfuel) hle

/-- An element with a character outside ASCII in a quoted string is refused. -/
theorem parseForwarded_obsText :
    ForwardedText (fun c => quotable c || obsText c) [(.by, [128])] (ascii "by=\"" ++ [128, 34]) ∧
      ∀ pairs, parseForwarded (ascii "by=\"" ++ [128, 34]) ≠ .ok pairs := by
  constructor
  · have hvalue : ValueText (fun c => quotable c || obsText c) [34, 128, 34] [128] :=
      @ValueText.quoted _ [⟨128, false⟩] (by decide)
    have hpair : PairText (fun c => quotable c || obsText c) (.by, [128]) (ascii "by" ++ 61 :: [34, 128, 34]) :=
      .mk (by decide) hvalue
    exact ⟨[], _, rfl, List.forall_mem_nil _, @PairsText.last _ _ _ [] hpair (List.forall_mem_nil _), by decide⟩
  · intro pairs
    have h : parseForwarded (ascii "by=\"" ++ [128, 34]) = .error (rejectMapping .forwardingMalformed) := by
      decide
    rw [h]
    intro hok
    cases hok

end AgentSig.Http
