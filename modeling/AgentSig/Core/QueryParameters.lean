import AgentSig.Commons.FormUrlencoded
import AgentSig.Core.TargetIdentity

/-!
# Query parameters

A query parameter is named by its canonical encoding, whatever its spelling. The loop of `queryParameter` finds
the only pair of that name, and a second one is an error. The pairs are those that `URLSearchParams` finds in
the query without its question mark, and `URLSearchParams` drops another one.

## Main definitions

* `FormStandards P`: a platform that follows the standard of query strings
* `named`: the pairs of a name
* `Determines`: the value of a query parameter is that of the only pair of its name
* `Disguised`: a second question mark disguises the name of the first pair

## Main results

* `queryParameter_eq`: what `queryParameter` returns, from the pairs of the name
* `determines_iff`: a query parameter is determined, except where a name is disguised
* `derived_components`: **derived components determine a target**, and its query parameters with that exception
-/

namespace AgentSig.Core

open Commons

/-- A text without a question mark at its start. -/
def withoutMark : Text → Text
  | 63 :: t => t
  | t => t

/-- `URLSearchParams` follows its standard: it drops a question mark at the start of a text, and parses and
serializes forms. -/
structure FormStandards (P : Platform) : Prop where
  searchParams : ∀ t, P.searchParams t = formPairs (withoutMark t)
  formEncode : ∀ t, P.formEncode t = 61 :: formSerialize t

variable {P : Platform} {L : CoreLimits} {request : RequestParts} {parts : TargetParts} {n : Text}

/-- The pairs whose name has a canonical encoding. -/
def named (P : Platform) (n : Text) (pairs : List (Text × Text)) : List (Text × Text) :=
  pairs.filter fun pair => encodeQueryPart P pair.1 = n

theorem named_cons_of_pos {pair : Text × Text} (h : encodeQueryPart P pair.1 = n) (pairs : List (Text × Text)) :
    named P n (pair :: pairs) = pair :: named P n pairs := List.filter_cons_of_pos (by simpa using h)

theorem named_cons_of_neg {pair : Text × Text} (h : encodeQueryPart P pair.1 ≠ n) (pairs : List (Text × Text)) :
    named P n (pair :: pairs) = named P n pairs := List.filter_cons_of_neg (by simpa using h)

/-- After a pair of the name, no other is allowed. -/
theorem findParameter_some (P : Platform) (n value : Text) (pairs : List (Text × Text)) :
    findParameter P n (some value) pairs =
      if named P n pairs = [] then .ok (some value) else .error malformed := by
  induction pairs with
  | nil => rfl
  | cons pair pairs ih =>
    obtain ⟨name, found⟩ := pair
    rw [findParameter]
    by_cases h : encodeQueryPart P name = n
    · rw [if_neg (by simpa using h), named_cons_of_pos h, if_neg (by simp)]
      rfl
    · rw [if_pos h, named_cons_of_neg h, ih]

/-- The loop finds the only pair of the name. -/
theorem findParameter_none (P : Platform) (n : Text) (pairs : List (Text × Text)) :
    findParameter P n none pairs = match named P n pairs with
      | [] => .ok none
      | [pair] => .ok (some (encodeQueryPart P pair.2))
      | _ => .error malformed := by
  induction pairs with
  | nil => rfl
  | cons pair pairs ih =>
    obtain ⟨name, found⟩ := pair
    rw [findParameter]
    by_cases h : encodeQueryPart P name = n
    · rw [if_neg (by simpa using h), named_cons_of_pos h]
      show findParameter P n (some (encodeQueryPart P found)) pairs = _
      rw [findParameter_some]
      cases hrest : named P n pairs with
      | nil => rfl
      | cons other others => rfl
    · rw [if_pos h, named_cons_of_neg h, ih]

/-- What `queryParameter` returns, from the pairs of the name. -/
theorem queryParameter_eq (P : Platform) (query n : Text) :
    queryParameter P query n = match named P n (P.searchParams query.tail) with
      | [] => .error missingComponent
      | [pair] => .ok (encodeQueryPart P pair.2)
      | _ => .error malformed := by
  unfold queryParameter
  rw [findParameter_none]
  generalize named P n (P.searchParams query.tail) = found
  match found with
  | [] => rfl
  | [pair] => rfl
  | _ :: _ :: _ => rfl

theorem requestComponent_queryParam (h : targetParts P L request.targetUri = .ok parts) (n : Text) :
    requestComponent P L request (ascii "@query-param") (some n) = queryParameter P parts.query n := by
  rw [requestComponent, if_neg (by decide), if_neg (by decide), h]
  rfl

/-! ## The pairs of the query -/

/-- The value of a query parameter is the canonical encoding of the value of the only pair of its name, and a
second pair of the name is an error. -/
structure Determines (P : Platform) (L : CoreLimits) (request : RequestParts) (n : Text)
    (pairs : List (Text × Text)) : Prop where
  value : ∀ value, requestComponent P L request (ascii "@query-param") (some n) = .ok value →
    ∃ pair, named P n pairs = [pair] ∧ value = encodeQueryPart P pair.2
  repeated : 2 ≤ (named P n pairs).length →
    requestComponent P L request (ascii "@query-param") (some n) = .error malformed

/-- The query starts with another question mark, which belongs to the name of its first pair. The name is that
of the first pair without the mark and of no other pair, or that of the first pair and of one other. -/
def Disguised (P : Platform) (query n : Text) : Prop :=
  ∃ rest name value others, query = 63 :: rest ∧ formPairs query = (63 :: name, value) :: others ∧
    ((formPairs rest = (name, value) :: others ∧ encodeQueryPart P name = n ∧ named P n others = []) ∨
      (encodeQueryPart P (63 :: name) = n ∧ (named P n others).length = 1))

/-- The canonical encoding of a name is not that of the name with a question mark. -/
theorem encodeQueryPart_mark_ne (hP : FormStandards P) (name : Text) :
    encodeQueryPart P (63 :: name) ≠ encodeQueryPart P name := by
  unfold encodeQueryPart
  rw [hP.formEncode, hP.formEncode, List.tail_cons, List.tail_cons, formSerialize_cons_mark]
  intro heq
  have hlength := congrArg List.length heq
  have hmark : plusToEscape (ascii "%3F" ++ formSerialize name) =
      ascii "%3F" ++ plusToEscape (formSerialize name) := by
    unfold plusToEscape
    rw [List.flatMap_append]
    rfl
  rw [hmark, List.length_append] at hlength
  have hthree : (ascii "%3F").length = 3 := by decide
  omega

/-- Where the found pairs are those of the query, the parameter is determined. -/
theorem determines_of_named {query : Text} {pairs : List (Text × Text)}
    (h : targetParts P L request.targetUri = .ok parts) (hquery : parts.query = 63 :: query)
    (hpairs : named P n (P.searchParams query) = named P n pairs) : Determines P L request n pairs := by
  have hcomponent := (requestComponent_queryParam h n).trans (queryParameter_eq P parts.query n)
  rw [hquery, List.tail_cons, hpairs] at hcomponent
  constructor
  · intro value hvalue
    rw [hcomponent] at hvalue
    split at hvalue
    · simp at hvalue
    · rename_i pair heq
      exact ⟨pair, heq, (Except.ok.inj hvalue).symm⟩
    · simp at hvalue
  · intro htwo
    rw [hcomponent]
    split
    · rename_i heq
      simp [heq] at htwo
    · rename_i heq
      simp [heq] at htwo
    · rfl

/-- Where no pair or more than one is found, there is no value. -/
theorem determines_of_length {query : Text} {pairs : List (Text × Text)}
    (h : targetParts P L request.targetUri = .ok parts) (hquery : parts.query = 63 :: query)
    (hne : (named P n (P.searchParams query)).length ≠ 1)
    (hmore : 2 ≤ (named P n pairs).length → 2 ≤ (named P n (P.searchParams query)).length) :
    Determines P L request n pairs := by
  have hcomponent := (requestComponent_queryParam h n).trans (queryParameter_eq P parts.query n)
  rw [hquery, List.tail_cons] at hcomponent
  constructor
  · intro value hvalue
    rw [hcomponent] at hvalue
    split at hvalue
    · simp at hvalue
    · rename_i heq
      simp [heq] at hne
    · simp at hvalue
  · intro htwo
    have hfound := hmore htwo
    rw [hcomponent]
    split
    · rename_i heq
      simp [heq] at hfound
    · rename_i heq
      simp [heq] at hne
    · rfl

/-- **A query parameter of an accepted target is determined, except where a name is disguised.** -/
theorem determines_iff (hP : FormStandards P) {query : Text}
    (h : targetParts P L request.targetUri = .ok parts) (hquery : parts.query = 63 :: query) (n : Text) :
    Determines P L request n (formPairs query) ↔ ¬ Disguised P query n := by
  have hcomponent := (requestComponent_queryParam h n).trans (queryParameter_eq P parts.query n)
  rw [hquery, List.tail_cons, hP.searchParams] at hcomponent
  constructor
  · rintro hdetermines ⟨rest, name, value, others, rfl, hpairs, hcase⟩
    rw [hpairs] at hdetermines
    rw [withoutMark] at hcomponent
    have hne := encodeQueryPart_mark_ne hP name
    rcases hcase with ⟨hrest, hname, hothers⟩ | ⟨hname, hone⟩
    · -- The only pair that is found has another name.
      rw [hrest, named_cons_of_pos hname, hothers] at hcomponent
      obtain ⟨pair, hnamed, -⟩ := hdetermines.value _ hcomponent
      rw [named_cons_of_neg (hname ▸ hne), hothers] at hnamed
      simp at hnamed
    · -- The first pair is not found, and the other one is.
      have hfound : named P n (formPairs rest) = named P n others := by
        rcases formPairs_cons_mark rest with hmark | ⟨name', value', others', hrest, hmark⟩
        · rw [hmark] at hpairs
          rw [(List.cons.inj hpairs).2]
        · rw [hmark] at hpairs
          obtain ⟨hfirst, rfl⟩ := List.cons.inj hpairs
          obtain rfl : name' = name := (List.cons.inj (Prod.mk.inj hfirst).1).2
          rw [hrest, named_cons_of_neg (hname ▸ hne.symm)]
      obtain ⟨pair, hpair⟩ := List.length_eq_one_iff.mp hone
      rw [hfound, hpair] at hcomponent
      have hboth : named P n ((63 :: name, value) :: others) = (63 :: name, value) :: named P n others :=
        named_cons_of_pos hname others
      have hrepeated := hdetermines.repeated (by rw [hboth, hpair]; exact le_rfl)
      rw [hcomponent] at hrepeated
      simp at hrepeated
  · intro hplain
    by_cases hmark : ∃ rest, query = 63 :: rest
    · obtain ⟨rest, rfl⟩ := hmark
      have hfound : P.searchParams (63 :: rest) = formPairs rest := hP.searchParams _
      rcases formPairs_cons_mark rest with hpairs | ⟨name, value, others, hrest, hpairs⟩
      · rw [hpairs]
        by_cases hname : encodeQueryPart P [63] = n
        · have hlength : (named P n (formPairs rest)).length ≠ 1 := fun hone =>
            hplain ⟨rest, [], [], formPairs rest, rfl, hpairs, .inr ⟨hname, hone⟩⟩
          refine determines_of_length h hquery (by rwa [hfound]) fun htwo => ?_
          rw [named_cons_of_pos hname, List.length_cons] at htwo
          rw [hfound]
          omega
        · exact determines_of_named h hquery (by rw [hfound, named_cons_of_neg hname])
      · rw [hrest] at hfound
        rw [hpairs]
        have hne := encodeQueryPart_mark_ne hP name
        by_cases hname : encodeQueryPart P name = n
        · have hothers : named P n others ≠ [] := fun hnil =>
            hplain ⟨rest, name, value, others, rfl, hpairs, .inl ⟨hrest, hname, hnil⟩⟩
          have hpos := List.length_pos_iff.mpr hothers
          have hcount : (named P n (P.searchParams (63 :: rest))).length = (named P n others).length + 1 := by
            rw [hfound, named_cons_of_pos hname, List.length_cons]
          exact determines_of_length h hquery (by omega) fun _ => by omega
        · have hcount : named P n (P.searchParams (63 :: rest)) = named P n others := by
            rw [hfound, named_cons_of_neg hname]
          by_cases hmarked : encodeQueryPart P (63 :: name) = n
          · have hlength : (named P n others).length ≠ 1 := fun hone =>
              hplain ⟨rest, name, value, others, rfl, hpairs, .inr ⟨hmarked, hone⟩⟩
            refine determines_of_length h hquery (by rwa [hcount]) fun htwo => ?_
            rw [named_cons_of_pos hmarked, List.length_cons] at htwo
            rw [hcount]
            omega
          · exact determines_of_named h hquery (by rw [hcount, named_cons_of_neg hmarked])
    · have hsame : withoutMark query = query := by
        unfold withoutMark
        split
        · exact absurd ⟨_, rfl⟩ hmark
        · rfl
      exact determines_of_named h hquery (by rw [hP.searchParams, hsame])

/-! ## Derived components -/

/-- The components that determine a target. -/
def determiningComponents : List Text := [ascii "@scheme", ascii "@authority", ascii "@path", ascii "@query"]

/-- The determining components of two accepted targets, from their spellings. -/
theorem components_eq_iff {request' : RequestParts} {parts' : TargetParts} {s t : TargetSpelling}
    (h : targetParts P L request.targetUri = .ok parts) (h' : targetParts P L request'.targetUri = .ok parts')
    (hs : s.Valid) (htext : s.text = request.targetUri) (ht : t.Valid) (htext' : t.text = request'.targetUri) :
    (∀ name ∈ determiningComponents,
      requestComponent P L request name none = requestComponent P L request' name none) ↔ SameTarget s t := by
  obtain ⟨-, hauthority, hscheme, hpath, hquery⟩ := requestComponent_parts h none
  obtain ⟨-, hauthority', hscheme', hpath', hquery'⟩ := requestComponent_parts h' none
  obtain ⟨s', hs', hsame, hparts⟩ := targetParts_spelling h
  obtain rfl := hs.unique hs' (htext.trans hsame.symm)
  obtain ⟨t', ht', hsame', hparts'⟩ := targetParts_spelling h'
  obtain rfl := ht.unique ht' (htext'.trans hsame'.symm)
  rw [← sameTarget_iff hs ht]
  simp only [determiningComponents, List.mem_cons, List.not_mem_nil, or_false, forall_eq_or_imp, forall_eq,
    hauthority, hscheme, hpath, hquery, hauthority', hscheme', hpath', hquery', Except.ok.injEq]
  rw [hparts, hparts']

/-- **Derived components determine a target.** An accepted target has one spelling, and two accepted targets
have the same scheme, authority, path and query where they are the same target. A query parameter has the
value of the only pair of its name, except where a second question mark disguises a name. -/
theorem derived_components (P : Platform) (L : CoreLimits) (hP : FormStandards P) :
    (∀ (request : RequestParts) (parts : TargetParts), targetParts P L request.targetUri = .ok parts →
      ∃! s : TargetSpelling, s.Valid ∧ s.text = request.targetUri) ∧
    (∀ (request request' : RequestParts) (parts parts' : TargetParts) (s t : TargetSpelling),
      targetParts P L request.targetUri = .ok parts → targetParts P L request'.targetUri = .ok parts' → s.Valid → s.text = request.targetUri → t.Valid →
      t.text = request'.targetUri →
      ((∀ name ∈ determiningComponents,
        requestComponent P L request name none = requestComponent P L request' name none) ↔ SameTarget s t)) ∧
    ∀ (request : RequestParts) (parts : TargetParts) (s : TargetSpelling) (n : Text),
      targetParts P L request.targetUri = .ok parts → s.Valid → s.text = request.targetUri →
      (Determines P L request n (formPairs (s.query.getD [])) ↔ ¬ Disguised P (s.query.getD []) n) := by
  refine ⟨fun request parts h => ?_, fun request request' parts parts' s t h h' hs htext ht htext' =>
    components_eq_iff h h' hs htext ht htext', fun request parts s n h hs htext => ?_⟩
  · obtain ⟨s, hs, htext, -⟩ := targetParts_spelling h
    exact ⟨s, ⟨hs, htext⟩, fun t ht => ht.1.unique hs (ht.2.trans htext.symm)⟩
  · obtain ⟨s', hs', htext', hparts⟩ := targetParts_spelling h
    obtain rfl := hs.unique hs' (htext.trans htext'.symm)
    exact determines_iff hP h (by rw [hparts]) n

/-- A platform that follows the standard of query strings. -/
def formPlatform : Platform where
  urlAccepts _ := true
  searchParams t := formPairs (withoutMark t)
  formEncode t := 61 :: formSerialize t

theorem formStandards_formPlatform : FormStandards formPlatform := ⟨fun _ => rfl, fun _ => rfl⟩

/-- A request for a target. -/
def targetRequest (target : Text) : RequestParts := ⟨ascii "GET", target, none, [], none⟩

/-- Two spellings of one target. -/
def plainSpelling : TargetSpelling := ⟨ascii "https", ascii "a.example", none, [], some (ascii "b=1&c=2&%62=3")⟩

/-- The other spelling. -/
def looseSpelling : TargetSpelling :=
  ⟨ascii "HTTPS", ascii "A.example", some (ascii "0443"), ascii "/", some (ascii "b=1&c=2&%62=3")⟩

theorem valid_plainSpelling : plainSpelling.Valid := by
  refine ⟨by decide, by decide, .inr (by decide), by decide, .inl rfl, by decide, ?_⟩
  rintro q hq
  obtain rfl := Option.mem_some.mp hq
  decide

theorem valid_looseSpelling : looseSpelling.Valid := by
  refine ⟨by decide, by decide, .inr (by decide), ?_, .inr (by decide), by decide, ?_⟩
  · rintro p hp
    obtain rfl := Option.mem_some.mp hp
    decide
  · rintro q hq
    obtain rfl := Option.mem_some.mp hq
    decide

theorem accepted_of_isOk (target : Text) (h : (targetParts formPlatform DEFAULT_CORE_LIMITS target).isOk) :
    ∃ parts, targetParts formPlatform DEFAULT_CORE_LIMITS target = .ok parts := by
  cases hparts : targetParts formPlatform DEFAULT_CORE_LIMITS target with
  | ok parts => exact ⟨parts, rfl⟩
  | error e => simp [hparts, Except.isOk, Except.toBool] at h

theorem derived_components_looseSpelling :
    SameTarget plainSpelling looseSpelling ∧
      Determines formPlatform DEFAULT_CORE_LIMITS (targetRequest looseSpelling.text) (ascii "c")
        (formPairs (ascii "b=1&c=2&%62=3")) := by
  obtain ⟨parts, hparts⟩ := accepted_of_isOk plainSpelling.text (by decide +kernel)
  obtain ⟨parts', hparts'⟩ := accepted_of_isOk looseSpelling.text (by decide +kernel)
  obtain ⟨-, hsame, hdetermines⟩ := derived_components formPlatform DEFAULT_CORE_LIMITS formStandards_formPlatform
  refine ⟨?_, ?_⟩
  · refine (hsame (targetRequest plainSpelling.text) (targetRequest looseSpelling.text) parts parts' _ _ hparts
      hparts' valid_plainSpelling rfl valid_looseSpelling rfl).mp ?_
    decide +kernel
  · refine (hdetermines (targetRequest looseSpelling.text) parts' looseSpelling (ascii "c") hparts'
      valid_looseSpelling rfl).mpr ?_
    rintro ⟨rest, name, value, others, hquery, -⟩
    have hhead := congrArg List.head? hquery
    rw [List.head?_cons] at hhead
    exact absurd hhead (by decide)

/-- A target whose query has the name `?a` twice, in two spellings. -/
def doubledSpelling : TargetSpelling :=
  ⟨ascii "https", ascii "a.example", none, ascii "/", some (ascii "?a=1&%3Fa=2")⟩

theorem valid_doubledSpelling : doubledSpelling.Valid := by
  refine ⟨by decide, by decide, .inr (by decide), by decide, .inr (by decide), by decide, ?_⟩
  rintro q hq
  obtain rfl := Option.mem_some.mp hq
  decide

/-- The second pair of a name is selected where a second question mark hides the first. -/
theorem doubled_not_determined : ¬ ∀ (P : Platform) (L : CoreLimits) (request : RequestParts)
    (parts : TargetParts) (s : TargetSpelling) (n : Text), FormStandards P →
      targetParts P L request.targetUri = .ok parts → s.Valid → s.text = request.targetUri →
      Determines P L request n (formPairs (s.query.getD [])) := by
  intro h
  obtain ⟨parts, hparts⟩ := accepted_of_isOk doubledSpelling.text (by decide +kernel)
  have hdetermines := h formPlatform DEFAULT_CORE_LIMITS (targetRequest doubledSpelling.text) parts
    doubledSpelling (ascii "%3Fa") formStandards_formPlatform hparts valid_doubledSpelling rfl
  have herror := hdetermines.repeated (by decide +kernel)
  have hvalue : requestComponent formPlatform DEFAULT_CORE_LIMITS (targetRequest doubledSpelling.text)
      (ascii "@query-param") (some (ascii "%3Fa")) = .ok (ascii "2") := by decide +kernel
  rw [hvalue] at herror
  simp at herror

end AgentSig.Core
