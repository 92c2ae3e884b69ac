import AgentSig.Commons.JsonStrings
import AgentSig.Commons.NumberText
import AgentSig.Commons.OrderedMap

/-!
# JSON texts

The values of JSON, their text as `JSON.stringify` writes it and the reader `JSON.parse`. An object
is its members in the order in which they were defined; in a text the last of several members with
one name wins. A written value reads back as that value with both zeros made one.

The reader takes its number of steps from the length of the text: every call that one makes is
about a shorter text.

## Main definitions

* `JsonValue`: the values
* `stringify`: the text of a value
* `jsonParse`: the value of a text
* `JsonValue.Proper`: numbers are finite and names are distinct

## Main results

* `jsonParse_stringify`: the text of a proper value reads back as that value
* `wellFormed_stringify`: the text of a value is well formed
-/

namespace Commons

/-- A JSON value; the members of an object are in the order in which they were defined. -/
inductive JsonValue where
  | null
  | boolean (b : Bool)
  | number (n : JsonNumber)
  | text (t : Text)
  | array (values : List JsonValue)
  | object (members : List (Text × JsonValue))

namespace JsonValue

mutual

/-- The value with both zeros made one. -/
def unsigned : JsonValue → JsonValue
  | .number n => .number n.unsigned
  | .array vs => .array (unsignedValues vs)
  | .object ms => .object (unsignedMembers ms)
  | j => j

def unsignedValues : List JsonValue → List JsonValue
  | [] => []
  | v :: vs => v.unsigned :: unsignedValues vs

def unsignedMembers : List (Text × JsonValue) → List (Text × JsonValue)
  | [] => []
  | (k, v) :: ms => (k, v.unsigned) :: unsignedMembers ms

end

mutual

/-- Every number is finite, and the names of every object are distinct. -/
def Proper : JsonValue → Prop
  | .number n => n.isFinite
  | .array vs => ProperValues vs
  | .object ms => (ms.map (·.1)).Nodup ∧ ProperMembers ms
  | _ => True

def ProperValues : List JsonValue → Prop
  | [] => True
  | v :: vs => v.Proper ∧ ProperValues vs

def ProperMembers : List (Text × JsonValue) → Prop
  | [] => True
  | (_, v) :: ms => v.Proper ∧ ProperMembers ms

end

end JsonValue

/-! ## Writing -/

section Writing

variable (format : NumberFormat)

mutual

/-- The text of a value. -/
def stringify : JsonValue → Text
  | .null => ascii "null"
  | .boolean b => if b then ascii "true" else ascii "false"
  | .number n => if n.isFinite then numberText format n else ascii "null"
  | .text t => quoteText t
  | .array [] => [91, 93]
  | .array (v :: vs) => 91 :: stringify v ++ followingValues vs
  | .object [] => [123, 125]
  | .object ((k, v) :: ms) => 123 :: quoteText k ++ 58 :: stringify v ++ followingMembers ms

/-- The elements that follow the first one of an array, and its end. -/
def followingValues : List JsonValue → Text
  | [] => [93]
  | v :: vs => 44 :: stringify v ++ followingValues vs

/-- The members that follow the first one of an object, and its end. -/
def followingMembers : List (Text × JsonValue) → Text
  | [] => [125]
  | (k, v) :: ms => 44 :: quoteText k ++ 58 :: stringify v ++ followingMembers ms

end

end Writing

/-! ## Reading -/

/-- The units between the tokens of a text. -/
def jsonSpace (c : UInt16) : Bool := c == 9 || c == 10 || c == 13 || c == 32

/-- The text from its next token on. -/
def skipSpace (t : Text) : Text := t.dropWhile jsonSpace

/-- The text after a word that it starts with. -/
def afterWord (word t : Text) : Option Text :=
  if word.isPrefixOf t then some (t.drop word.length) else none

/-- The name of a member, and the text after its colon. -/
def readName (t : Text) : Option (Text × Text) :=
  match skipSpace t with
  | 34 :: t => do
    let (k, t) ← readUnits t
    match skipSpace t with
    | 58 :: t => some (k, t)
    | _ => none
  | _ => none

mutual

/-- The value that a text starts with, in at most so many nested steps. -/
def parseValue : ℕ → Text → Option (JsonValue × Text)
  | 0, _ => none
  | n + 1, t =>
    match skipSpace t with
    | 34 :: t => (readUnits t).map fun (s, t) => (.text s, t)
    | 91 :: t =>
      match skipSpace t with
      | 93 :: t => some (.array [], t)
      | t => do
        let (v, t) ← parseValue n t
        let (vs, t) ← parseValues n t
        return (.array (v :: vs), t)
    | 123 :: t =>
      match skipSpace t with
      | 125 :: t => some (.object [], t)
      | t => do
        let (k, t) ← readName t
        let (v, t) ← parseValue n t
        let (ms, t) ← parseMembers n t
        return (.object (OrderedMap.lastWins ((k, v) :: ms)), t)
    | t =>
      ((afterWord (ascii "null") t).map fun t => (.null, t)) <|>
      ((afterWord (ascii "true") t).map fun t => (.boolean true, t)) <|>
      ((afterWord (ascii "false") t).map fun t => (.boolean false, t)) <|>
      ((readNumber t).map fun (x, t) => (.number x, t))

/-- The elements that follow the first one of an array. -/
def parseValues : ℕ → Text → Option (List JsonValue × Text)
  | 0, _ => none
  | n + 1, t =>
    match skipSpace t with
    | 93 :: t => some ([], t)
    | 44 :: t => do
      let (v, t) ← parseValue n t
      let (vs, t) ← parseValues n t
      return (v :: vs, t)
    | _ => none

/-- The members that follow the first one of an object. -/
def parseMembers : ℕ → Text → Option (List (Text × JsonValue) × Text)
  | 0, _ => none
  | n + 1, t =>
    match skipSpace t with
    | 125 :: t => some ([], t)
    | 44 :: t => do
      let (k, t) ← readName t
      let (v, t) ← parseValue n t
      let (ms, t) ← parseMembers n t
      return ((k, v) :: ms, t)
    | _ => none

end

/-- The value of a text. -/
def jsonParse (t : Text) : Option JsonValue := do
  let (v, rest) ← parseValue (t.length + 1) t
  if skipSpace rest = [] then some v else none

example : (jsonParse (ascii " [\"a\", \x7b\"b\" : null, \"b\":true\x7d ] ")).map (stringify .chosen) =
    some (ascii "[\"a\",\x7b\"b\":true\x7d]") := by
  rfl

/-! ## Reading what is written -/

section RoundTrip

variable {format : NumberFormat}

theorem skipSpace_cons {c : UInt16} {t : Text} (h : jsonSpace c = false) :
    skipSpace (c :: t) = c :: t := dropWhile_of_startsWithout (startsWithout_cons.mpr h)

/-- The units that a value starts with. -/
def valueStart (c : UInt16) : Bool :=
  c == 110 || c == 116 || c == 102 || c == 34 || c == 91 || c == 123 || decimalDigit c || c == 45

theorem valueStart.spec {c : UInt16} (h : valueStart c) :
    jsonSpace c = false ∧ c ≠ 93 ∧ c ≠ 125 := by
  refine ⟨?_, ?_, ?_⟩
  · rw [Bool.eq_false_iff]
    intro hspace
    simp only [jsonSpace, Bool.or_eq_true, beq_iff_eq] at hspace
    rcases hspace with ((rfl | rfl) | rfl) | rfl <;> revert h <;> decide
  · rintro rfl
    revert h
    decide
  · rintro rfl
    revert h
    decide

theorem exists_stringify_eq (j : JsonValue) (h : j.Proper) :
    ∃ c t, stringify format j = c :: t ∧ valueStart c := by
  cases j with
  | null => exact ⟨110, _, by rw [stringify]; rfl, rfl⟩
  | boolean b => cases b <;> exact ⟨_, _, by rw [stringify]; rfl, rfl⟩
  | number n =>
    rw [JsonValue.Proper] at h
    obtain ⟨c, t, htext, hstart⟩ := exists_numberText_eq format h
    refine ⟨c, t, by rw [stringify, if_pos h, htext], ?_⟩
    rcases hstart with hdigit | rfl
    · simp [valueStart, hdigit]
    · rfl
  | text s => exact ⟨34, _, by rw [stringify]; rfl, rfl⟩
  | array vs =>
    cases vs with
    | nil => exact ⟨91, [93], by rw [stringify], rfl⟩
    | cons v vs => exact ⟨91, _, by rw [stringify]; rfl, rfl⟩
  | object ms =>
    cases ms with
    | nil => exact ⟨123, [125], by rw [stringify], rfl⟩
    | cons m ms => exact ⟨123, _, by rw [stringify]; rfl, rfl⟩

theorem followingValues_start (vs : List JsonValue) (rest : Text) :
    ∃ c t, followingValues format vs ++ rest = c :: t ∧ literalUnit c = false ∧ jsonSpace c = false := by
  cases vs with
  | nil => exact ⟨93, rest, by rw [followingValues]; rfl, rfl, rfl⟩
  | cons v vs => exact ⟨44, _, by rw [followingValues]; rfl, rfl, rfl⟩

theorem followingMembers_start (ms : List (Text × JsonValue)) (rest : Text) :
    ∃ c t, followingMembers format ms ++ rest = c :: t ∧ literalUnit c = false ∧ jsonSpace c = false := by
  cases ms with
  | nil => exact ⟨125, rest, by rw [followingMembers]; rfl, rfl, rfl⟩
  | cons m ms => exact ⟨44, _, by rw [followingMembers]; rfl, rfl, rfl⟩

/-- The name of a member is read from its text. -/
theorem startsWithout_followingValues (vs : List JsonValue) (rest : Text) :
    StartsWithout literalUnit (followingValues format vs ++ rest) := by
  obtain ⟨c, t, hnext, hliteral, -⟩ := @followingValues_start format vs rest
  rw [hnext]
  exact startsWithout_cons.mpr hliteral

theorem startsWithout_followingMembers (ms : List (Text × JsonValue)) (rest : Text) :
    StartsWithout literalUnit (followingMembers format ms ++ rest) := by
  obtain ⟨c, t, hnext, hliteral, -⟩ := @followingMembers_start format ms rest
  rw [hnext]
  exact startsWithout_cons.mpr hliteral

theorem readName_quoteText (k rest : Text) : readName (quoteText k ++ 58 :: rest) = some (k, rest) := by
  have hsplit : quoteText k ++ 58 :: rest = 34 :: (quoteUnits k ++ 34 :: (58 :: rest)) := by
    simp [quoteText]
  rw [hsplit, readName, skipSpace_cons rfl]
  simp [readUnits_quoteUnits, skipSpace_cons (show jsonSpace 58 = false from rfl)]

theorem afterWord_of_ne {c d : UInt16} {word t : Text} (h : c ≠ d) :
    afterWord (d :: word) (c :: t) = none := by
  have hne : (d == c) = false := beq_eq_false_iff_ne.mpr (Ne.symm h)
  rw [afterWord, List.isPrefixOf_cons_cons, hne, Bool.false_and, if_neg Bool.false_ne_true]

/-- A text that starts with a digit or a sign is read as a number. -/
theorem parseValue_number {n : ℕ} {c : UInt16} {t : Text} (h : decimalDigit c ∨ c = 45) :
    parseValue (n + 1) (c :: t) = (readNumber (c :: t)).map fun (x, t) => (.number x, t) := by
  have hbounds : 45 ≤ c.toNat ∧ c.toNat ≤ 57 := by
    rcases h with h | rfl
    · simp only [decimalDigit, Bool.and_eq_true, decide_eq_true_eq, UInt16.le_iff_toNat_le,
        UInt16.reduceToNat] at h
      omega
    · decide
  have hne : ∀ d : UInt16, d.toNat < 45 ∨ 57 < d.toNat → c ≠ d := by
    rintro d hd rfl
    omega
  have hspace : jsonSpace c = false := by
    simp [jsonSpace, hne 9 (by decide), hne 10 (by decide), hne 13 (by decide), hne 32 (by decide)]
  rw [parseValue, skipSpace_cons hspace]
  split
  · rename_i heq
    exact absurd (List.cons.inj heq).1 (hne 34 (by decide))
  · rename_i heq
    exact absurd (List.cons.inj heq).1 (hne 91 (by decide))
  · rename_i heq
    exact absurd (List.cons.inj heq).1 (hne 123 (by decide))
  · have hnull : afterWord (ascii "null") (c :: t) = none := afterWord_of_ne (hne 110 (by decide))
    have htrue : afterWord (ascii "true") (c :: t) = none := afterWord_of_ne (hne 116 (by decide))
    have hfalse : afterWord (ascii "false") (c :: t) = none := afterWord_of_ne (hne 102 (by decide))
    rw [hnull, htrue, hfalse]
    rfl

/-! Each production of the grammar, read after its parts. -/

theorem parseValue_array {n : ℕ} {v : JsonValue} {vs : List JsonValue} {c : UInt16} {t t₁ t₂ : Text}
    (hc : valueStart c) (hv : parseValue n (c :: t) = some (v, t₁))
    (hvs : parseValues n t₁ = some (vs, t₂)) :
    parseValue (n + 1) (91 :: c :: t) = some (.array (v :: vs), t₂) := by
  obtain ⟨hspace, hclose, -⟩ := valueStart.spec hc
  rw [parseValue, skipSpace_cons rfl]
  simp only [skipSpace_cons hspace]
  split
  · rename_i heq
    exact absurd (List.cons.inj heq).1 hclose
  · simp [hv, hvs]

theorem parseValue_object {n : ℕ} {k : Text} {v : JsonValue} {ms : List (Text × JsonValue)}
    {t t₀ t₁ t₂ : Text} (hk : readName (34 :: t) = some (k, t₀))
    (hv : parseValue n t₀ = some (v, t₁)) (hms : parseMembers n t₁ = some (ms, t₂)) :
    parseValue (n + 1) (123 :: 34 :: t) =
      some (.object (OrderedMap.lastWins ((k, v) :: ms)), t₂) := by
  rw [parseValue, skipSpace_cons rfl]
  simp [skipSpace_cons (show jsonSpace 34 = false from rfl), hk, hv, hms]

theorem parseValues_cons {n : ℕ} {v : JsonValue} {vs : List JsonValue} {t t₁ t₂ : Text}
    (hv : parseValue n t = some (v, t₁)) (hvs : parseValues n t₁ = some (vs, t₂)) :
    parseValues (n + 1) (44 :: t) = some (v :: vs, t₂) := by
  rw [parseValues, skipSpace_cons rfl]
  simp [hv, hvs]

theorem parseMembers_cons {n : ℕ} {k : Text} {v : JsonValue} {ms : List (Text × JsonValue)}
    {t t₀ t₁ t₂ : Text} (hk : readName t = some (k, t₀)) (hv : parseValue n t₀ = some (v, t₁))
    (hms : parseMembers n t₁ = some (ms, t₂)) :
    parseMembers (n + 1) (44 :: t) = some ((k, v) :: ms, t₂) := by
  rw [parseMembers, skipSpace_cons rfl]
  simp [hk, hv, hms]

theorem keys_unsignedMembers (ms : List (Text × JsonValue)) :
    (JsonValue.unsignedMembers ms).map (·.1) = ms.map (·.1) := by
  induction ms with
  | nil => rfl
  | cons m ms ih => simp [JsonValue.unsignedMembers, ih]

theorem unsignedValues_eq_map (vs : List JsonValue) :
    JsonValue.unsignedValues vs = vs.map JsonValue.unsigned := by
  induction vs with
  | nil => rfl
  | cons v vs ih => rw [JsonValue.unsignedValues, ih, List.map_cons]

theorem lookup_unsignedMembers (ms : List (Text × JsonValue)) (k : Text) :
    OrderedMap.lookup (JsonValue.unsignedMembers ms) k =
      (OrderedMap.lookup ms k).map JsonValue.unsigned := by
  induction ms with
  | nil => rfl
  | cons m ms ih =>
    rw [JsonValue.unsignedMembers, OrderedMap.lookup_cons, OrderedMap.lookup_cons, ih]
    by_cases h : m.1 = k
    · rw [if_pos h, if_pos h, Option.map_some]
    · rw [if_neg h, if_neg h]

mutual

/-- Reading a value inverts writing it, whatever follows that does not continue a literal. -/
theorem parseValue_stringify : ∀ (j : JsonValue) {n : ℕ} {rest : Text}, j.Proper →
    StartsWithout literalUnit rest → (stringify format j ++ rest).length < n →
    parseValue n (stringify format j ++ rest) = some (j.unsigned, rest)
  | .null, n + 1, rest, _, _, _ => by
    rw [stringify]
    rfl
  | .boolean b, n + 1, rest, _, _, _ => by
    rw [stringify]
    cases b <;> rfl
  | .number x, n + 1, rest, hproper, hrest, _ => by
    rw [JsonValue.Proper] at hproper
    rw [stringify, if_pos hproper]
    have hread := readNumber_numberText format hproper hrest
    obtain ⟨c, t, htext, hstart⟩ := exists_numberText_eq format hproper
    rw [htext, List.cons_append] at hread ⊢
    rw [parseValue_number hstart, hread]
    rfl
  | .text s, n + 1, rest, _, _, _ => by
    have hread := readUnits_quoteUnits s rest
    have hsplit : quoteText s ++ rest = 34 :: (quoteUnits s ++ 34 :: rest) := by simp [quoteText]
    rw [stringify, hsplit, parseValue, skipSpace_cons rfl]
    simp [hread, JsonValue.unsigned]
  | .array [], n + 1, rest, _, _, _ => by
    rw [stringify]
    rfl
  | .array (v :: vs), n + 1, rest, hproper, hrest, hfuel => by
    rw [JsonValue.Proper, JsonValue.ProperValues] at hproper
    simp only [stringify, List.cons_append, List.append_assoc, List.length_cons] at hfuel ⊢
    have hfollowing : StartsWithout literalUnit (followingValues format vs ++ rest) :=
      startsWithout_followingValues vs rest
    have hv := parseValue_stringify v (n := n) hproper.1 hfollowing (by omega)
    have hvs := @parseValues_followingValues vs n rest hproper.2 (by
      rw [List.length_append] at hfuel
      omega)
    obtain ⟨c, t, hstart, hc⟩ := @exists_stringify_eq format v hproper.1
    rw [hstart, List.cons_append] at hv ⊢
    rw [parseValue_array hc hv hvs, JsonValue.unsigned, JsonValue.unsignedValues]
  | .object [], n + 1, rest, _, _, _ => by
    rw [stringify]
    rfl
  | .object ((k, v) :: ms), n + 1, rest, hproper, hrest, hfuel => by
    rw [JsonValue.Proper, JsonValue.ProperMembers] at hproper
    simp only [stringify, List.cons_append, List.append_assoc, List.length_cons] at hfuel ⊢
    have hfollowing : StartsWithout literalUnit (followingMembers format ms ++ rest) :=
      startsWithout_followingMembers ms rest
    rw [List.length_append, List.length_cons] at hfuel
    have hv := parseValue_stringify v (n := n) hproper.2.1 hfollowing (by omega)
    have hms := @parseMembers_followingMembers ms n rest hproper.2.2 (by
      rw [List.length_append] at hfuel
      omega)
    have hk := readName_quoteText k (stringify format v ++ (followingMembers format ms ++ rest))
    have hkeys : (((k, v.unsigned) :: JsonValue.unsignedMembers ms).map (·.1)).Nodup := by
      rw [List.map_cons, keys_unsignedMembers]
      exact hproper.1
    rw [quoteText, List.cons_append, List.cons_append] at hk ⊢
    rw [parseValue_object hk hv hms, OrderedMap.lastWins_eq_self hkeys, JsonValue.unsigned,
      JsonValue.unsignedMembers]

theorem parseValues_followingValues : ∀ (vs : List JsonValue) {n : ℕ} {rest : Text},
    JsonValue.ProperValues vs → (followingValues format vs ++ rest).length < n →
    parseValues n (followingValues format vs ++ rest) = some (JsonValue.unsignedValues vs, rest)
  | [], n + 1, rest, _, _ => by
    rw [followingValues]
    rfl
  | v :: vs, n + 1, rest, hproper, hfuel => by
    rw [JsonValue.ProperValues] at hproper
    simp only [followingValues, List.cons_append, List.append_assoc, List.length_cons] at hfuel ⊢
    have hfollowing : StartsWithout literalUnit (followingValues format vs ++ rest) :=
      startsWithout_followingValues vs rest
    have hv := parseValue_stringify v (n := n) hproper.1 hfollowing (by omega)
    have hvs := @parseValues_followingValues vs n rest hproper.2 (by
      rw [List.length_append] at hfuel
      omega)
    rw [parseValues_cons hv hvs, JsonValue.unsignedValues]

theorem parseMembers_followingMembers : ∀ (ms : List (Text × JsonValue)) {n : ℕ} {rest : Text},
    JsonValue.ProperMembers ms → (followingMembers format ms ++ rest).length < n →
    parseMembers n (followingMembers format ms ++ rest) = some (JsonValue.unsignedMembers ms, rest)
  | [], n + 1, rest, _, _ => by
    rw [followingMembers]
    rfl
  | (k, v) :: ms, n + 1, rest, hproper, hfuel => by
    rw [JsonValue.ProperMembers] at hproper
    simp only [followingMembers, List.cons_append, List.append_assoc, List.length_cons] at hfuel ⊢
    have hfollowing : StartsWithout literalUnit (followingMembers format ms ++ rest) :=
      startsWithout_followingMembers ms rest
    rw [List.length_append, List.length_cons] at hfuel
    have hv := parseValue_stringify v (n := n) hproper.1 hfollowing (by omega)
    have hms := @parseMembers_followingMembers ms n rest hproper.2 (by
      rw [List.length_append] at hfuel
      omega)
    have hk := readName_quoteText k (stringify format v ++ (followingMembers format ms ++ rest))
    rw [parseMembers_cons hk hv hms, JsonValue.unsignedMembers]

end

/-- The text of a proper value reads back as that value, with both zeros made one. -/
theorem jsonParse_stringify (format : NumberFormat) {j : JsonValue} (h : j.Proper) :
    jsonParse (stringify format j) = some j.unsigned := by
  have hread := @parseValue_stringify format j ((stringify format j).length + 1) [] h .nil (by simp)
  rw [List.append_nil] at hread
  simp [jsonParse, hread, skipSpace]

end RoundTrip

/-! ## Octets -/

section Octets

variable (format : NumberFormat)

theorem wellFormed_cons {c : UInt16} {t : Text} (hc : c < 0x80) (h : WellFormed t) :
    WellFormed (c :: t) := by
  have hlow : c.toNat < 128 := by rwa [UInt16.lt_iff_toNat_lt] at hc
  obtain ⟨hh, hl⟩ := not_surrogate_of_lt (c := c) (by omega)
  exact .single hh hl h

theorem octetCount_cons {c : UInt16} {t : Text} (hc : c < 0x80) :
    octetCount (c :: t) = 1 + octetCount t := by
  have hlow : c.toNat < 128 := by rwa [UInt16.lt_iff_toNat_lt] at hc
  obtain ⟨hh, hl⟩ := not_surrogate_of_lt (c := c) (by omega)
  rw [octetCount_single hh hl, if_pos hc]

mutual

/-- The text of a value is well formed, whatever its strings are. -/
theorem wellFormed_stringify : ∀ j : JsonValue, WellFormed (stringify format j)
  | .null => by
    rw [stringify]
    exact wellFormed_of_isAscii rfl
  | .boolean b => by
    rw [stringify]
    cases b <;> exact wellFormed_of_isAscii rfl
  | .number n => by
    rw [stringify]
    split
    · exact wellFormed_of_isAscii (isAscii_numberText format n)
    · exact wellFormed_of_isAscii rfl
  | .text t => by
    rw [stringify]
    exact wellFormed_quoteText t
  | .array [] => by
    rw [stringify]
    exact wellFormed_of_isAscii rfl
  | .array (v :: vs) => by
    rw [stringify]
    exact wellFormed_cons (by decide) ((wellFormed_stringify v).append (wellFormed_followingValues vs))
  | .object [] => by
    rw [stringify]
    exact wellFormed_of_isAscii rfl
  | .object ((k, v) :: ms) => by
    rw [stringify]
    apply wellFormed_cons (by decide)
    exact ((wellFormed_quoteText k).append (wellFormed_cons (by decide)
      (wellFormed_stringify v))).append (wellFormed_followingMembers ms)

theorem wellFormed_followingValues : ∀ vs : List JsonValue, WellFormed (followingValues format vs)
  | [] => by
    rw [followingValues]
    exact wellFormed_of_isAscii rfl
  | v :: vs => by
    rw [followingValues]
    exact wellFormed_cons (by decide) ((wellFormed_stringify v).append (wellFormed_followingValues vs))

theorem wellFormed_followingMembers :
    ∀ ms : List (Text × JsonValue), WellFormed (followingMembers format ms)
  | [] => by
    rw [followingMembers]
    exact wellFormed_of_isAscii rfl
  | (k, v) :: ms => by
    rw [followingMembers]
    apply wellFormed_cons (by decide)
    exact ((wellFormed_quoteText k).append (wellFormed_cons (by decide)
      (wellFormed_stringify v))).append (wellFormed_followingMembers ms)

end

/-- The octets of the text of a value. -/
def valueCount (j : JsonValue) : ℕ := octetCount (stringify format j)

theorem octetCount_followingValues (vs : List JsonValue) :
    octetCount (followingValues format vs) = 1 + (vs.map fun v => 1 + valueCount format v).sum := by
  induction vs with
  | nil => rw [followingValues]; rfl
  | cons v vs ih =>
    rw [followingValues, List.cons_append, octetCount_cons (by decide),
      octetCount_append (wellFormed_stringify format v), ih, List.map_cons, List.sum_cons, valueCount]
    omega

theorem octetCount_member (k : Text) (v : JsonValue) (t : Text) :
    octetCount (quoteText k ++ 58 :: stringify format v ++ t) =
      octetCount (quoteText k) + 1 + valueCount format v + octetCount t := by
  rw [List.append_assoc, octetCount_append (wellFormed_quoteText k), List.cons_append,
    octetCount_cons (by decide), octetCount_append (wellFormed_stringify format v), valueCount]
  omega

/-- The octets of a member, without a comma. -/
def memberCount (m : Text × JsonValue) : ℕ := octetCount (quoteText m.1) + 1 + valueCount format m.2

theorem octetCount_followingMembers (ms : List (Text × JsonValue)) :
    octetCount (followingMembers format ms) = 1 + (ms.map fun m => 1 + memberCount format m).sum := by
  induction ms with
  | nil => rw [followingMembers]; rfl
  | cons m ms ih =>
    rw [followingMembers, List.cons_append, List.cons_append, octetCount_cons (by decide),
      octetCount_member, ih, List.map_cons, List.sum_cons, memberCount]
    omega

theorem sum_map_one_add {α : Type} (f : α → ℕ) (l : List α) :
    (l.map fun a => 1 + f a).sum = l.length + (l.map f).sum := by
  induction l with
  | nil => rfl
  | cons a l ih =>
    rw [List.map_cons, List.sum_cons, ih, List.length_cons, List.map_cons, List.sum_cons]
    omega

/-- The octets of an array: its brackets, its elements and the commas between them. -/
theorem valueCount_array (vs : List JsonValue) : valueCount format (.array vs) =
    2 + ((vs.map (valueCount format)).sum + (vs.length - 1)) := by
  cases vs with
  | nil => rw [valueCount, stringify]; rfl
  | cons v vs =>
    rw [valueCount, stringify, List.cons_append, octetCount_cons (by decide),
      octetCount_append (wellFormed_stringify format v), octetCount_followingValues, sum_map_one_add,
      List.map_cons, List.sum_cons, List.length_cons, valueCount]
    omega

/-- The octets of an object: its braces, its members and the commas between them. -/
theorem valueCount_object (ms : List (Text × JsonValue)) : valueCount format (.object ms) =
    2 + ((ms.map (memberCount format)).sum + (ms.length - 1)) := by
  cases ms with
  | nil => rw [valueCount, stringify]; rfl
  | cons m ms =>
    rw [valueCount, stringify, List.cons_append, List.cons_append, octetCount_cons (by decide),
      octetCount_member, octetCount_followingMembers, sum_map_one_add,
      List.map_cons, List.sum_cons, List.length_cons, memberCount]
    omega

/-- Every value takes at least one octet. -/
theorem valueCount_pos (j : JsonValue) : 0 < valueCount format j := by
  cases j with
  | null => rw [valueCount, stringify]; decide
  | boolean b => rw [valueCount, stringify]; cases b <;> decide
  | number n =>
    rw [valueCount, stringify]
    split
    · rename_i hn
      obtain ⟨c, t, htext, -⟩ := exists_numberText_eq format hn
      rw [octetCount_of_isAscii (isAscii_numberText format n), htext]
      simp
    · decide
  | text t => rw [valueCount, stringify, octetCount_quoteText]; omega
  | array vs => rw [valueCount_array]; omega
  | object ms => rw [valueCount_object]; omega

/-- The order of its elements does not change the octets of an array. -/
theorem valueCount_array_perm {vs vs' : List JsonValue} (h : vs.Perm vs') :
    valueCount format (.array vs) = valueCount format (.array vs') := by
  rw [valueCount_array, valueCount_array, (h.map (valueCount format)).sum_eq, h.length_eq]

/-- A member whose value takes the same octets may replace another. -/
theorem valueCount_object_set {ms : List (Text × JsonValue)} {k : Text} {v v' : JsonValue}
    (hlookup : OrderedMap.lookup ms k = some v) (h : valueCount format v = valueCount format v') :
    valueCount format (.object (OrderedMap.set ms k v')) = valueCount format (.object ms) := by
  suffices hmembers : (OrderedMap.set ms k v').map (memberCount format) = ms.map (memberCount format) by
    have hlength := congrArg List.length hmembers
    rw [List.length_map, List.length_map] at hlength
    rw [valueCount_object, valueCount_object, hmembers, hlength]
  induction ms with
  | nil => cases hlookup
  | cons m ms ih =>
    obtain ⟨k', w⟩ := m
    rw [OrderedMap.lookup_cons] at hlookup
    rw [OrderedMap.set]
    by_cases hk : k' = k
    · rw [if_pos hk] at hlookup ⊢
      obtain rfl := Option.some.inj hlookup
      rw [List.map_cons, List.map_cons, memberCount, memberCount, hk, h]
    · rw [if_neg hk] at hlookup ⊢
      rw [List.map_cons, List.map_cons, ih hlookup]

end Octets

end Commons
