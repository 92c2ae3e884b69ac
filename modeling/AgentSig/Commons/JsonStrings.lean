import AgentSig.Commons.Json
import AgentSig.Commons.Unicode

/-!
# JSON strings of arbitrary texts

The JSON text of any sequence of UTF-16 units, as a well-formed `JSON.stringify` writes it: a pair
of surrogates as it is, a lone surrogate as an escape of six units, and every other unit as
`Json.escapeUnit` does. The reader takes every escape of the grammar, so what is written reads
back. The text is well formed whatever the string was, and its octets are counted unit by unit.

## Main definitions

* `quoteText t`: the JSON string of a text
* `readUnits`: the string whose opening quotation mark has been read
* `unitCount c`: the octets of a unit that belongs to no pair of surrogates

## Main results

* `readUnits_quoteUnits`: reading inverts writing
* `wellFormed_quoteText`: the text of a string is well formed
* `octetCount_quoteText`: the octets of the text of a string
-/

namespace Commons

/-- The escape of a unit by its four hexadecimal digits. -/
def unicodeEscape (c : UInt16) : Text :=
  [92, 117, Json.hexDigit (c.toNat / 4096), Json.hexDigit (c.toNat / 256 % 16),
    Json.hexDigit (c.toNat / 16 % 16), Json.hexDigit (c.toNat % 16)]

/-- The text of a unit that belongs to no pair of surrogates. -/
def quoteUnit (c : UInt16) : Text :=
  if highSurrogate c || lowSurrogate c then unicodeEscape c else Json.escapeUnit c

/-- The text of the units of a string. -/
def quoteUnits : Text → Text
  | high :: low :: rest =>
    if highSurrogate high && lowSurrogate low then high :: low :: quoteUnits rest
    else quoteUnit high ++ quoteUnits (low :: rest)
  | [c] => quoteUnit c
  | [] => []

/-- The JSON string of a text. -/
def quoteText (t : Text) : Text := 34 :: quoteUnits t ++ [34]

/-- The value of a hexadecimal digit. -/
def readHexDigit (c : UInt16) : Option ℕ :=
  if 48 ≤ c && c ≤ 57 then some (c.toNat - 48)
  else if 97 ≤ c && c ≤ 102 then some (c.toNat - 87)
  else if 65 ≤ c && c ≤ 70 then some (c.toNat - 55)
  else none

/-- The unit of an escape of two units. -/
def unescape (letter : UInt16) : Option UInt16 :=
  ((47, 47) :: Json.shortEscapes.map Prod.swap).lookup letter

/-- The units of a string up to its closing quotation mark, and what follows it. -/
def readUnits : Text → Option (Text × Text)
  | 34 :: rest => some ([], rest)
  | 92 :: 117 :: a :: b :: c :: d :: rest => do
    let a ← readHexDigit a
    let b ← readHexDigit b
    let c ← readHexDigit c
    let d ← readHexDigit d
    let (t, rest) ← readUnits rest
    return (.ofNat (((a * 16 + b) * 16 + c) * 16 + d) :: t, rest)
  | 92 :: letter :: rest => do
    let c ← unescape letter
    let (t, rest) ← readUnits rest
    return (c :: t, rest)
  | c :: rest =>
    if c < 32 || c == 92 then none
    else do
      let (t, rest) ← readUnits rest
      return (c :: t, rest)
  | [] => none

/-! ## Reading what is written -/

theorem quoteUnits_pair {high low : UInt16} {t : Text} (hh : highSurrogate high)
    (hl : lowSurrogate low) : quoteUnits (high :: low :: t) = high :: low :: quoteUnits t := by
  simp [quoteUnits, hh, hl]

theorem readHexDigit_hexDigit {n : ℕ} (h : n < 16) : readHexDigit (Json.hexDigit n) = some n := by
  interval_cases n <;> rfl

/-- The unit is read from its text, before the rest of the string. -/
def ReadsUnit (c : UInt16) (written : Text) : Prop :=
  ∀ rest, readUnits (written ++ rest) = (readUnits rest).map fun p => (c :: p.1, p.2)

theorem readsUnit_unicodeEscape (c : UInt16) : ReadsUnit c (unicodeEscape c) := by
  intro rest
  have hc := c.toNat_lt
  have hvalue : UInt16.ofNat (((c.toNat / 4096 * 16 + c.toNat / 256 % 16) * 16 +
      c.toNat / 16 % 16) * 16 + c.toNat % 16) = c := by
    have hsum : ((c.toNat / 4096 * 16 + c.toNat / 256 % 16) * 16 + c.toNat / 16 % 16) * 16 +
        c.toNat % 16 = c.toNat := by omega
    rw [hsum, UInt16.ofNat_toNat]
  have h₁ := readHexDigit_hexDigit (n := c.toNat / 4096) (by omega)
  have h₂ := readHexDigit_hexDigit (n := c.toNat / 256 % 16) (by omega)
  have h₃ := readHexDigit_hexDigit (n := c.toNat / 16 % 16) (by omega)
  have h₄ := readHexDigit_hexDigit (n := c.toNat % 16) (by omega)
  simp only [unicodeEscape, List.cons_append, List.nil_append, readUnits, h₁, h₂, h₃, h₄,
    Option.bind_eq_bind, Option.bind_some, hvalue]
  cases readUnits rest <;> rfl

/-- A unit that ends no string and starts no escape is read as itself. -/
theorem readsUnit_plain {c : UInt16} (h32 : ¬ c < 32) (h34 : c ≠ 34) (h92 : c ≠ 92) :
    ReadsUnit c [c] := by
  intro rest
  rw [List.singleton_append]
  conv_lhs => unfold readUnits
  split
  · rename_i heq
    exact absurd (List.cons.inj heq).1 h34
  · rename_i heq
    exact absurd (List.cons.inj heq).1 h92
  · rename_i heq
    exact absurd (List.cons.inj heq).1 h92
  · rename_i heq
    obtain ⟨rfl, rfl⟩ := List.cons.inj heq
    rw [if_neg (by simp [h32, h92])]
    cases readUnits rest <;> rfl
  · rename_i heq
    cases heq

theorem readsUnit_short {c letter : UInt16} (h : unescape letter = some c) (hne : letter ≠ 117) :
    ReadsUnit c [92, letter] := by
  intro rest
  rw [List.cons_append, List.singleton_append]
  conv_lhs => unfold readUnits
  split
  · rename_i heq
    exact absurd (List.cons.inj heq).1 (by decide)
  · rename_i heq
    exact absurd (List.cons.inj (List.cons.inj heq).2).1 hne
  · rename_i heq
    obtain ⟨rfl, rfl⟩ := List.cons.inj (List.cons.inj heq).2
    rw [h]
    cases readUnits rest <;> rfl
  · rename_i hshort heq
    obtain ⟨rfl, rfl⟩ := List.cons.inj heq
    exact absurd rfl (hshort letter rest rfl)
  · rename_i heq
    cases heq

/-- An escaped unit has an escape of two units, or the one of its digits. -/
theorem escapeUnit_of_low {c : UInt16} (h : c.toNat < 32) :
    Json.escapeUnit c = unicodeEscape c ∨
      ∃ letter, Json.escapeUnit c = [92, letter] ∧ unescape letter = some c ∧ letter ≠ 117 := by
  obtain ⟨n, hn, rfl⟩ : ∃ n, n < 32 ∧ c = UInt16.ofNat n := ⟨c.toNat, h, by simp⟩
  interval_cases n
  case «8» => exact .inr ⟨98, rfl, rfl, by decide⟩
  case «9» => exact .inr ⟨116, rfl, rfl, by decide⟩
  case «10» => exact .inr ⟨110, rfl, rfl, by decide⟩
  case «12» => exact .inr ⟨102, rfl, rfl, by decide⟩
  case «13» => exact .inr ⟨114, rfl, rfl, by decide⟩
  all_goals exact .inl rfl

theorem readsUnit_escapeUnit (c : UInt16) : ReadsUnit c (Json.escapeUnit c) := by
  by_cases hlow : c.toNat < 32
  · rcases escapeUnit_of_low hlow with h | ⟨letter, h, hletter, hne⟩
    · rw [h]
      exact readsUnit_unicodeEscape c
    · rw [h]
      exact readsUnit_short hletter hne
  · rcases Json.escapeUnit_cases c with h | rfl | rfl | ⟨hplain, h34, h92⟩
    · exact absurd h hlow
    · exact @readsUnit_short _ 34 rfl (by decide)
    · exact @readsUnit_short _ 92 rfl (by decide)
    · rw [hplain]
      refine readsUnit_plain ?_ h34 h92
      rwa [UInt16.lt_iff_toNat_lt]

theorem readsUnit_quoteUnit (c : UInt16) : ReadsUnit c (quoteUnit c) := by
  rw [quoteUnit]
  split
  · exact readsUnit_unicodeEscape c
  · exact readsUnit_escapeUnit c

theorem surrogate_bounds {c : UInt16} (h : highSurrogate c || lowSurrogate c) :
    0xd800 ≤ c.toNat ∧ c.toNat ≤ 0xdfff := by
  rw [Bool.or_eq_true, highSurrogate_iff, lowSurrogate_iff] at h
  omega

theorem readsUnit_surrogate {c : UInt16} (h : highSurrogate c || lowSurrogate c) :
    ReadsUnit c [c] := by
  have hbounds := surrogate_bounds h
  apply readsUnit_plain
  · simp only [UInt16.lt_iff_toNat_lt, UInt16.reduceToNat]
    omega
  · rintro rfl
    revert hbounds
    decide
  · rintro rfl
    revert hbounds
    decide

/-- Reading a string inverts writing it, whatever follows the closing quotation mark. -/
theorem readUnits_quoteUnits (t rest : Text) : readUnits (quoteUnits t ++ 34 :: rest) = some (t, rest) := by
  fun_induction quoteUnits t with
  | case1 high low t hpair ih =>
    obtain ⟨hh, hl⟩ := Bool.and_eq_true_iff.mp hpair
    have hhigh := readsUnit_surrogate (c := high) (by simp [hh])
    have hlow := readsUnit_surrogate (c := low) (by simp [hl])
    rw [List.cons_append, List.cons_append, ← List.singleton_append, hhigh,
      ← List.singleton_append (x := low), hlow, ih]
    rfl
  | case2 high low t hpair ih =>
    rw [List.append_assoc, readsUnit_quoteUnit, ih]
    rfl
  | case3 c =>
    rw [readsUnit_quoteUnit]
    rfl
  | case4 => rfl

/-! ## Octets -/

theorem isAscii_unicodeEscape (c : UInt16) : isAscii (unicodeEscape c) := by
  have hc := c.toNat_lt
  have hdigit : ∀ n < 16, Json.hexDigit n ≤ 127 := by decide
  simp [unicodeEscape, isAscii, hdigit (c.toNat / 4096) (by omega),
    hdigit (c.toNat / 256 % 16) (by omega), hdigit (c.toNat / 16 % 16) (by omega),
    hdigit (c.toNat % 16) (by omega)]

/-- The octets of the text of a unit that belongs to no pair of surrogates. -/
def unitCount (c : UInt16) : ℕ :=
  if c = 34 ∨ c = 92 ∨ c = 8 ∨ c = 9 ∨ c = 10 ∨ c = 12 ∨ c = 13 then 2
  else if c < 32 then 6
  else if highSurrogate c || lowSurrogate c then 6
  else if c < 128 then 1
  else if c < 2048 then 2
  else 3

/-- A unit that is written as itself takes the octets of its character. -/
theorem octetCount_plain {c : UInt16} (hlow : ¬ c.toNat < 32) (h34 : c ≠ 34) (h92 : c ≠ 92)
    (hh : highSurrogate c = false) (hl : lowSurrogate c = false) : octetCount [c] = unitCount c := by
  have hshort : ¬ (c = 34 ∨ c = 92 ∨ c = 8 ∨ c = 9 ∨ c = 10 ∨ c = 12 ∨ c = 13) := by
    rintro (rfl | rfl | rfl | rfl | rfl | rfl | rfl)
    · exact h34 rfl
    · exact h92 rfl
    all_goals exact hlow (by decide)
  have hcontrol : ¬ c < 32 := by
    rwa [UInt16.lt_iff_toNat_lt]
  have hsurrogate : ¬ (highSurrogate c || lowSurrogate c) := by simp [hh, hl]
  rw [octetCount_single hh hl, unitCount, if_neg hshort, if_neg hcontrol, if_neg hsurrogate]
  rfl

/-- The text of a unit is well formed, and its octets are counted. -/
theorem quoteUnit_spec (c : UInt16) :
    WellFormed (quoteUnit c) ∧ octetCount (quoteUnit c) = unitCount c := by
  rw [quoteUnit]
  split
  · rename_i hsurrogate
    have hbounds := surrogate_bounds hsurrogate
    have hshort : ¬ (c = 34 ∨ c = 92 ∨ c = 8 ∨ c = 9 ∨ c = 10 ∨ c = 12 ∨ c = 13) := by
      rintro (rfl | rfl | rfl | rfl | rfl | rfl | rfl) <;> revert hbounds <;> decide
    have hlow : ¬ c < 32 := by
      simp only [UInt16.lt_iff_toNat_lt, UInt16.reduceToNat]
      omega
    have hascii := isAscii_unicodeEscape c
    refine ⟨wellFormed_of_isAscii hascii, ?_⟩
    rw [octetCount_of_isAscii hascii, unitCount, if_neg hshort, if_neg hlow, if_pos hsurrogate]
    rfl
  · rename_i hsurrogate
    by_cases hlow : c.toNat < 32
    · have hascii : isAscii (Json.escapeUnit c) := by
        apply Json.isAscii_escapeUnit
        simp only [UInt16.le_iff_toNat_le, UInt16.reduceToNat]
        omega
      refine ⟨wellFormed_of_isAscii hascii, ?_⟩
      rw [octetCount_of_isAscii hascii]
      obtain ⟨n, hn, rfl⟩ : ∃ n, n < 32 ∧ c = UInt16.ofNat n := ⟨c.toNat, hlow, by simp⟩
      interval_cases n <;> rfl
    · rcases Json.escapeUnit_cases c with h | rfl | rfl | ⟨hplain, h34, h92⟩
      · exact absurd h hlow
      · exact ⟨wellFormed_of_isAscii rfl, rfl⟩
      · exact ⟨wellFormed_of_isAscii rfl, rfl⟩
      · obtain ⟨hh, hl⟩ := Bool.or_eq_false_iff.mp (Bool.not_eq_true _ ▸ hsurrogate)
        rw [hplain]
        exact ⟨.single hh hl .nil, octetCount_plain hlow h34 h92 hh hl⟩

theorem wellFormed_quoteUnits (t : Text) : WellFormed (quoteUnits t) := by
  fun_induction quoteUnits t with
  | case1 high low t hpair ih =>
    obtain ⟨hh, hl⟩ := Bool.and_eq_true_iff.mp hpair
    exact .pair hh hl ih
  | case2 high low t hpair ih => exact (quoteUnit_spec high).1.append ih
  | case3 c => exact (quoteUnit_spec c).1
  | case4 => exact .nil

/-- The text of a string is well formed, whatever the string is. -/
theorem wellFormed_quoteText (t : Text) : WellFormed (quoteText t) := by
  have hmark : WellFormed [34] := wellFormed_of_isAscii rfl
  exact (hmark.append (wellFormed_quoteUnits t)).append hmark

theorem octetCount_quoteText (t : Text) : octetCount (quoteText t) = octetCount (quoteUnits t) + 2 := by
  have hmark : WellFormed [34] := wellFormed_of_isAscii rfl
  have hsplit : quoteText t = [34] ++ (quoteUnits t ++ [34]) := rfl
  rw [hsplit, octetCount_append hmark, octetCount_append (wellFormed_quoteUnits t)]
  have hone : octetCount [34] = 1 := rfl
  omega

theorem quoteUnits_cons {c : UInt16} {t : Text}
    (h : ∀ d ∈ t.head?, (highSurrogate c && lowSurrogate d) = false) :
    quoteUnits (c :: t) = quoteUnit c ++ quoteUnits t := by
  cases t with
  | nil => simp [quoteUnits]
  | cons d t => simp [quoteUnits, h d rfl]

theorem octetCount_quoteUnits_pair {high low : UInt16} {t : Text} (hh : highSurrogate high)
    (hl : lowSurrogate low) :
    octetCount (quoteUnits (high :: low :: t)) = 4 + octetCount (quoteUnits t) := by
  rw [quoteUnits_pair hh hl, octetCount_pair hh hl]

theorem octetCount_quoteUnits_cons {c : UInt16} {t : Text}
    (h : ∀ d ∈ t.head?, (highSurrogate c && lowSurrogate d) = false) :
    octetCount (quoteUnits (c :: t)) = unitCount c + octetCount (quoteUnits t) := by
  rw [quoteUnits_cons h, octetCount_append (quoteUnit_spec c).1, (quoteUnit_spec c).2]

/-- The text of a string has at least an octet for each unit. -/
theorem length_le_octetCount_quoteUnits (t : Text) : t.length ≤ octetCount (quoteUnits t) := by
  have hunit : ∀ c, 1 ≤ unitCount c := by
    intro c
    unfold unitCount
    split_ifs <;> omega
  fun_induction quoteUnits t with
  | case1 high low t hpair ih =>
    obtain ⟨hh, hl⟩ := Bool.and_eq_true_iff.mp hpair
    rw [octetCount_pair hh hl, List.length_cons, List.length_cons]
    omega
  | case2 high low t hpair ih =>
    have := hunit high
    rw [octetCount_append (quoteUnit_spec high).1, (quoteUnit_spec high).2, List.length_cons]
    omega
  | case3 c =>
    rw [(quoteUnit_spec c).2]
    exact hunit c
  | case4 => exact le_rfl

end Commons
