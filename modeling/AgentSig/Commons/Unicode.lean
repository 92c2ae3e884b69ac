import AgentSig.Commons.Text

/-!
# UTF-16 and UTF-8

The characters of a text and their UTF-8 octets. A text is well formed when its surrogates
come in pairs; `characters` replaces a lone surrogate by U+FFFD, as an encoder of UTF-16
strings does.

## Main definitions

* `characters t`: the characters of a text
* `WellFormed t`: no surrogate of `t` is alone
* `units cs`: the text of some characters
* `utf8Encode`, `utf8Decode`: characters and UTF-8 octets
* `octetCount t`: the number of UTF-8 octets of a text

## Main results

* `units_characters`: a well-formed text is the text of its characters
* `characters_units`: the characters of a text of characters
* `utf8Decode_utf8Encode`, `utf8Encode_of_utf8Decode`: decoding inverts encoding, and
  encoding inverts decoding
* `octetCount_append`: the octets of a well-formed text do not depend on what follows
-/

namespace Commons

/-- The first unit of a surrogate pair. -/
def highSurrogate (c : UInt16) : Bool := 0xd800 ≤ c && c ≤ 0xdbff

/-- The second unit of a surrogate pair. -/
def lowSurrogate (c : UInt16) : Bool := 0xdc00 ≤ c && c ≤ 0xdfff

theorem highSurrogate_iff {c : UInt16} :
    highSurrogate c ↔ 0xd800 ≤ c.toNat ∧ c.toNat ≤ 0xdbff := by
  simp only [highSurrogate, Bool.and_eq_true, decide_eq_true_eq, UInt16.le_iff_toNat_le]
  exact Iff.rfl

theorem lowSurrogate_iff {c : UInt16} :
    lowSurrogate c ↔ 0xdc00 ≤ c.toNat ∧ c.toNat ≤ 0xdfff := by
  simp only [lowSurrogate, Bool.and_eq_true, decide_eq_true_eq, UInt16.le_iff_toNat_le]
  exact Iff.rfl

/-- The character of a surrogate pair. -/
def pairCharacter (high low : UInt16) : Char :=
  .ofNat (0x10000 + (high.toNat - 0xd800) * 0x400 + (low.toNat - 0xdc00))

/-- The characters of a text; a lone surrogate counts as U+FFFD. -/
def characters : Text → List Char
  | high :: low :: rest =>
    if highSurrogate high && lowSurrogate low then pairCharacter high low :: characters rest
    else if highSurrogate high || lowSurrogate high then '\uFFFD' :: characters (low :: rest)
    else .ofNat high.toNat :: characters (low :: rest)
  | [c] => if highSurrogate c || lowSurrogate c then ['\uFFFD'] else [.ofNat c.toNat]
  | [] => []

/-- Every surrogate of the text belongs to a pair. -/
inductive WellFormed : Text → Prop
  | nil : WellFormed []
  | pair {high low : UInt16} {rest : Text} : highSurrogate high → lowSurrogate low →
      WellFormed rest → WellFormed (high :: low :: rest)
  | single {c : UInt16} {rest : Text} : highSurrogate c = false → lowSurrogate c = false →
      WellFormed rest → WellFormed (c :: rest)

/-- The code units of a character. -/
def characterUnits (c : Char) : Text :=
  if c.toNat < 0x10000 then [.ofNat c.toNat]
  else [.ofNat (0xd800 + (c.toNat - 0x10000) / 0x400), .ofNat (0xdc00 + (c.toNat - 0x10000) % 0x400)]

/-- The text of some characters. -/
def units (cs : List Char) : Text := cs.flatMap characterUnits

theorem characters_pair {high low : UInt16} {rest : Text} (hh : highSurrogate high)
    (hl : lowSurrogate low) :
    characters (high :: low :: rest) = pairCharacter high low :: characters rest := by
  simp [characters, hh, hl]

theorem characters_single {c : UInt16} {rest : Text} (hh : highSurrogate c = false)
    (hl : lowSurrogate c = false) :
    characters (c :: rest) = .ofNat c.toNat :: characters rest := by
  cases rest <;> simp [characters, hh, hl]

theorem toNat_ofNat_of_valid {n : ℕ} (h : n.isValidChar) : (Char.ofNat n).toNat = n := by
  rw [Char.ofNat, dif_pos h]
  rfl

theorem toNat_pairCharacter {high low : UInt16} (hh : highSurrogate high)
    (hl : lowSurrogate low) : (pairCharacter high low).toNat =
      0x10000 + (high.toNat - 0xd800) * 0x400 + (low.toNat - 0xdc00) := by
  rw [highSurrogate_iff] at hh
  rw [lowSurrogate_iff] at hl
  exact toNat_ofNat_of_valid (Or.inr ⟨by omega, by omega⟩)

theorem characterUnits_pairCharacter {high low : UInt16} (hh : highSurrogate high)
    (hl : lowSurrogate low) : characterUnits (pairCharacter high low) = [high, low] := by
  have hn := toNat_pairCharacter hh hl
  rw [highSurrogate_iff] at hh
  rw [lowSurrogate_iff] at hl
  rw [characterUnits, if_neg (by omega), hn]
  have e₁ : 0xd800 + (0x10000 + (high.toNat - 0xd800) * 0x400 + (low.toNat - 0xdc00) - 0x10000) /
      0x400 = high.toNat := by omega
  have e₂ : 0xdc00 + (0x10000 + (high.toNat - 0xd800) * 0x400 + (low.toNat - 0xdc00) - 0x10000) %
      0x400 = low.toNat := by omega
  rw [e₁, e₂, UInt16.ofNat_toNat, UInt16.ofNat_toNat]

theorem toNat_single {c : UInt16} (hh : highSurrogate c = false) (hl : lowSurrogate c = false) :
    (Char.ofNat c.toNat).toNat = c.toNat := by
  have hc := c.toNat_lt
  rw [Bool.eq_false_iff, ne_eq, highSurrogate_iff] at hh
  rw [Bool.eq_false_iff, ne_eq, lowSurrogate_iff] at hl
  refine toNat_ofNat_of_valid ?_
  rw [Nat.isValidChar]
  omega

/-- A well-formed text is the text of its characters. -/
theorem units_characters {t : Text} (h : WellFormed t) : units (characters t) = t := by
  induction h with
  | nil => rfl
  | pair hh hl _ ih =>
    rw [characters_pair hh hl, units, List.flatMap_cons, ← units, ih,
      characterUnits_pairCharacter hh hl]
    rfl
  | @single c rest hh hl _ ih =>
    rw [characters_single hh hl, units, List.flatMap_cons, ← units, ih, characterUnits,
      toNat_single hh hl, if_pos c.toNat_lt, UInt16.ofNat_toNat]
    rfl

theorem characters_characterUnits (c : Char) (rest : Text) :
    characters (characterUnits c ++ rest) = c :: characters rest := by
  have hvalid : c.toNat < 0xd800 ∨ 0xdfff < c.toNat ∧ c.toNat < 0x110000 := c.valid
  by_cases h : c.toNat < 0x10000
  · have hn : (UInt16.ofNat c.toNat).toNat = c.toNat := by
      rw [UInt16.toNat_ofNat', Nat.mod_eq_of_lt h]
    rw [characterUnits, if_pos h, List.singleton_append, characters_single, hn, Char.ofNat_toNat]
    · rw [Bool.eq_false_iff, ne_eq, highSurrogate_iff, hn]
      omega
    · rw [Bool.eq_false_iff, ne_eq, lowSurrogate_iff, hn]
      omega
  · have h₁ : (UInt16.ofNat (0xd800 + (c.toNat - 0x10000) / 0x400)).toNat =
        0xd800 + (c.toNat - 0x10000) / 0x400 := by
      rw [UInt16.toNat_ofNat', Nat.mod_eq_of_lt (by omega)]
    have h₂ : (UInt16.ofNat (0xdc00 + (c.toNat - 0x10000) % 0x400)).toNat =
        0xdc00 + (c.toNat - 0x10000) % 0x400 := by
      rw [UInt16.toNat_ofNat', Nat.mod_eq_of_lt (by omega)]
    have hc : 0x10000 + (0xd800 + (c.toNat - 0x10000) / 0x400 - 0xd800) * 0x400 +
        (0xdc00 + (c.toNat - 0x10000) % 0x400 - 0xdc00) = c.toNat := by
      omega
    rw [characterUnits, if_neg h, List.cons_append, List.singleton_append, characters_pair,
      pairCharacter, h₁, h₂, hc, Char.ofNat_toNat]
    · rw [highSurrogate_iff, h₁]
      omega
    · rw [lowSurrogate_iff, h₂]
      omega

/-- The characters of a text of characters are those characters. -/
theorem characters_units (cs : List Char) : characters (units cs) = cs := by
  induction cs with
  | nil => rfl
  | cons c cs ih => rw [units, List.flatMap_cons, ← units, characters_characterUnits, ih]

theorem wellFormed_characterUnits (c : Char) {rest : Text} (h : WellFormed rest) :
    WellFormed (characterUnits c ++ rest) := by
  have hvalid : c.toNat < 0xd800 ∨ 0xdfff < c.toNat ∧ c.toNat < 0x110000 := c.valid
  by_cases hc : c.toNat < 0x10000
  · have hn : (UInt16.ofNat c.toNat).toNat = c.toNat := by
      rw [UInt16.toNat_ofNat', Nat.mod_eq_of_lt hc]
    rw [characterUnits, if_pos hc]
    refine .single ?_ ?_ h
    · rw [Bool.eq_false_iff, ne_eq, highSurrogate_iff, hn]
      omega
    · rw [Bool.eq_false_iff, ne_eq, lowSurrogate_iff, hn]
      omega
  · rw [characterUnits, if_neg hc]
    refine .pair ?_ ?_ h
    · rw [highSurrogate_iff, UInt16.toNat_ofNat', Nat.mod_eq_of_lt (by omega)]
      omega
    · rw [lowSurrogate_iff, UInt16.toNat_ofNat', Nat.mod_eq_of_lt (by omega)]
      omega

/-- A text of characters is well formed. -/
theorem wellFormed_units (cs : List Char) : WellFormed (units cs) := by
  induction cs with
  | nil => exact .nil
  | cons c cs ih =>
    rw [units, List.flatMap_cons]
    exact wellFormed_characterUnits c ih

/-! ## UTF-8 -/

/-- The UTF-8 octets of some characters. -/
def utf8Encode (cs : List Char) : List UInt8 := cs.flatMap String.utf8EncodeChar

/-- The characters of UTF-8 octets, or none if the octets are not valid UTF-8. -/
def utf8Decode (bs : List UInt8) : Option (List Char) :=
  bs.toByteArray.utf8Decode?.map Array.toList

/-- Decoding inverts encoding. -/
theorem utf8Decode_utf8Encode (cs : List Char) : utf8Decode (utf8Encode cs) = some cs := by
  have h := List.utf8Decode?_utf8Encode (l := cs)
  rw [List.utf8Encode] at h
  simp [utf8Decode, utf8Encode, h]

/-- Encoding inverts decoding. -/
theorem utf8Encode_of_utf8Decode {bs : List UInt8} {cs : List Char} (h : utf8Decode bs = some cs) :
    utf8Encode cs = bs := by
  obtain ⟨a, ha, rfl⟩ := Option.map_eq_some_iff.mp h
  have hsome : bs.toByteArray.utf8Decode?.isSome := by simp [ha]
  have h := ByteArray.utf8Encode_get_utf8Decode? (b := bs.toByteArray) (h := hsome)
  simp only [ha, Option.get_some] at h
  rw [List.utf8Encode] at h
  exact List.toByteArray_inj.mp h

theorem length_utf8Encode_cons (c : Char) (cs : List Char) :
    (utf8Encode (c :: cs)).length = c.utf8Size + (utf8Encode cs).length := by
  simp [utf8Encode, String.length_utf8EncodeChar]

/-! ## Lengths in octets -/

/-- The number of UTF-8 octets of a text; a lone surrogate counts as U+FFFD. -/
def octetCount (t : Text) : ℕ := (utf8Encode (characters t)).length

theorem utf8Size_eq (c : Char) : c.utf8Size =
    if c.toNat ≤ 127 then 1 else if c.toNat ≤ 2047 then 2 else if c.toNat ≤ 65535 then 3 else 4 := by
  simp only [Char.utf8Size, UInt32.le_iff_toNat_le]
  rfl

@[simp] theorem octetCount_nil : octetCount [] = 0 := rfl

theorem octetCount_pair {high low : UInt16} {t : Text} (hh : highSurrogate high)
    (hl : lowSurrogate low) : octetCount (high :: low :: t) = 4 + octetCount t := by
  rw [octetCount, characters_pair hh hl, length_utf8Encode_cons, ← octetCount, utf8Size_eq,
    toNat_pairCharacter hh hl, if_neg (by omega), if_neg (by omega), if_neg (by omega)]

theorem octetCount_single {c : UInt16} {t : Text} (hh : highSurrogate c = false)
    (hl : lowSurrogate c = false) : octetCount (c :: t) =
      (if c < 0x80 then 1 else if c < 0x800 then 2 else 3) + octetCount t := by
  have hc := c.toNat_lt
  have h₁ : c < 0x80 ↔ c.toNat ≤ 127 := by
    rw [UInt16.lt_iff_toNat_lt]
    exact Nat.lt_succ_iff
  have h₂ : c < 0x800 ↔ c.toNat ≤ 2047 := by
    rw [UInt16.lt_iff_toNat_lt]
    exact Nat.lt_succ_iff
  rw [octetCount, characters_single hh hl, length_utf8Encode_cons, ← octetCount, utf8Size_eq,
    toNat_single hh hl]
  simp only [h₁, h₂, if_pos (show c.toNat ≤ 65535 by omega)]

/-- The octets of a well-formed text do not depend on what follows it. -/
theorem octetCount_append {s t : Text} (h : WellFormed s) :
    octetCount (s ++ t) = octetCount s + octetCount t := by
  induction h with
  | nil => simp
  | pair hh hl _ ih =>
    rw [List.cons_append, List.cons_append, octetCount_pair hh hl, octetCount_pair hh hl, ih,
      Nat.add_assoc]
  | single hh hl _ ih =>
    rw [List.cons_append, octetCount_single hh hl, octetCount_single hh hl, ih, Nat.add_assoc]

theorem WellFormed.append {s t : Text} (hs : WellFormed s) (ht : WellFormed t) :
    WellFormed (s ++ t) := by
  induction hs with
  | nil => exact ht
  | pair hh hl _ ih => exact .pair hh hl ih
  | single hh hl _ ih => exact .single hh hl ih

theorem not_surrogate_of_lt {c : UInt16} (h : c.toNat < 0xd800) :
    highSurrogate c = false ∧ lowSurrogate c = false := by
  rw [Bool.eq_false_iff, Bool.eq_false_iff, ne_eq, ne_eq, highSurrogate_iff, lowSurrogate_iff]
  omega

theorem toNat_lt_of_isAscii {t : Text} (h : isAscii t) : ∀ c ∈ t, c.toNat < 128 := by
  intro c hc
  have := List.all_eq_true.mp h c hc
  simp only [decide_eq_true_eq, UInt16.le_iff_toNat_le, UInt16.reduceToNat] at this
  omega

theorem wellFormed_of_isAscii {t : Text} (h : isAscii t) : WellFormed t := by
  have hlow := toNat_lt_of_isAscii h
  induction t with
  | nil => exact .nil
  | cons c t ih =>
    obtain ⟨hc, ht⟩ := List.forall_mem_cons.mp hlow
    obtain ⟨hh, hl⟩ := not_surrogate_of_lt (c := c) (by omega)
    simp only [isAscii, List.all_cons, Bool.and_eq_true] at h
    exact .single hh hl (ih h.2 ht)

/-- An ASCII text has an octet for each unit. -/
theorem octetCount_of_isAscii {t : Text} (h : isAscii t) : octetCount t = t.length := by
  have hlow := toNat_lt_of_isAscii h
  induction t with
  | nil => rfl
  | cons c t ih =>
    obtain ⟨hc, ht⟩ := List.forall_mem_cons.mp hlow
    obtain ⟨hh, hl⟩ := not_surrogate_of_lt (c := c) (by omega)
    have hascii : c < 0x80 := by
      rw [UInt16.lt_iff_toNat_lt]
      exact hc
    simp only [isAscii, List.all_cons, Bool.and_eq_true] at h
    rw [octetCount_single hh hl, if_pos hascii, ih h.2 ht, List.length_cons, Nat.add_comm]

/-- A well-formed text has at least an octet for each unit. -/
theorem length_le_octetCount {t : Text} (h : WellFormed t) : t.length ≤ octetCount t := by
  induction h with
  | nil => simp
  | pair hh hl _ ih =>
    rw [octetCount_pair hh hl, List.length_cons, List.length_cons]
    omega
  | single hh hl _ ih =>
    rw [octetCount_single hh hl, List.length_cons]
    split
    · omega
    · split <;> omega

end Commons
