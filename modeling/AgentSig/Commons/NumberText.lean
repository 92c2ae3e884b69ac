import AgentSig.Commons.Binary64
import AgentSig.Commons.Text
import Mathlib.Tactic.FieldSimp

/-!
# Texts of numbers

The text that a number is written as, and the reader of number literals. A positive number is
written with as few significant digits as determine it. Which digits of that length are taken
where several do is left to the writer, a `NumberFormat`. A literal is read as the number
nearest to its value, so what is written for a number reads back as that number.

## Main definitions

* `JsonNumber`: the finite numbers, the other zero, the infinities and the value that is not a number
* `NumberFormat`: a choice of the shortest digits of every positive number
* `numberText`: the text of a number
* `readNumber`: the number of the literal that a text starts with

## Main results

* `readNumber_numberText`: the text of a finite number reads back as that number
-/

namespace Commons

instance : DecidableEq Double := fun x y =>
  decidable_of_iff (x.value = y.value) ⟨Double.ext, congrArg Double.value⟩

/-- A number; `finite` holds the positive zero, and `negativeZero` is the other one. -/
inductive JsonNumber where
  | finite (x : Double)
  | negativeZero
  | infinity (negative : Bool)
  | nan
  deriving DecidableEq

/-- The number is finite. -/
def JsonNumber.isFinite : JsonNumber → Bool
  | .finite _ | .negativeZero => true
  | .infinity _ | .nan => false

/-- The number with both zeros made one. -/
def JsonNumber.unsigned : JsonNumber → JsonNumber
  | .negativeZero => .finite .zero
  | n => n

/-- A decimal digit. -/
def decimalDigit (c : UInt16) : Bool := 48 ≤ c && c ≤ 57

/-! ## Literals -/

/-- The parts of a number literal without its sign. -/
structure Literal where
  whole : Text
  fraction : Text
  exponent : Option ℤ
  deriving DecidableEq

namespace Literal

/-- The digits of a literal as the grammar has them: no leading zero, no empty whole part. -/
structure Valid (l : Literal) : Prop where
  whole : ∀ c ∈ l.whole, decimalDigit c
  leading : l.whole = [48] ∨ ∃ c t, l.whole = c :: t ∧ c ≠ 48
  fraction : ∀ c ∈ l.fraction, decimalDigit c

/-- The magnitude that a literal denotes. -/
def value (l : Literal) : ℚ :=
  readDigits 0 (l.whole ++ l.fraction) * 10 ^ (l.exponent.getD 0 - l.fraction.length)

/-- The text of an exponent, with its sign. -/
def exponentText : Option ℤ → Text
  | none => []
  | some e => 101 :: (if e < 0 then 45 else 43) :: decimal e.natAbs

/-- The text of a literal. -/
def text (l : Literal) : Text :=
  l.whole ++ ((if l.fraction = [] then [] else 46 :: l.fraction) ++ exponentText l.exponent)

end Literal

/-- The digits before the point: a zero, or a run of digits that starts with no zero. -/
def readWhole : Text → Option (Text × Text)
  | 48 :: rest => some ([48], rest)
  | t =>
    let digits := t.takeWhile decimalDigit
    if digits = [] then none else some (digits, t.dropWhile decimalDigit)

/-- The digits after the point, if there is one. -/
def readFraction : Text → Option (Text × Text)
  | 46 :: t =>
    let digits := t.takeWhile decimalDigit
    if digits = [] then none else some (digits, t.dropWhile decimalDigit)
  | t => some ([], t)

/-- The sign of an exponent; it may be left out. -/
def readSign : Text → Bool × Text
  | 45 :: t => (true, t)
  | 43 :: t => (false, t)
  | t => (false, t)

/-- The exponent, if there is one. -/
def readExponent (t : Text) : Option (Option ℤ × Text) :=
  if t.head? = some 101 ∨ t.head? = some 69 then
    let (negative, t) := readSign (t.drop 1)
    let digits := t.takeWhile decimalDigit
    let magnitude : ℤ := readDigits 0 digits
    if digits = [] then none
    else some (some (if negative then -magnitude else magnitude), t.dropWhile decimalDigit)
  else some (none, t)

/-- The literal without a sign that a text starts with. -/
def readLiteral (t : Text) : Option (Literal × Text) := do
  let (whole, t) ← readWhole t
  let (fraction, t) ← readFraction t
  let (exponent, t) ← readExponent t
  return (⟨whole, fraction, exponent⟩, t)

/-- The number nearest to a magnitude with a sign. -/
def nearestNumber (negative : Bool) (q : ℚ) : JsonNumber :=
  match h : binary64 q with
  | none => .infinity negative
  | some r =>
    let x : Double := ⟨r, representable_binary64 h⟩
    if negative then (if r = 0 then .negativeZero else .finite x.neg) else .finite x

/-- The number of the literal that a text starts with. -/
def readNumber : Text → Option (JsonNumber × Text)
  | 45 :: t => (readLiteral t).map fun (l, rest) => (nearestNumber true l.value, rest)
  | t => (readLiteral t).map fun (l, rest) => (nearestNumber false l.value, rest)

/-! ## Writing -/

/-- Significant decimal digits, how many they are and where the point is. -/
structure DecimalDigits where
  significand : ℕ
  count : ℕ
  point : ℤ
  count_pos : 0 < count
  lower : 10 ^ (count - 1) ≤ significand
  upper : significand < 10 ^ count

/-- The number that the digits denote. -/
def DecimalDigits.value (d : DecimalDigits) : ℚ := d.significand * 10 ^ (d.point - d.count)

/-- The shortest digits that determine each positive number. -/
structure NumberFormat where
  digits : Double → DecimalDigits
  value : ∀ x, 0 < x.value → binary64 (digits x).value = some x.value
  shortest : ∀ x, 0 < x.value → ∀ d : DecimalDigits, binary64 d.value = some x.value →
    (digits x).count ≤ d.count

/-- The literal written for some digits: plain where the point is near them, and otherwise with
an exponent. -/
def DecimalDigits.literal (d : DecimalDigits) : Literal :=
  let ds := decimal d.significand
  if d.count ≤ d.point ∧ d.point ≤ 21 then
    ⟨ds ++ List.replicate (d.point - d.count).toNat 48, [], none⟩
  else if 0 < d.point ∧ d.point ≤ 21 then
    ⟨ds.take d.point.toNat, ds.drop d.point.toNat, none⟩
  else if -6 < d.point ∧ d.point ≤ 0 then
    ⟨[48], List.replicate (-d.point).toNat 48 ++ ds, none⟩
  else ⟨ds.take 1, ds.drop 1, some (d.point - 1)⟩

/-- The text of a number. -/
def numberText (format : NumberFormat) : JsonNumber → Text
  | .nan => ascii "NaN"
  | .negativeZero => [48]
  | .infinity negative => (if negative then [45] else []) ++ ascii "Infinity"
  | .finite x =>
    if x.value = 0 then [48]
    else if x.value < 0 then 45 :: (format.digits x.neg).literal.text
    else (format.digits x).literal.text

/-! ## Reading a literal back -/

/-- The units that continue a literal. -/
def literalUnit (c : UInt16) : Bool := decimalDigit c || c == 46 || c == 101 || c == 69

theorem StartsWithout.of_literalUnit {t : Text} (h : StartsWithout literalUnit t) :
    StartsWithout decimalDigit t ∧ t.head? ≠ some 46 ∧ t.head? ≠ some 101 ∧ t.head? ≠ some 69 := by
  refine ⟨h.mono fun c hc => by simp [literalUnit, hc], ?_, ?_, ?_⟩ <;>
  · intro hhead
    have := h _ (by rw [hhead]; rfl)
    revert this
    decide

theorem decimalDigit_of_mem_decimal {n : ℕ} {c : UInt16} (h : c ∈ decimal n) : decimalDigit c := by
  simpa [decimalDigit] using bounds_of_mem_decimal h

theorem readWhole_append {l : Literal} (h : l.Valid) {rest : Text}
    (hrest : StartsWithout decimalDigit rest) : readWhole (l.whole ++ rest) = some (l.whole, rest) := by
  rcases h.leading with hzero | ⟨c, t, hwhole, hne⟩
  · rw [hzero]
    rfl
  · have htake := takeWhile_run h.whole hrest
    have hdrop := dropWhile_run h.whole hrest
    unfold readWhole
    split
    · rename_i heq
      rw [hwhole] at heq
      exact absurd (List.cons.inj heq).1 hne
    · rw [htake, hdrop, if_neg (by simp [hwhole])]

theorem readFraction_append {l : Literal} (h : l.Valid) {rest : Text}
    (hrest : StartsWithout decimalDigit rest) (hpoint : rest.head? ≠ some 46) :
    readFraction ((if l.fraction = [] then [] else 46 :: l.fraction) ++ rest) =
      some (l.fraction, rest) := by
  by_cases hempty : l.fraction = []
  · rw [if_pos hempty, hempty, List.nil_append]
    unfold readFraction
    split
    · simp at hpoint
    · rfl
  · have htake := takeWhile_run h.fraction hrest
    have hdrop := dropWhile_run h.fraction hrest
    rw [if_neg hempty, List.cons_append, readFraction, htake, hdrop, if_neg hempty]

/-- Reading an exponent inverts writing it, whatever follows that does not continue it. -/
theorem readExponent_append (e : Option ℤ) {rest : Text} (hrest : StartsWithout literalUnit rest) :
    readExponent (Literal.exponentText e ++ rest) = some (e, rest) := by
  obtain ⟨hdigit, -, hlower, hupper⟩ := hrest.of_literalUnit
  cases e with
  | none => rw [Literal.exponentText, List.nil_append, readExponent, if_neg (by simp [hlower, hupper])]
  | some e =>
    have hdigits : ∀ c ∈ decimal e.natAbs, decimalDigit c := fun c => decimalDigit_of_mem_decimal
    have htake := takeWhile_run hdigits hdigit
    have hdrop := dropWhile_run hdigits hdigit
    by_cases hneg : e < 0
    · simp [Literal.exponentText, readExponent, readSign, hneg, htake, hdrop, decimal_ne_nil,
        readDigits_decimal, abs_of_neg hneg]
    · simp [Literal.exponentText, readExponent, readSign, hneg, htake, hdrop, decimal_ne_nil,
        readDigits_decimal, abs_of_nonneg (not_lt.mp hneg)]

theorem startsWithout_exponentText (e : Option ℤ) {rest : Text}
    (hrest : StartsWithout literalUnit rest) :
    StartsWithout decimalDigit (Literal.exponentText e ++ rest) ∧
      (Literal.exponentText e ++ rest).head? ≠ some 46 := by
  cases e with
  | none => exact ⟨hrest.of_literalUnit.1, hrest.of_literalUnit.2.1⟩
  | some e => simp [Literal.exponentText, decimalDigit]

/-- A literal is read back from its text, whatever follows that does not continue it. -/
theorem readLiteral_text {l : Literal} (h : l.Valid) {rest : Text}
    (hrest : StartsWithout literalUnit rest) : readLiteral (l.text ++ rest) = some (l, rest) := by
  obtain ⟨hdigit, hpoint⟩ := startsWithout_exponentText l.exponent hrest
  have hfraction := readFraction_append h hdigit hpoint
  have hwhole : readWhole (l.text ++ rest) = some (l.whole,
      (if l.fraction = [] then [] else 46 :: l.fraction) ++ (Literal.exponentText l.exponent ++ rest)) := by
    rw [Literal.text, List.append_assoc, List.append_assoc]
    apply readWhole_append h
    by_cases hempty : l.fraction = []
    · rwa [if_pos hempty, List.nil_append]
    · rw [if_neg hempty]
      simp [decimalDigit]
  simp [readLiteral, hwhole, hfraction, readExponent_append l.exponent hrest]

/-! ## The literal of some digits -/

namespace DecimalDigits

variable (d : DecimalDigits)

theorem significand_pos : 0 < d.significand := (Nat.pow_pos (by norm_num)).trans_le d.lower

theorem length_decimal : (decimal d.significand).length = d.count := by
  apply le_antisymm
  · exact (length_decimal_le_iff d.count_pos).mpr d.upper
  · by_contra hlt
    have hpos : 0 < (decimal d.significand).length := List.length_pos_of_ne_nil (decimal_ne_nil _)
    have hupper := (length_decimal_le_iff hpos).mp le_rfl
    have hpow : 10 ^ (decimal d.significand).length ≤ 10 ^ (d.count - 1) :=
      Nat.pow_le_pow_right (by norm_num) (by omega)
    have := d.lower
    omega

theorem decimalDigit_of_mem {c : UInt16} (h : c ∈ decimal d.significand) : decimalDigit c :=
  decimalDigit_of_mem_decimal h

/-- The first digit is not a zero. -/
theorem exists_decimal_eq : ∃ c t, decimal d.significand = c :: t ∧ c ≠ 48 := by
  obtain ⟨c, t, heq⟩ := List.exists_cons_of_ne_nil (decimal_ne_nil d.significand)
  refine ⟨c, t, heq, ?_⟩
  rintro rfl
  have hlength : t.length + 1 = d.count := by rw [← d.length_decimal, heq, List.length_cons]
  have hdigits : ∀ c ∈ t, 48 ≤ c ∧ c ≤ 57 := fun c hc => bounds_of_mem_decimal (by rw [heq]; simp [hc])
  have hlt := readDigits_lt hdigits 0
  have hvalue := readDigits_decimal d.significand
  rw [heq, readDigits_cons] at hvalue
  have hlower := d.lower
  rw [← hlength, Nat.add_sub_cancel, ← hvalue] at hlower
  simp only [Nat.zero_mul, UInt16.reduceToNat, Nat.sub_self, Nat.zero_add, Nat.one_mul] at hlt hlower
  omega

theorem readDigits_zeros (acc n : ℕ) : readDigits acc (List.replicate n 48) = acc * 10 ^ n := by
  induction n generalizing acc with
  | zero => simp
  | succ n ih =>
    rw [List.replicate_succ, readDigits_cons, ih, Nat.pow_succ']
    simp [Nat.mul_assoc]

/-- The literal is one that the grammar has. -/
theorem valid_literal : d.literal.Valid := by
  obtain ⟨c, t, heq, hne⟩ := d.exists_decimal_eq
  have hmem : ∀ {c}, c ∈ decimal d.significand → decimalDigit c := d.decimalDigit_of_mem
  have hzeros : ∀ {n c}, c ∈ List.replicate n (48 : UInt16) → decimalDigit c := by
    intro n c hc
    rw [List.eq_of_mem_replicate hc]
    rfl
  unfold literal
  split
  · constructor
    · intro c hc
      exact (List.mem_append.mp hc).elim hmem hzeros
    · exact .inr ⟨c, t ++ List.replicate (d.point - d.count).toNat 48, by simp [heq], hne⟩
    · simp
  · split
    · rename_i hpoint
      obtain ⟨n, hn⟩ : ∃ n, d.point.toNat = n + 1 := ⟨d.point.toNat - 1, by omega⟩
      constructor
      · exact fun c hc => hmem (List.mem_of_mem_take hc)
      · exact .inr ⟨c, t.take n, by simp [heq, hn], hne⟩
      · exact fun c hc => hmem (List.mem_of_mem_drop hc)
    · split
      · constructor
        · simp [decimalDigit]
        · exact .inl rfl
        · intro c hc
          exact (List.mem_append.mp hc).elim hzeros hmem
      · constructor
        · exact fun c hc => hmem (List.mem_of_mem_take hc)
        · exact .inr ⟨c, [], by simp [heq], hne⟩
        · exact fun c hc => hmem (List.mem_of_mem_drop hc)

/-- The literal denotes the number that the digits denote. -/
theorem value_literal : d.literal.value = d.value := by
  have hlength := d.length_decimal
  have hpos := d.count_pos
  have hread := readDigits_decimal d.significand
  unfold literal
  split
  · rename_i hplain
    have hexponent : ((d.point - d.count).toNat : ℤ) = d.point - d.count := by omega
    rw [Literal.value, List.append_nil, readDigits_append, hread, readDigits_zeros, value]
    push_cast
    rw [← hexponent]
    simp
  · rename_i hplain
    split
    · rename_i hpoint
      rw [Literal.value, List.take_append_drop, hread, List.length_drop, hlength, value]
      congr 2
      simp only [Option.getD_none]
      omega
    · split
      · rw [Literal.value, List.cons_append, List.nil_append, readDigits_cons, readDigits_append,
          readDigits_zeros, List.length_append, List.length_replicate, hlength, value]
        simp only [Nat.zero_mul, UInt16.reduceToNat, Nat.sub_self, Nat.zero_add, hread]
        congr 2
        simp only [Option.getD_none]
        omega
      · rw [Literal.value, List.take_append_drop, hread, List.length_drop, hlength, value]
        congr 2
        simp only [Option.getD_some]
        omega

end DecimalDigits

/-! ## Numbers -/

theorem Literal.Valid.exists_text_eq {l : Literal} (h : l.Valid) :
    ∃ c t, l.text = c :: t ∧ decimalDigit c := by
  rcases h.leading with hzero | ⟨c, t, hwhole, -⟩
  · exact ⟨48, _, by rw [Literal.text, hzero, List.cons_append], rfl⟩
  · exact ⟨c, _, by rw [Literal.text, hwhole, List.cons_append], h.whole c (by simp [hwhole])⟩

theorem nearestNumber_of_pos {x : Double} {q : ℚ} (h : binary64 q = some x.value) :
    nearestNumber false q = .finite x := by
  unfold nearestNumber
  split
  · simp_all
  · rename_i r hr
    have hvalue : r = x.value := Option.some.inj (hr.symm.trans h)
    subst hvalue
    rfl

theorem nearestNumber_of_neg {x : Double} (hx : x.value < 0) {q : ℚ}
    (h : binary64 q = some x.neg.value) : nearestNumber true q = .finite x := by
  unfold nearestNumber
  split
  · simp_all
  · rename_i r hr
    have hvalue : r = -x.value := Option.some.inj (hr.symm.trans h)
    have hne : r ≠ 0 := by
      rw [hvalue]
      exact neg_ne_zero.mpr hx.ne
    rw [if_pos rfl, if_neg hne, JsonNumber.finite.injEq]
    apply Double.ext
    simp [Double.neg, hvalue]

/-- The zero literal is read as zero. -/
theorem readNumber_zero {rest : Text} (hrest : StartsWithout literalUnit rest) :
    readNumber (48 :: rest) = some (.finite .zero, rest) := by
  have hvalid : (⟨[48], [], none⟩ : Literal).Valid := by
    constructor
    · simp [decimalDigit]
    · exact .inl rfl
    · simp
  have hread := readLiteral_text hvalid hrest
  have hround : nearestNumber false (⟨[48], [], none⟩ : Literal).value = .finite .zero := by
    apply nearestNumber_of_pos
    have hvalue : (⟨[48], [], none⟩ : Literal).value = 0 := by simp [Literal.value]
    rw [hvalue]
    exact binary64_of_representable representable_zero
  rw [Literal.text] at hread
  simp only [if_pos, Literal.exponentText, List.append_nil, List.cons_append, List.nil_append] at hread
  simp [readNumber, hread, hround]

/-- The text of a finite number reads back as that number, whatever follows that does not
continue a literal. -/
theorem readNumber_numberText (format : NumberFormat) {n : JsonNumber} (hn : n.isFinite) {rest : Text}
    (hrest : StartsWithout literalUnit rest) :
    readNumber (numberText format n ++ rest) = some (n.unsigned, rest) := by
  cases n with
  | infinity negative => cases hn
  | nan => cases hn
  | negativeZero => exact readNumber_zero hrest
  | finite x =>
    have hunsigned : (JsonNumber.finite x).unsigned = .finite x := rfl
    rw [numberText, hunsigned]
    by_cases hzero : x.value = 0
    · rw [if_pos hzero, Double.ext (y := .zero) hzero]
      exact readNumber_zero hrest
    · rw [if_neg hzero]
      by_cases hneg : x.value < 0
      · have hpos : 0 < x.neg.value := neg_pos.mpr hneg
        have hread := readLiteral_text (format.digits x.neg).valid_literal hrest
        have hround := format.value x.neg hpos
        rw [← DecimalDigits.value_literal] at hround
        rw [if_pos hneg, List.cons_append, readNumber, hread, Option.map_some]
        dsimp only
        rw [nearestNumber_of_neg hneg hround]
      · have hpos : 0 < x.value := lt_of_le_of_ne (not_lt.mp hneg) (Ne.symm hzero)
        have hvalid := (format.digits x).valid_literal
        have hread := readLiteral_text hvalid hrest
        have hround := format.value x hpos
        rw [← DecimalDigits.value_literal] at hround
        obtain ⟨c, t, htext, hdigit⟩ := hvalid.exists_text_eq
        rw [if_neg hneg]
        unfold readNumber
        split
        · -- a digit is not a sign
          rename_i heq
          rw [htext, List.cons_append] at heq
          rw [(List.cons.inj heq).1] at hdigit
          cases hdigit
        · rw [hread, Option.map_some]
          dsimp only
          rw [nearestNumber_of_pos hround]

/-! ## Lengths and units -/

theorem isAscii_of_decimalDigit {t : Text} (h : ∀ c ∈ t, decimalDigit c) : isAscii t := by
  simp only [isAscii, List.all_eq_true, decide_eq_true_eq]
  intro c hc
  have hdigit := h c hc
  simp only [decimalDigit, Bool.and_eq_true, decide_eq_true_eq, UInt16.le_iff_toNat_le,
    UInt16.reduceToNat] at hdigit ⊢
  omega

theorem Literal.Valid.isAscii_text {l : Literal} (h : l.Valid) : isAscii l.text := by
  have hexponent : isAscii (Literal.exponentText l.exponent) := by
    cases l.exponent with
    | none => rfl
    | some e =>
      have hdigits := isAscii_of_decimalDigit fun c => decimalDigit_of_mem_decimal (n := e.natAbs) (c := c)
      rw [isAscii] at hdigits
      by_cases hneg : e < 0 <;> simp [Literal.exponentText, isAscii, hneg, hdigits]
  have hfraction : isAscii (if l.fraction = [] then [] else 46 :: l.fraction) := by
    have hdigits := isAscii_of_decimalDigit h.fraction
    rw [isAscii] at hdigits
    split
    · rfl
    · simp [isAscii, hdigits]
  rw [Literal.text, isAscii_append, isAscii_append, isAscii_of_decimalDigit h.whole, hfraction,
    hexponent]
  rfl

/-- The text of a number is ASCII. -/
theorem isAscii_numberText (format : NumberFormat) (n : JsonNumber) : isAscii (numberText format n) := by
  cases n with
  | negativeZero => rfl
  | nan => rfl
  | infinity negative => cases negative <;> rfl
  | finite x =>
    rw [numberText]
    split
    · rfl
    · split
      · have htext := (format.digits x.neg).valid_literal.isAscii_text
        rw [isAscii] at htext
        simp [isAscii, htext]
      · exact (format.digits x).valid_literal.isAscii_text

/-- The text of a finite number starts with a digit or a minus sign. -/
theorem exists_numberText_eq (format : NumberFormat) {n : JsonNumber} (hn : n.isFinite) :
    ∃ c t, numberText format n = c :: t ∧ (decimalDigit c ∨ c = 45) := by
  cases n with
  | infinity negative => cases hn
  | nan => cases hn
  | negativeZero => exact ⟨48, [], rfl, .inl rfl⟩
  | finite x =>
    rw [numberText]
    split
    · exact ⟨48, [], rfl, .inl rfl⟩
    · split
      · exact ⟨45, _, rfl, .inr rfl⟩
      · obtain ⟨c, t, htext, hdigit⟩ := (format.digits x).valid_literal.exists_text_eq
        exact ⟨c, t, htext, .inl hdigit⟩

/-! ## Formats exist -/

/-- Every positive integer times a power of ten has digits. -/
theorem exists_digits {s : ℕ} (hs : 0 < s) (e : ℤ) :
    ∃ d : DecimalDigits, d.value = s * 10 ^ e := by
  refine ⟨⟨s, Nat.log 10 s + 1, Nat.log 10 s + 1 + e, Nat.succ_pos _, ?_, ?_⟩, ?_⟩
  · exact Nat.pow_log_le_self 10 hs.ne'
  · exact Nat.lt_pow_succ_log_self (by norm_num) s
  · have hexponent : (Nat.log 10 s + 1 + e : ℤ) - (Nat.log 10 s + 1 : ℕ) = e := by
      push_cast
      ring
    rw [DecimalDigits.value, hexponent]

/-- A binary fraction is a decimal one, so every positive number has digits. -/
theorem Double.exists_digits {x : Double} (hx : 0 < x.value) :
    ∃ d : DecimalDigits, d.value = x.value := by
  obtain ⟨m, e, -, -, -, hvalue⟩ := x.representable
  have hm : 0 < m := by
    rw [hvalue] at hx
    exact_mod_cast (mul_pos_iff_of_pos_right (zpow_two_pos e)).mp hx
  obtain ⟨n, rfl⟩ := Int.eq_ofNat_of_zero_le hm.le
  have hn : 0 < n := by exact_mod_cast hm
  rcases le_or_gt 0 e with he | he
  · obtain ⟨k, rfl⟩ := Int.eq_ofNat_of_zero_le he
    obtain ⟨d, hd⟩ := Commons.exists_digits (s := n * 2 ^ k) (Nat.mul_pos hn (by positivity)) 0
    exact ⟨d, by rw [hd, hvalue]; push_cast; simp⟩
  · obtain ⟨k, hk⟩ := Int.eq_ofNat_of_zero_le (show 0 ≤ -e by omega)
    obtain rfl : e = -k := by omega
    obtain ⟨d, hd⟩ := Commons.exists_digits (s := n * 5 ^ k) (Nat.mul_pos hn (by positivity)) (-k)
    have hten : (5 : ℚ) ^ k * 10 ^ (-k : ℤ) = 2 ^ (-k : ℤ) := by
      rw [zpow_neg, zpow_neg, zpow_natCast, zpow_natCast, show (10 : ℚ) = 2 * 5 by norm_num, mul_pow]
      field_simp
    refine ⟨d, ?_⟩
    rw [hd, hvalue]
    push_cast
    rw [mul_assoc, hten]

open Classical in
/-- A choice of the shortest digits. -/
noncomputable def shortestDigits (x : Double) : DecimalDigits :=
  if h : ∃ k, ∃ d : DecimalDigits, binary64 d.value = some x.value ∧ d.count = k then
    (Nat.find_spec h).choose
  else ⟨1, 1, 1, by norm_num, by norm_num, by norm_num⟩

open Classical in
/-- The format of the chosen digits. -/
noncomputable def NumberFormat.chosen : NumberFormat where
  digits := shortestDigits
  value := by
    intro x hx
    obtain ⟨d, hd⟩ := x.exists_digits hx
    have h : ∃ k, ∃ d : DecimalDigits, binary64 d.value = some x.value ∧ d.count = k :=
      ⟨d.count, d, by rw [hd]; exact binary64_of_representable x.representable, rfl⟩
    rw [shortestDigits, dif_pos h]
    exact (Nat.find_spec h).choose_spec.1
  shortest := by
    intro x hx d hd
    have h : ∃ k, ∃ d : DecimalDigits, binary64 d.value = some x.value ∧ d.count = k :=
      ⟨d.count, d, hd, rfl⟩
    rw [shortestDigits, dif_pos h, (Nat.find_spec h).choose_spec.2]
    exact Nat.find_min' h ⟨d, hd, rfl⟩

end Commons
