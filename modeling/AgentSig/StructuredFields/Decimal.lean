import AgentSig.Commons.Rounding
import AgentSig.StructuredFields.Parser
import AgentSig.StructuredFields.Types
import Mathlib.Data.Rat.Floor

/-!
# Decimals from text

`decimalFromString` reads a base-10 text of any length and rounds it to thousandths, half to
even. It looks at three fractional digits, at the fourth, and beyond a fourth digit 5 at whether
anything but zeros follows; it converts no more than twelve significant integer digits.

## Main definitions

* `decimalFromString`: the decimal of a text
* `Denotes input q`: the text is an optional minus, digits and optionally a fraction, of value `q`

## Main results

* `Denotes.unique`: a text denotes one number at most
* `thousandths_rounded`: the digit rule rounds the value half to even
* `decimalFromString_rounds`: **`decimalFromString` rounds half to even, exactly**
-/

namespace AgentSig.StructuredFields

open Commons

/-! ## The code -/

/-- The fractional digits: none at the end of the text, else a point and one digit or more. -/
def fractionalDigits : Text → Except SfError Text
  | [] => .ok []
  | code :: fraction => do
    require (code = 46) (.serialization .invalidNumber)
    require (fraction ≠ []) (.serialization .invalidNumber)
    require (fraction.all digit) (.serialization .invalidNumber)
    return fraction

/-- The value of the digit at a position; missing digits are zeros. -/
def digitAt (digits : Text) (position : ℕ) : ℕ :=
  match digits[position]? with
  | some code => code.toNat - 48
  | none => 0

/-- The first three fractional digits, as thousandths. -/
def fractionThousandths (fraction : Text) : ℕ :=
  (List.range 3).foldl (fun value digit => value * 10 + digitAt fraction digit) 0

/-- The magnitude is to be incremented: the digits from the fourth on are more than a half, or a
half and the magnitude is odd. -/
def roundsUp (magnitude : ℕ) (fraction : Text) : Bool :=
  match fraction.drop 3 with
  | [] => false
  | code :: tail =>
    let fourth := code.toNat - 48
    let nonzeroTail := fourth == 5 && tail.any (· != 48)
    fourth > 5 || (fourth == 5 && (nonzeroTail || magnitude % 2 != 0))

/-- `decimalFromString`, under resolved limits. -/
def decimalFromString (L : Limits) (input : Text) : Except SfError BareItem := do
  L.check .maxInputBytes input.length
  let negative : Bool := input.head? = some 45
  let unsigned := if negative then input.tail else input
  let integerDigits := unsigned.takeWhile digit
  require (integerDigits ≠ []) (.serialization .invalidNumber)
  let fraction ← fractionalDigits (unsigned.dropWhile digit)
  -- Leading zeros are insignificant, and at most twelve digits are converted.
  let significant := integerDigits.dropWhile (· == 48)
  require (significant.length ≤ 12) (.serialization .invalidNumber)
  let magnitude := readDigits 0 significant * 1000 + fractionThousandths fraction
  let magnitude := if roundsUp magnitude fraction then magnitude + 1 else magnitude
  -- The range is checked after rounding.
  require (magnitude ≤ 999999999999999) (.serialization .invalidNumber)
  return .decimal (.integer (if negative && magnitude != 0 then -magnitude else magnitude))

/-! ## The denoted number -/

/-- A minus, or nothing. -/
def minus (negative : Bool) : Text := if negative then [45] else []

/-- A number or its negation. -/
def withSign {α : Type*} [Neg α] (negative : Bool) (x : α) : α := if negative then -x else x

/-- The text is an optional minus, one digit or more, and then nothing, or a point and one digit
or more. -/
structure DecimalText (input : Text) (negative : Bool) (whole fraction : Text) : Prop where
  whole_ne : whole ≠ []
  whole_digits : ∀ c ∈ whole, digit c
  fraction_digits : ∀ c ∈ fraction, digit c
  text : input = minus negative ++ whole ++ if fraction = [] then [] else 46 :: fraction

/-- The text denotes the number `q`. -/
def Denotes (input : Text) (q : ℚ) : Prop :=
  ∃ negative whole fraction, DecimalText input negative whole fraction ∧
    q = withSign negative
      (readDigits 0 whole + (readDigits 0 fraction : ℚ) / (10 ^ fraction.length : ℕ))

/-! ## Digits -/

theorem readDigits_eq_add (acc : ℕ) (t : Text) :
    readDigits acc t = acc * 10 ^ t.length + readDigits 0 t := by
  induction t generalizing acc with
  | nil => simp
  | cons c t ih =>
    rw [readDigits_cons, readDigits_cons, ih, ih (0 * 10 + (c.toNat - 48)), List.length_cons,
      Nat.pow_succ']
    ring

/-- Leading zeros denote nothing. -/
theorem readDigits_dropWhile_zero (t : Text) :
    readDigits 0 (t.dropWhile (· == 48)) = readDigits 0 t := by
  induction t with
  | nil => rfl
  | cons c t ih =>
    rw [List.dropWhile_cons]
    split
    · rename_i hc
      rw [ih, readDigits_cons, eq_of_beq hc]
      rfl
    · rfl

theorem digit_iff {c : UInt16} : digit c ↔ 48 ≤ c.toNat ∧ c.toNat ≤ 57 := by
  simp only [digit, Bool.and_eq_true, decide_eq_true_eq, UInt16.le_iff_toNat_le]
  exact Iff.rfl

/-- Digits without a leading zero denote at least a power of ten. -/
theorem pow_le_readDigits {c : UInt16} {t : Text} (hc : digit c) (hne : c ≠ 48) :
    10 ^ t.length ≤ readDigits 0 (c :: t) := by
  have hpos : 1 ≤ c.toNat - 48 := by
    have hne' : c.toNat ≠ 48 := fun h => hne (UInt16.toNat_inj.mp h)
    have := (digit_iff.mp hc).1
    omega
  rw [readDigits_cons, readDigits_eq_add, Nat.zero_mul, Nat.zero_add]
  calc 10 ^ t.length = 1 * 10 ^ t.length := (Nat.one_mul _).symm
    _ ≤ (c.toNat - 48) * 10 ^ t.length := Nat.mul_le_mul_right _ hpos
    _ ≤ _ := Nat.le_add_right _ _

/-- Digits denote zero exactly when they are zeros. -/
theorem readDigits_eq_zero_iff {t : Text} (h : ∀ c ∈ t, digit c) :
    readDigits 0 t = 0 ↔ ∀ c ∈ t, c = 48 := by
  induction t with
  | nil => simp
  | cons c t ih =>
    obtain ⟨hc, ht⟩ := List.forall_mem_cons.mp h
    by_cases hzero : c = 48
    · subst hzero
      rw [readDigits_cons, List.forall_mem_cons, ← ih ht]
      simp
    · have hpos := pow_le_readDigits (t := t) hc hzero
      have := Nat.pos_of_ne_zero (pow_ne_zero t.length (by norm_num : 10 ≠ 0))
      constructor
      · omega
      · intro hall
        exact absurd (hall c List.mem_cons_self) hzero

/-! ## Rounding -/

/-- The value of a fraction in thousandths: its first three digits, and the rest as a fraction. -/
theorem thousand_mul_fraction (fraction : Text) :
    (1000 * ((readDigits 0 fraction : ℚ) / (10 ^ fraction.length : ℕ)) : ℚ) =
      fractionThousandths fraction +
        (readDigits 0 (fraction.drop 3) : ℚ) / (10 ^ (fraction.drop 3).length : ℕ) := by
  match fraction with
  | [] => simp [fractionThousandths, digitAt, List.range_succ]
  | [a] =>
    simp [fractionThousandths, digitAt, List.range_succ]
    ring
  | [a, b] =>
    simp [fractionThousandths, digitAt, List.range_succ]
    ring
  | a :: b :: c :: tail =>
    have hthousandths : fractionThousandths (a :: b :: c :: tail) = readDigits 0 [a, b, c] := by
      simp [fractionThousandths, digitAt, List.range_succ]
    have hsplit : readDigits 0 (a :: b :: c :: tail) =
        readDigits 0 [a, b, c] * 10 ^ tail.length + readDigits 0 tail := by
      rw [← readDigits_eq_add, ← readDigits_append]
      rfl
    have hpow : ((10 ^ tail.length : ℕ) : ℚ) ≠ 0 := by positivity
    rw [hthousandths, hsplit, List.drop_succ_cons, List.drop_succ_cons, List.drop_succ_cons,
      List.drop_zero]
    simp only [List.length_cons]
    push_cast at hpow ⊢
    field_simp
    ring

/-- The digits from the fourth on, against a half. -/
theorem roundsUp_eq_true_iff {magnitude : ℕ} {fraction : Text} (h : ∀ c ∈ fraction, digit c) :
    roundsUp magnitude fraction ↔
      10 ^ (fraction.drop 3).length < 2 * readDigits 0 (fraction.drop 3) ∨
        2 * readDigits 0 (fraction.drop 3) = 10 ^ (fraction.drop 3).length ∧
          ¬ Even (magnitude : ℤ) := by
  have hdrop : ∀ c ∈ fraction.drop 3, digit c := fun c hc => h c (List.mem_of_mem_drop hc)
  unfold roundsUp
  generalize fraction.drop 3 = digits at hdrop ⊢
  cases digits with
  | nil => simp
  | cons code tail =>
    obtain ⟨hcode, htail⟩ := List.forall_mem_cons.mp hdrop
    have hbounds := digit_iff.mp hcode
    have hlt : readDigits 0 tail < 10 ^ tail.length := by
      simpa using readDigits_lt (fun c hc => by simpa [digit] using htail c hc) 0
    have hzero := readDigits_eq_zero_iff htail
    have hvalue : readDigits 0 (code :: tail) =
        (code.toNat - 48) * 10 ^ tail.length + readDigits 0 tail := by
      rw [readDigits_cons, readDigits_eq_add, Nat.zero_mul, Nat.zero_add]
    have hany : tail.any (· != 48) ↔ readDigits 0 tail ≠ 0 := by
      rw [ne_eq, hzero]
      simp
    have hodd : magnitude % 2 != 0 ↔ ¬ Even (magnitude : ℤ) := by
      rw [Int.even_coe_nat, Nat.even_iff]
      simp
    simp only [hvalue, List.length_cons, Nat.pow_succ]
    generalize hf : code.toNat - 48 = fourth
    generalize readDigits 0 tail = r at *
    generalize 10 ^ tail.length = P at *
    simp only [Bool.or_eq_true, Bool.and_eq_true, decide_eq_true_eq, beq_iff_eq, hany, hodd]
    -- The fourth digit is below, at or above a half.
    clear hf hvalue
    rcases lt_trichotomy fourth 5 with hlow | rfl | hhigh
    · have hmul : fourth * P ≤ 4 * P := Nat.mul_le_mul_right P (by omega)
      constructor
      · rintro (h | ⟨h, -⟩) <;> omega
      · rintro (h | ⟨h, -⟩) <;> omega
    · constructor
      · rintro (h | ⟨-, ⟨-, hr⟩ | hodd⟩)
        · omega
        · exact .inl (by omega)
        · by_cases hr : r = 0
          · exact .inr ⟨by omega, hodd⟩
          · exact .inl (by omega)
      · rintro (h | ⟨-, hodd⟩)
        · exact .inr ⟨rfl, .inl ⟨rfl, by omega⟩⟩
        · exact .inr ⟨rfl, .inr hodd⟩
    · have hmul : 6 * P ≤ fourth * P := Nat.mul_le_mul_right P (by omega)
      constructor
      · intro _
        exact .inl (by omega)
      · intro _
        exact .inl hhigh

/-- **The digit rule rounds the value half to even.** -/
theorem thousandths_rounded (whole : ℕ) {fraction : Text} (h : ∀ c ∈ fraction, digit c) :
    let magnitude := whole * 1000 + fractionThousandths fraction
    roundHalfEven (1000 * (whole + (readDigits 0 fraction : ℚ) / (10 ^ fraction.length : ℕ))) =
      if roundsUp magnitude fraction then (magnitude : ℤ) + 1 else magnitude := by
  intro magnitude
  have hdigits : ∀ c ∈ fraction.drop 3, 48 ≤ c ∧ c ≤ 57 := by
    intro c hc
    simpa [digit] using h c (List.mem_of_mem_drop hc)
  have hlt : readDigits 0 (fraction.drop 3) < 10 ^ (fraction.drop 3).length := by
    simpa using readDigits_lt hdigits 0
  have hsplit : 1000 * (whole + (readDigits 0 fraction : ℚ) / (10 ^ fraction.length : ℕ)) =
      ((magnitude : ℤ) : ℚ) +
        (readDigits 0 (fraction.drop 3) : ℚ) / (10 ^ (fraction.drop 3).length : ℕ) := by
    rw [mul_add, thousand_mul_fraction]
    push_cast [magnitude]
    ring
  rw [hsplit, roundHalfEven_add_div _ hlt]
  simp only [roundsUp_eq_true_iff h]

/-! ## The reading of a text -/

theorem fractionalDigits_eq_ok {t fraction : Text} : fractionalDigits t = .ok fraction ↔
    (t = if fraction = [] then [] else 46 :: fraction) ∧ ∀ c ∈ fraction, digit c := by
  cases t with
  | nil =>
    constructor
    · intro h
      obtain rfl := Except.ok.inj h
      simp
    · rintro ⟨h, -⟩
      split at h
      · rename_i hf
        rw [hf]
        rfl
      · exact absurd h (by simp)
  | cons code t =>
    simp only [fractionalDigits, bind_eq_ok, require_eq_ok, exists_const, pure_eq_ok]
    constructor
    · rintro ⟨rfl, hne, hdigits, rfl⟩
      exact ⟨by rw [if_neg hne], by simpa using hdigits⟩
    · rintro ⟨h, hdigits⟩
      split at h
      · exact absurd h (by simp)
      · rename_i hne
        obtain ⟨rfl, rfl⟩ := List.cons.inj h
        exact ⟨rfl, hne, by simpa using hdigits, rfl⟩

theorem fractionalDigits_eq_error {t : Text} {e : SfError} (h : fractionalDigits t = .error e) :
    e = .serialization .invalidNumber := by
  cases t with
  | nil => exact absurd h (by simp [fractionalDigits])
  | cons code t =>
    simp only [fractionalDigits, bind_eq_error, require_eq_error, require_eq_ok, exists_const] at h
    rcases h with ⟨-, rfl⟩ | ⟨-, ⟨-, rfl⟩ | ⟨-, ⟨-, rfl⟩ | ⟨-, h⟩⟩⟩
    · rfl
    · rfl
    · rfl
    · exact absurd h (by simp [pure, Except.pure])

/-- What the code tells apart at the start of a text: the minus and what follows it. -/
theorem DecimalText.unsigned {input whole fraction : Text} {negative : Bool}
    (h : DecimalText input negative whole fraction) :
    decide (input.head? = some 45) = negative ∧
      (if negative then input.tail else input) =
        whole ++ if fraction = [] then [] else 46 :: fraction := by
  obtain ⟨hne, hwhole, -, rfl⟩ := h
  cases negative with
  | true => simp [minus]
  | false =>
    obtain ⟨c, whole, rfl⟩ := List.exists_cons_of_ne_nil hne
    have hc : c ≠ 45 := by
      rintro rfl
      exact absurd (hwhole 45 List.mem_cons_self) (by decide)
    simp [minus, hc]

theorem decimalText_of_unsigned {input whole fraction : Text} (hne : whole ≠ [])
    (hwhole : ∀ c ∈ whole, digit c) (hfraction : ∀ c ∈ fraction, digit c)
    (h : (if decide (input.head? = some 45) then input.tail else input) =
      whole ++ if fraction = [] then [] else 46 :: fraction) :
    DecimalText input (input.head? = some 45) whole fraction := by
  refine ⟨hne, hwhole, hfraction, ?_⟩
  rw [List.append_assoc, ← h]
  by_cases hminus : input.head? = some 45
  · obtain ⟨t, rfl⟩ := List.head?_eq_some_iff.mp hminus
    simp [minus]
  · simp [minus, hminus]

/-- The digits of a text, and where they end. -/
theorem DecimalText.scan {input whole fraction : Text} {negative : Bool}
    (h : DecimalText input negative whole fraction) :
    (whole ++ if fraction = [] then [] else 46 :: fraction).takeWhile digit = whole ∧
      (whole ++ if fraction = [] then [] else 46 :: fraction).dropWhile digit =
        if fraction = [] then [] else 46 :: fraction := by
  have hrest : StartsWithout digit (if fraction = [] then [] else 46 :: fraction) := by
    split
    · exact .nil
    · exact startsWithout_cons.mpr (by decide)
  exact ⟨takeWhile_run h.whole_digits hrest, dropWhile_run h.whole_digits hrest⟩

/-- A text denotes one number at most. -/
theorem Denotes.unique {input : Text} {q q' : ℚ} (h : Denotes input q) (h' : Denotes input q') :
    q = q' := by
  obtain ⟨negative, whole, fraction, ht, rfl⟩ := h
  obtain ⟨negative', whole', fraction', ht', rfl⟩ := h'
  obtain ⟨hn, hu⟩ := ht.unsigned
  obtain ⟨hn', hu'⟩ := ht'.unsigned
  obtain rfl : negative = negative' := hn.symm.trans hn'
  rw [hu'] at hu
  obtain ⟨htake, hdrop⟩ := ht.scan
  obtain ⟨htake', hdrop'⟩ := ht'.scan
  rw [← hu, htake'] at htake
  rw [← hu, hdrop'] at hdrop
  subst htake
  have hfraction : fraction' = fraction := by
    split at hdrop <;> split at hdrop <;> simp_all
  rw [hfraction]

/-- The magnitude of the code, rounded. -/
def roundedMagnitude (whole fraction : Text) : ℕ :=
  let magnitude := readDigits 0 (whole.dropWhile (· == 48)) * 1000 + fractionThousandths fraction
  if roundsUp magnitude fraction then magnitude + 1 else magnitude

/-- **The code on its texts**: every text that returns is one of these. -/
theorem decimalFromString_eq_ok {L : Limits} {input : Text} {v : BareItem} :
    decimalFromString L input = .ok v ↔ input.length ≤ L.get .maxInputBytes ∧
      ∃ negative whole fraction, DecimalText input negative whole fraction ∧
        (whole.dropWhile (· == 48)).length ≤ 12 ∧
        roundedMagnitude whole fraction ≤ 999999999999999 ∧
        v = .decimal (.integer (withSign negative (roundedMagnitude whole fraction : ℤ))) := by
  have hsign (negative : Bool) (n : ℕ) :
      (if (negative && n != 0) = true then -(n : ℤ) else n) = withSign negative (n : ℤ) := by
    by_cases hn : n = 0 <;> cases negative <;> simp [withSign, hn]
  simp only [decimalFromString, bind_eq_ok, require_eq_ok, Limits.check_eq_ok, exists_const,
    pure_eq_ok, hsign]
  refine and_congr_right fun _ => ?_
  constructor
  · rintro ⟨hne, fraction, hfraction, hlen, hle, rfl⟩
    obtain ⟨hrest, hdigits⟩ := fractionalDigits_eq_ok.mp hfraction
    set unsigned := if decide (input.head? = some 45) then input.tail else input
    have htext : unsigned =
        unsigned.takeWhile digit ++ if fraction = [] then [] else 46 :: fraction := by
      rw [← hrest, List.takeWhile_append_dropWhile]
    have hwhole : ∀ c ∈ unsigned.takeWhile digit, digit c := by
      intro c hc
      exact List.mem_takeWhile_imp hc
    exact ⟨_, _, fraction, decimalText_of_unsigned hne hwhole hdigits htext, hlen, hle, rfl⟩
  · rintro ⟨negative, whole, fraction, htext, hlen, hle, rfl⟩
    obtain ⟨hnegative, hunsigned⟩ := htext.unsigned
    obtain ⟨htake, hdrop⟩ := htext.scan
    rw [hnegative, hunsigned, htake, hdrop]
    refine ⟨htext.whole_ne, fraction, fractionalDigits_eq_ok.mpr ⟨rfl, htext.fraction_digits⟩, hlen,
      hle, rfl⟩

/-- The rounded magnitude is the rounded value, sign apart. -/
theorem DecimalText.rounded {input whole fraction : Text} {negative : Bool}
    (h : DecimalText input negative whole fraction) :
    roundHalfEven (1000 * withSign negative
        (readDigits 0 whole + (readDigits 0 fraction : ℚ) / (10 ^ fraction.length : ℕ))) =
      withSign negative (roundedMagnitude whole fraction : ℤ) := by
  have hpos := thousandths_rounded (readDigits 0 whole) h.fraction_digits
  have hmagnitude : (roundedMagnitude whole fraction : ℤ) =
      roundHalfEven (1000 *
        (readDigits 0 whole + (readDigits 0 fraction : ℚ) / (10 ^ fraction.length : ℕ))) := by
    rw [hpos, roundedMagnitude, readDigits_dropWhile_zero]
    split <;> rfl
  rw [hmagnitude]
  cases negative with
  | false => rfl
  | true => rw [withSign, if_pos rfl, withSign, if_pos rfl, mul_neg, roundHalfEven_neg]

/-- A value in the range has at most twelve significant integer digits. -/
theorem length_significant_le {whole fraction : Text} (hwhole : ∀ c ∈ whole, digit c)
    (h : roundedMagnitude whole fraction ≤ 999999999999999) :
    (whole.dropWhile (· == 48)).length ≤ 12 := by
  have hle : readDigits 0 (whole.dropWhile (· == 48)) * 1000 ≤ 999999999999999 := by
    unfold roundedMagnitude at h
    dsimp only at h
    refine le_trans (Nat.le_add_right _ (fractionThousandths fraction)) ?_
    split at h
    · exact (Nat.le_succ _).trans h
    · exact h
  cases hsig : whole.dropWhile (· == 48) with
  | nil => simp
  | cons c tail =>
    have hc : digit c := by
      apply hwhole
      apply (List.dropWhile_sublist (· == 48)).subset
      rw [hsig]
      exact List.mem_cons_self
    have hne : c ≠ 48 := by
      have hhead := List.head?_dropWhile_not (· == 48) whole
      rw [hsig] at hhead
      simpa using hhead
    have hpow := pow_le_readDigits (t := tail) hc hne
    rw [hsig] at hle
    by_contra hlen
    rw [List.length_cons] at hlen
    have : 10 ^ 12 ≤ 10 ^ tail.length := Nat.pow_le_pow_right (by norm_num) (by omega)
    omega

/-- **`decimalFromString` rounds half to even, exactly.** Within the input budget a text is
converted exactly when it denotes a number whose rounding to thousandths is in the range of
decimals, and then to that rounding; every other text is rejected as no number. -/
theorem decimalFromString_rounds (L : Limits) (input : Text)
    (hbudget : input.length ≤ L.get .maxInputBytes) :
    (∀ v, decimalFromString L input = .ok v ↔
      ∃ q : ℚ, Denotes input q ∧ (roundHalfEven (1000 * q)).natAbs ≤ 999999999999999 ∧
        v = .decimal (.integer (roundHalfEven (1000 * q)))) ∧
    ∀ e, decimalFromString L input = .error e → e = .serialization .invalidNumber := by
  have hnatAbs (negative : Bool) (n : ℕ) : (withSign negative (n : ℤ)).natAbs = n := by
    cases negative <;> simp [withSign]
  constructor
  · intro v
    rw [decimalFromString_eq_ok]
    constructor
    · rintro ⟨-, negative, whole, fraction, htext, hlen, hle, rfl⟩
      refine ⟨_, ⟨negative, whole, fraction, htext, rfl⟩, ?_, ?_⟩
      · rwa [htext.rounded, hnatAbs]
      · rw [htext.rounded]
    · rintro ⟨q, ⟨negative, whole, fraction, htext, rfl⟩, hle, rfl⟩
      rw [htext.rounded, hnatAbs] at hle
      refine ⟨hbudget, negative, whole, fraction, htext, ?_, hle, ?_⟩
      · exact length_significant_le htext.whole_digits hle
      · rw [htext.rounded]
  · intro e he
    simp only [decimalFromString, Limits.check_of_le hbudget, ok_bind, bind_eq_error,
      require_eq_error, require_eq_ok, exists_const] at he
    rcases he with ⟨-, rfl⟩ | ⟨-, he | ⟨fraction, -, ⟨-, rfl⟩ | ⟨-, ⟨-, rfl⟩ | ⟨-, he⟩⟩⟩⟩
    · rfl
    · exact fractionalDigits_eq_error he
    · rfl
    · rfl
    · exact absurd he (by simp [pure, Except.pure])

/-- A negative tie goes to the even side, and a carry runs through all the nines. -/
theorem decimalFromString_rounds_example :
    ∃ q : ℚ, Denotes (ascii "-0999.9995") q ∧
      decimalFromString DEFAULT_LIMITS (ascii "-0999.9995") = .ok (.decimal (.integer (-1000000))) ∧
      roundHalfEven (1000 * q) = -1000000 := by
  have hok : decimalFromString DEFAULT_LIMITS (ascii "-0999.9995") =
      .ok (.decimal (.integer (-1000000))) := by rfl
  have hbudget : (ascii "-0999.9995").length ≤ DEFAULT_LIMITS.get .maxInputBytes := by decide
  obtain ⟨q, hq, -, hv⟩ := ((decimalFromString_rounds _ _ hbudget).1 _).mp hok
  refine ⟨q, hq, hok, ?_⟩
  simpa using hv.symm

end AgentSig.StructuredFields
