import AgentSig.StructuredFields.Rfc9651
import AgentSig.StructuredFields.Serializer

/-!
# The texts of bare items

What the writer appends for a bare item is read back as that item, up to `-0`, whatever
follows it, as long as what follows does not extend the item.

## Main definitions

* `Wrote L w s n w'`: from `w` to `w'`, the text `s` is appended and `n` occurrences are charged
* `Follows b rest`: `rest` does not extend the text of `b`

## Main results

* `Writer.key_wrote`, `Writer.bare_wrote`: what is written for keys and bare items
-/

namespace AgentSig.StructuredFields

open Commons

variable {L : Limits}

/-! ## Writing -/

/-- From `w` to `w'`, the text `s` is appended, and `n` occurrences are charged and fit. -/
structure Wrote (L : Limits) (w : Writer) (s : Text) (n : ℕ) (w' : Writer) : Prop where
  text : w'.text = w.text ++ s
  occurrences : w'.occurrences = w.occurrences + n
  fits : n ≠ 0 → w'.occurrences ≤ L.get .maxTotalOccurrences

theorem Wrote.refl (w : Writer) : Wrote L w [] 0 w := ⟨by simp, rfl, by simp⟩

theorem Wrote.trans {w w' w'' : Writer} {s t : Text} {n m : ℕ} (h : Wrote L w s n w')
    (h' : Wrote L w' t m w'') : Wrote L w (s ++ t) (n + m) w'' := by
  refine ⟨by rw [h'.text, h.text, List.append_assoc], by rw [h'.occurrences, h.occurrences]; omega,
    fun _ => ?_⟩
  by_cases hm : m = 0
  · have := h.fits (by omega)
    have := h'.occurrences
    omega
  · exact h'.fits hm

theorem Writer.append_wrote {w w' : Writer} {s : Text} (h : w.append L s = .ok w') :
    Wrote L w s 0 w' := by
  simp only [append, reserve, bind_eq_ok, Limits.check_eq_ok, exists_const, pure_eq_ok] at h
  obtain ⟨-, rfl⟩ := h
  exact ⟨rfl, rfl, by simp⟩

theorem Writer.consumeOccurrence_wrote {w w' : Writer} (h : w.consumeOccurrence L = .ok w') :
    Wrote L w [] 1 w' := by
  simp only [consumeOccurrence, bind_eq_ok, Limits.check_eq_ok, exists_const, pure_eq_ok] at h
  obtain ⟨hle, rfl⟩ := h
  exact ⟨by simp, rfl, fun _ => hle⟩

/-! ## Keys and tokens -/

theorem printable_iff {c : UInt16} : Rfc9651.printable c ↔ 0x20 ≤ c ∧ c ≤ 0x7e := by
  simp [Rfc9651.printable]

/-- Every character is printable. -/
def isPrintable (t : Text) : Bool := t.all Rfc9651.printable

theorem isPrintable_append (s t : Text) :
    isPrintable (s ++ t) = (isPrintable s && isPrintable t) := by
  simp [isPrintable]

theorem isPrintable_cons {c : UInt16} {t : Text} :
    isPrintable (c :: t) ↔ Rfc9651.printable c ∧ isPrintable t := by
  simp [isPrintable]

theorem isAscii_of_isPrintable {t : Text} (h : isPrintable t) : isAscii t := by
  simp only [isPrintable, isAscii, List.all_eq_true, decide_eq_true_eq] at h ⊢
  intro c hc
  have := h c hc
  simp only [Rfc9651.printable, Bool.and_eq_true, decide_eq_true_eq] at this
  grind

theorem isPrintable_of_forall {p : UInt16 → Bool} {t : Text}
    (hp : ∀ c, p c → Rfc9651.printable c) (h : ∀ c ∈ t, p c) : isPrintable t := by
  simp only [isPrintable, List.all_eq_true]
  exact fun c hc => hp c (h c hc)

theorem keyRest_printable {c : UInt16} (h : keyRest c) : Rfc9651.printable c := by
  simp only [keyRest, keyFirst, digit, Bool.or_eq_true, Bool.and_eq_true, decide_eq_true_eq,
    beq_iff_eq] at h
  rw [printable_iff]
  grind

theorem keyRest_of_keyFirst {c : UInt16} (h : keyFirst c) : keyRest c := by
  simp [keyRest, h]

theorem keyPattern_iff {k : Text} :
    Writer.keyPattern k ↔ (∃ c ∈ k.head?, keyFirst c) ∧ ∀ c ∈ k, keyRest c := by
  cases k with
  | nil => simp [Writer.keyPattern]
  | cons c k =>
    simp only [Writer.keyPattern, Bool.and_eq_true, List.all_eq_true, List.head?_cons,
      Option.mem_def, Option.some.injEq, exists_eq_left', List.forall_mem_cons]
    exact ⟨fun h => ⟨h.1, keyRest_of_keyFirst h.1, h.2⟩, fun h => ⟨h.1, h.2.2⟩⟩

/-- A key that is written is a key of the grammar in front of what does not extend it. -/
theorem Writer.key_wrote {seen : List Text} {k : Text} {w w' : Writer}
    (h : w.key L seen k = .ok w') :
    Wrote L w k 0 w' ∧ isPrintable k ∧ k.length ≤ L.get .maxKeyLength ∧ k ∉ seen ∧
      ∀ {rest}, StartsWithout Rfc9651.keyChar rest → Rfc9651.Key (k ++ rest) k rest := by
  simp only [key, reserve, bind_eq_ok, Limits.check_eq_ok, require_eq_ok, exists_const] at h
  obtain ⟨hlen, hpattern, hseen, -, h⟩ := h
  obtain ⟨hfirst, hrest⟩ := keyPattern_iff.mp hpattern
  exact ⟨append_wrote h, isPrintable_of_forall (fun _ => keyRest_printable) hrest, hlen, hseen,
    fun hr => ⟨rfl, hfirst, hrest, hr⟩⟩

theorem tokenRest_printable {c : UInt16} (h : tokenRest c) : Rfc9651.printable c := by
  have hspecial : ∀ d ∈ ascii "!#$%&'*+-.^_`|~:/", Rfc9651.printable d :=
    List.all_eq_true.mp (by decide)
  simp only [tokenRest, alpha, digit, Bool.or_eq_true, Bool.and_eq_true, decide_eq_true_eq,
    List.contains_iff_mem] at h
  rcases h with h | h
  · rw [printable_iff]
    grind
  · exact hspecial c h

theorem tokenRest_of_first {c : UInt16} (h : alpha c || c == 42) : tokenRest c := by
  rcases Bool.or_eq_true_iff.mp h with h | h
  · simp [tokenRest, h]
  · rw [eq_of_beq h]
    decide

theorem tokenPattern_iff {t : Text} :
    Writer.tokenPattern t ↔ (∃ c ∈ t.head?, alpha c || c == 42) ∧ ∀ c ∈ t, tokenRest c := by
  cases t with
  | nil => simp [Writer.tokenPattern]
  | cons c t =>
    simp only [Writer.tokenPattern, Bool.and_eq_true, List.all_eq_true, List.head?_cons,
      Option.mem_def, Option.some.injEq, exists_eq_left', List.forall_mem_cons]
    exact ⟨fun h => ⟨h.1, tokenRest_of_first h.1, h.2⟩, fun h => ⟨h.1, h.2.2⟩⟩

/-! ## Numbers -/

theorem canonical_eq_integer {n : Number} {z : ℤ} :
    n.canonical = .integer z ↔ n.toInt? = some z := by
  cases n <;> simp [Number.canonical, Number.toInt?]

theorem Writer.integer_eq_ok {n : Number} {z : ℤ} :
    integer n = .ok z ↔ n.canonical = .integer z ∧ z.natAbs ≤ 999999999999999 := by
  rw [canonical_eq_integer, integer, Number.safeInteger?]
  cases n.toInt? with
  | none => simp [fail]
  | some z' =>
    by_cases hsafe : z'.natAbs ≤ maxSafeInteger
    · simp only [Option.filter, hsafe, decide_true, if_true, bind_eq_ok, require_eq_ok,
        exists_const, pure_eq_ok, Option.some.injEq]
      constructor <;> (rintro ⟨h, h'⟩; subst_vars; simp_all)
    · simp only [Option.filter, hsafe, decide_false, Bool.false_eq_true, if_false, fail,
        reduceCtorEq, false_iff, Option.some.injEq, not_and]
      rintro rfl h
      exact hsafe (h.trans (by decide))

theorem digit_of_mem_decimal {n : ℕ} {c : UInt16} (h : c ∈ decimal n) : digit c := by
  simpa [digit] using bounds_of_mem_decimal h

theorem digit_printable {c : UInt16} (h : digit c) : Rfc9651.printable c := by
  simp only [digit, Bool.and_eq_true, decide_eq_true_eq] at h
  rw [printable_iff]
  grind

theorem length_decimal_pos (n : ℕ) : 1 ≤ (decimal n).length :=
  List.length_pos_iff.mpr (decimal_ne_nil n)

theorem applySign_natAbs (z : ℤ) : Rfc9651.applySign (z < 0) z.natAbs = z := by
  unfold Rfc9651.applySign
  split <;> rename_i h <;> simp only [decide_eq_true_eq] at h <;> omega

theorem sign_eq (z : ℤ) : (if z < 0 then [45] else []) = Rfc9651.sign (z < 0) := by
  simp [Rfc9651.sign]

theorem integerText_spec {z : ℤ} {rest : Text} (hz : z.natAbs ≤ 999999999999999)
    (hrest : StartsWithout (fun c => Rfc9651.DIGIT c || c == 0x2e) rest) :
    Rfc9651.Integer (Writer.integerText z ++ rest) z rest := by
  refine ⟨z < 0, decimal z.natAbs, ?_, fun c => digit_of_mem_decimal, length_decimal_pos _,
    (length_decimal_le_iff (by omega)).mpr (by omega), hrest, ?_⟩
  · rw [Writer.integerText, sign_eq]
  · rw [readDigits_decimal, applySign_natAbs]

theorem isPrintable_sign (b : Bool) : isPrintable (Rfc9651.sign b) := by cases b <;> rfl

theorem isPrintable_decimal (n : ℕ) : isPrintable (decimal n) :=
  isPrintable_of_forall (fun _ => digit_printable) fun _ => digit_of_mem_decimal

theorem isPrintable_integerText (z : ℤ) : isPrintable (Writer.integerText z) := by
  rw [Writer.integerText, sign_eq, isPrintable_append, isPrintable_sign, isPrintable_decimal]
  rfl

theorem readDigits_replicate (acc k : ℕ) :
    readDigits acc (List.replicate k 48) = acc * 10 ^ k := by
  induction k generalizing acc with
  | zero => simp
  | succ k ih => simp [List.replicate_succ, ih, Nat.pow_succ', Nat.mul_assoc]

/-- The zeros that are dropped at the end of some digits. -/
theorem dropTrailingZeros_append (t : Text) :
    ∃ k, t = Writer.dropTrailingZeros t ++ List.replicate k 48 := by
  refine ⟨(t.reverse.takeWhile (· == 48)).length, ?_⟩
  have h := congrArg List.reverse (List.takeWhile_append_dropWhile (p := (· == 48)) (l := t.reverse))
  rw [List.reverse_append, List.reverse_reverse] at h
  rw [Writer.dropTrailingZeros]
  conv_lhs => rw [← h]
  congr 1
  rw [List.eq_replicate_iff]
  refine ⟨by simp, fun c hc => ?_⟩
  have := List.all_takeWhile (p := (· == 48)) (l := t.reverse)
  simp only [List.all_eq_true, beq_iff_eq] at this
  exact this c (List.mem_reverse.mp hc)

theorem fractionText_spec {n : ℕ} (hn : n < 1000) :
    (∀ c ∈ Writer.fractionText n, digit c) ∧ 1 ≤ (Writer.fractionText n).length ∧
      (Writer.fractionText n).length ≤ 3 ∧
      readDigits 0 (Writer.fractionText n) * 10 ^ (3 - (Writer.fractionText n).length) = n := by
  have hlen : (Writer.padStart (decimal n)).length = 3 := by
    have := (length_decimal_le_iff (n := n) (k := 3) (by omega)).mpr (by omega)
    simp only [Writer.padStart, List.length_append, List.length_replicate]
    omega
  have hdigits : ∀ c ∈ Writer.padStart (decimal n), digit c := by
    intro c hc
    rcases List.mem_append.mp hc with hc | hc
    · rw [List.eq_of_mem_replicate hc]
      decide
    · exact digit_of_mem_decimal hc
  have hvalue : readDigits 0 (Writer.padStart (decimal n)) = n := by
    rw [Writer.padStart, readDigits_append, readDigits_replicate, Nat.zero_mul, readDigits_decimal]
  obtain ⟨k, hk⟩ := dropTrailingZeros_append (Writer.padStart (decimal n))
  unfold Writer.fractionText
  set s := Writer.dropTrailingZeros (Writer.padStart (decimal n))
  rw [hk] at hlen hdigits hvalue
  rw [readDigits_append, readDigits_replicate] at hvalue
  rw [List.length_append, List.length_replicate] at hlen
  by_cases hs : s = []
  · simp only [hs, readDigits_nil, Nat.zero_mul] at hvalue
    subst hvalue
    simp [hs, digit]
  · simp only [if_neg hs]
    refine ⟨fun c hc => hdigits c (by simp [hc]), List.length_pos_iff.mpr hs, by omega, ?_⟩
    rw [show 3 - s.length = k by omega, hvalue]

theorem decimalText_spec {z : ℤ} {rest : Text} (hz : z.natAbs ≤ 999999999999999)
    (hrest : StartsWithout Rfc9651.DIGIT rest) :
    Rfc9651.Decimal (Writer.decimalText z ++ rest) z rest := by
  obtain ⟨hdigits, hpos, hlen, hvalue⟩ := fractionText_spec (Nat.mod_lt z.natAbs (by omega : 1000 > 0))
  refine ⟨z < 0, decimal (z.natAbs / 1000), Writer.fractionText (z.natAbs % 1000), ?_,
    fun c => digit_of_mem_decimal, hdigits, length_decimal_pos _,
    (length_decimal_le_iff (by omega)).mpr (by omega), hpos, hlen, hrest, ?_⟩
  · rw [Writer.decimalText, sign_eq]
    simp
  · rw [hvalue, readDigits_decimal]
    have : z.natAbs / 1000 * 1000 + z.natAbs % 1000 = z.natAbs := by omega
    rw [this, applySign_natAbs]

theorem isPrintable_decimalText (z : ℤ) : isPrintable (Writer.decimalText z) := by
  have hfraction : isPrintable (Writer.fractionText (z.natAbs % 1000)) :=
    isPrintable_of_forall (fun _ => digit_printable)
      (fractionText_spec (Nat.mod_lt z.natAbs (by omega : 1000 > 0))).1
  rw [Writer.decimalText, sign_eq, isPrintable_append, isPrintable_append, isPrintable_sign, isPrintable_decimal,
    Bool.true_and, Bool.true_and, isPrintable_cons]
  exact ⟨by decide, hfraction⟩

/-! ## Strings -/

theorem Writer.measureString_printable {w : Writer} {n : ℕ} {t : Text}
    (h : w.measureString L n t = .ok ()) : ∀ c ∈ t, Rfc9651.printable c := by
  induction t generalizing n with
  | nil => simp
  | cons c t ih =>
    simp only [measureString, reserve, bind_eq_ok, require_eq_ok, Limits.check_eq_ok,
      exists_const] at h
    obtain ⟨hc, -, h⟩ := h
    exact List.forall_mem_cons.mpr ⟨by simpa [Rfc9651.printable] using hc, ih h⟩

theorem escape_spec {t rest : Text} (h : ∀ c ∈ t, Rfc9651.printable c) :
    Rfc9651.StringBody (Writer.escape t ++ 34 :: rest) t rest := by
  induction t with
  | nil => exact .close
  | cons c t ih =>
    obtain ⟨hc, ht⟩ := List.forall_mem_cons.mp h
    rw [Writer.escape, List.flatMap_cons, ← Writer.escape, List.append_assoc]
    split
    · rename_i hq
      exact .escape hq (ih ht)
    · rename_i hq
      exact .char hc (fun h => hq (.inl h)) (fun h => hq (.inr h)) (ih ht)

theorem isPrintable_escape {t : Text} (h : ∀ c ∈ t, Rfc9651.printable c) :
    isPrintable (Writer.escape t) := by
  refine isPrintable_of_forall (fun _ => id) fun c hc => ?_
  obtain ⟨d, hd, hc⟩ := List.mem_flatMap.mp hc
  split at hc
  · rcases List.mem_cons.mp hc with rfl | hc
    · decide
    · rw [List.mem_singleton.mp hc]
      exact h d hd
  · rw [List.mem_singleton.mp hc]
    exact h d hd

theorem Writer.string_wrote {t : Text} {w w' : Writer} (h : w.string L t = .ok w') :
    ∃ s, Wrote L w s 0 w' ∧ isPrintable s ∧ t.length ≤ L.get .maxDecodedBytes ∧
      ∀ {rest}, Rfc9651.Bare (s ++ rest) (.string t) rest := by
  simp only [string, reserve, bind_eq_ok, Limits.check_eq_ok, exists_const] at h
  obtain ⟨hlen, -, _, hmeasure, h⟩ := h
  have hp := measureString_printable hmeasure
  refine ⟨_, append_wrote h, ?_, hlen, ?_⟩
  · rw [isPrintable_cons, isPrintable_append, isPrintable_escape hp]
    exact ⟨by decide, by decide⟩
  · intro rest
    rw [List.cons_append, List.append_assoc]
    exact .string (escape_spec hp)

/-! ## Display strings -/

theorem hexDigit_spec : ∀ n : Fin 16, Rfc9651.lowerHex (Writer.hexDigit n) ∧
    Rfc9651.hexValue (Writer.hexDigit n) = n := by
  decide

theorem lowerHex_hexDigit {n : ℕ} (h : n < 16) : Rfc9651.lowerHex (Writer.hexDigit n) :=
  (hexDigit_spec ⟨n, h⟩).1

theorem hexValue_hexDigit {n : ℕ} (h : n < 16) : Rfc9651.hexValue (Writer.hexDigit n) = n :=
  (hexDigit_spec ⟨n, h⟩).2

theorem printable_octet {b : UInt8} (h : ¬ (b < 32 ∨ 126 < b ∨ b = 34 ∨ b = 37)) :
    Rfc9651.printable b.toUInt16 := by
  simp only [not_or, UInt8.lt_iff_toNat_lt] at h
  rw [printable_iff, UInt16.le_iff_toNat_le, UInt16.le_iff_toNat_le, UInt8.toNat_toUInt16]
  exact ⟨Nat.le_of_not_lt h.1, Nat.le_of_not_lt h.2.1⟩

theorem octetText_spec {octets : List UInt8} {rest : Text} :
    Rfc9651.DisplayBody (octets.flatMap Writer.octetText ++ 34 :: rest) octets rest := by
  induction octets with
  | nil => exact .close
  | cons b octets ih =>
    have hb := b.toNat_lt
    rw [List.flatMap_cons, List.append_assoc, Writer.octetText]
    split
    · have h := Rfc9651.DisplayBody.escape (lowerHex_hexDigit (n := b.toNat / 16) (by omega))
        (lowerHex_hexDigit (n := b.toNat % 16) (by omega)) ih
      rw [hexValue_hexDigit (by omega), hexValue_hexDigit (by omega),
        show b.toNat / 16 * 16 + b.toNat % 16 = b.toNat by omega, UInt8.ofNat_toNat] at h
      exact h
    · rename_i hq
      have hp := printable_octet hq
      simp only [not_or] at hq
      have hne {n : UInt8} (hn : b ≠ n) : b.toUInt16 ≠ n.toUInt16 := by
        intro he
        refine hn (UInt8.toNat_inj.mp ?_)
        simpa using congrArg UInt16.toNat he
      have h := Rfc9651.DisplayBody.char hp (hne hq.2.2.2) (hne hq.2.2.1) ih
      rwa [UInt8.toUInt8_toUInt16] at h

theorem lowerHex_printable {c : UInt16} (h : Rfc9651.lowerHex c) : Rfc9651.printable c := by
  simp only [Rfc9651.lowerHex, Rfc9651.DIGIT, Bool.or_eq_true, Bool.and_eq_true,
    decide_eq_true_eq] at h
  rw [printable_iff]
  grind

theorem isPrintable_octetText (b : UInt8) : isPrintable (Writer.octetText b) := by
  have hb := b.toNat_lt
  unfold Writer.octetText
  split
  · rw [isPrintable_cons, isPrintable_cons, isPrintable_cons]
    exact ⟨by decide, lowerHex_printable (lowerHex_hexDigit (by omega)),
      lowerHex_printable (lowerHex_hexDigit (by omega)), rfl⟩
  · rename_i hq
    exact isPrintable_cons.mpr ⟨printable_octet hq, rfl⟩

theorem isPrintable_flatMap {α : Type} {f : α → Text} (hf : ∀ a, isPrintable (f a)) (l : List α) :
    isPrintable (l.flatMap f) := by
  simp only [isPrintable, List.all_eq_true, List.mem_flatMap] at hf ⊢
  rintro c ⟨a, -, hc⟩
  exact hf a c hc

theorem utf8Length_pair {high low : UInt16} {t : Text} (hh : highSurrogate high)
    (hl : lowSurrogate low) : utf8Length (high :: low :: t) = 4 + utf8Length t :=
  octetCount_pair hh hl

theorem utf8Length_single {c : UInt16} {t : Text} (hh : highSurrogate c = false)
    (hl : lowSurrogate c = false) : utf8Length (c :: t) =
      (if c < 0x80 then 1 else if c < 0x800 then 2 else 3) + utf8Length t :=
  octetCount_single hh hl

/-- A display string that is measured is well formed, and its octets fit. -/
theorem Writer.measureDisplayString_spec {w : Writer} {n k : ℕ} {t : Text}
    (h : w.measureDisplayString L n k t = .ok ()) :
    WellFormed t ∧ (t ≠ [] → n + utf8Length t ≤ L.get .maxDecodedBytes) := by
  have hnil : utf8Length [] = 0 := rfl
  induction n, k, t using measureDisplayString.induct with
  | case1 => exact ⟨.nil, by simp⟩
  | case2 n k high hh low t ih =>
    rw [measureDisplayString.eq_def] at h
    simp only [if_pos hh, reserve, bind_eq_ok, require_eq_ok, Limits.check_eq_ok,
      exists_const] at h
    obtain ⟨hl, hle, -, h⟩ := h
    obtain ⟨hwf, hlen⟩ := ih h
    refine ⟨.pair hh hl hwf, fun _ => ?_⟩
    rw [utf8Length_pair hh hl]
    cases t with
    | nil => omega
    | cons c t => have := hlen (by simp); omega
  | case3 n k high hh =>
    rw [measureDisplayString.eq_def] at h
    simp [hh, fail] at h
  | case4 n k c t hh hl =>
    rw [measureDisplayString.eq_def] at h
    simp [hh, hl, fail] at h
  | case5 n k c t hh hl byteCount encodedSize ih =>
    rw [measureDisplayString.eq_def] at h
    simp only [if_neg hh, if_neg hl, reserve, bind_eq_ok, Limits.check_eq_ok, exists_const] at h
    obtain ⟨hle, -, h⟩ := h
    obtain ⟨hwf, hlen⟩ := ih h
    rw [Bool.not_eq_true] at hh hl
    refine ⟨.single hh hl hwf, fun _ => ?_⟩
    rw [utf8Length_single hh hl]
    change n + byteCount ≤ _ at hle
    change n + (byteCount + _) ≤ _
    cases t with
    | nil => omega
    | cons c t => have := hlen (by simp); omega

theorem Writer.displayString_wrote {t : Text} {w w' : Writer} (h : w.displayString L t = .ok w') :
    ∃ s, Wrote L w s 0 w' ∧ isPrintable s ∧ utf8Length t ≤ L.get .maxDecodedBytes ∧
      ∀ {rest}, Rfc9651.Bare (s ++ rest) (.displayString t) rest := by
  simp only [displayString, reserve, bind_eq_ok, Limits.check_eq_ok, exists_const] at h
  obtain ⟨-, -, _, hmeasure, h⟩ := h
  obtain ⟨hwf, hlen⟩ := measureDisplayString_spec hmeasure
  refine ⟨_, append_wrote h, ?_, ?_, ?_⟩
  · rw [isPrintable_cons, isPrintable_cons, isPrintable_append, isPrintable_flatMap isPrintable_octetText]
    exact ⟨by decide, by decide, by decide⟩
  · cases t with
    | nil => exact Nat.zero_le _
    | cons c t => simpa using hlen (by simp)
  · intro rest
    have h := Rfc9651.Bare.displayString (@octetText_spec _ rest)
      (utf8Decode_utf8Encode (characters t))
    rw [units_characters hwf] at h
    simpa using h

/-! ## Byte sequences -/

theorem base64Char_symbol : ∀ s : Fin 64, Rfc9651.base64Char (Base64.symbol s) := by decide

theorem base64Char_printable {c : UInt16} (h : Rfc9651.base64Char c) : Rfc9651.printable c := by
  simp only [Rfc9651.base64Char, Rfc9651.ALPHA, Rfc9651.DIGIT, Bool.or_eq_true, Bool.and_eq_true,
    decide_eq_true_eq, beq_iff_eq] at h
  rw [printable_iff]
  grind

theorem base64Char_encode {bs : List UInt8} :
    ∀ c ∈ (Base64.encode bs).map Base64.symbol, Rfc9651.base64Char c := by
  intro c hc
  obtain ⟨s, -, rfl⟩ := List.mem_map.mp hc
  exact base64Char_symbol s

theorem padded_spec {bs : List UInt8} {rest : Text} :
    Rfc9651.ByteSequence (58 :: (Base64.padded bs ++ [58]) ++ rest) bs rest := by
  refine ⟨(Base64.encode bs).map Base64.symbol, Base64.padding (Base64.encode bs).length, ?_,
    base64Char_encode, ?_, ?_, Base64.decodeText_encode bs⟩
  · simp [Base64.padded]
  · rw [List.length_map, Base64.length_encode]
    omega
  · rw [List.length_map]

theorem isPrintable_padded (bs : List UInt8) : isPrintable (Base64.padded bs) := by
  rw [Base64.padded, isPrintable_append, isPrintable_of_forall (fun _ => base64Char_printable) base64Char_encode,
    Bool.true_and]
  exact isPrintable_of_forall (p := (· == 61)) (fun c hc => by rw [eq_of_beq hc]; decide)
    (by simp)

/-! ## Bare items -/

/-- `rest` does not extend the text of `b`. -/
def Follows : BareItem → Text → Prop
  | .integer _, rest | .date _, rest => StartsWithout (fun c => Rfc9651.DIGIT c || c == 0x2e) rest
  | .decimal _, rest => StartsWithout Rfc9651.DIGIT rest
  | .token _, rest => StartsWithout Rfc9651.tokenChar rest
  | _, _ => True

/-- **What is written for a bare item is read back as that item, up to `-0`.** -/
theorem Writer.bare_wrote {b : BareItem} {w w' : Writer} (h : w.bare L b = .ok w') :
    ∃ s, Wrote L w s 0 w' ∧ isPrintable s ∧ b.Within L ∧
      ∀ {rest}, Follows b rest → Rfc9651.Bare (s ++ rest) b.canonical rest := by
  cases b with
  | integer n =>
    simp only [bare, bind_eq_ok, integer_eq_ok] at h
    obtain ⟨z, ⟨hz, hle⟩, h⟩ := h
    refine ⟨_, append_wrote h, isPrintable_integerText z, trivial, fun hf => ?_⟩
    rw [BareItem.canonical, hz]
    exact .integer (integerText_spec hle hf)
  | decimal n =>
    simp only [bare, bind_eq_ok, integer_eq_ok] at h
    obtain ⟨z, ⟨hz, hle⟩, h⟩ := h
    refine ⟨_, append_wrote h, isPrintable_decimalText z, trivial, fun hf => ?_⟩
    rw [BareItem.canonical, hz]
    exact .decimal (decimalText_spec hle hf)
  | date n =>
    simp only [bare, bind_eq_ok, integer_eq_ok] at h
    obtain ⟨z, ⟨hz, hle⟩, h⟩ := h
    refine ⟨_, append_wrote h, isPrintable_cons.mpr ⟨by decide, isPrintable_integerText z⟩, trivial,
      fun hf => ?_⟩
    rw [BareItem.canonical, hz]
    exact .date (integerText_spec hle hf)
  | boolean b =>
    refine ⟨_, append_wrote h, by cases b <;> rfl, trivial, fun _ => ?_⟩
    exact .boolean
  | token t =>
    simp only [bare, bind_eq_ok, Limits.check_eq_ok, require_eq_ok, exists_const] at h
    obtain ⟨hlen, hpattern, h⟩ := h
    obtain ⟨hfirst, hrest⟩ := tokenPattern_iff.mp hpattern
    exact ⟨_, append_wrote h, isPrintable_of_forall (fun _ => tokenRest_printable) hrest, hlen,
      fun hf => .token ⟨rfl, hfirst, hrest, hf⟩⟩
  | string t =>
    obtain ⟨s, hs, hascii, hlen, hspec⟩ := string_wrote h
    exact ⟨s, hs, hascii, hlen, fun _ => hspec⟩
  | displayString t =>
    obtain ⟨s, hs, hascii, hlen, hspec⟩ := displayString_wrote h
    exact ⟨s, hs, hascii, hlen, fun _ => hspec⟩
  | bytes bs =>
    simp only [bare, reserve, bind_eq_ok, Limits.check_eq_ok, exists_const] at h
    obtain ⟨hlen, -, h⟩ := h
    refine ⟨_, append_wrote h, ?_, hlen, fun _ => .bytes padded_spec⟩
    rw [isPrintable_cons, isPrintable_append, isPrintable_padded]
    exact ⟨by decide, by decide⟩

end AgentSig.StructuredFields
