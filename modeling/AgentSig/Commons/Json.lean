import AgentSig.Commons.Text
import Mathlib.Tactic.IntervalCases

/-!
# JSON texts of strings

The JSON text of a string, and of an array of strings, as `JSON.stringify` writes them. A unit that
must be escaped is written as an escape of two or six units, every other unit as itself, so a
written unit can be read back whatever follows it. Lone surrogates, which are escaped too, are left
out: the strings that are encoded are ASCII.

## Main definitions

* `escapeUnit`, `readUnit`: the text of one unit of a string, and its reader
* `quote`: the text of a string
* `stringify`: the text of an array of strings

## Main results

* `quote_append_inj`: a string is determined by a text that starts with it
* `stringify_injective`: an array of strings is determined by its text
* `length_quote_of_plain`, `length_quote_le`: the length of the text of a string
-/

namespace Commons.Json

/-- The hexadecimal digit of a number below sixteen. -/
def hexDigit (n : ℕ) : UInt16 := .ofNat (if n < 10 then 48 + n else 87 + n)

/-- The number of a hexadecimal digit. -/
def hexValue (c : UInt16) : ℕ := if c < 58 then c.toNat - 48 else c.toNat - 87

/-- The escapes of two units: a unit and the letter of its escape. -/
def shortEscapes : List (UInt16 × UInt16) :=
  [(8, 98), (9, 116), (10, 110), (12, 102), (13, 114), (34, 34), (92, 92)]

/-- The text of one unit of a string. -/
def escapeUnit (c : UInt16) : Text :=
  match shortEscapes.lookup c with
  | some letter => [92, letter]
  | none =>
    if c < 32 then ascii "\\u00" ++ [hexDigit (c.toNat / 16), hexDigit (c.toNat % 16)]
    else [c]

/-- Read one unit of a string, up to the quotation mark that ends it. -/
def readUnit : Text → Option (UInt16 × Text)
  | 92 :: 117 :: 48 :: 48 :: high :: low :: rest =>
    some (.ofNat (hexValue high * 16 + hexValue low), rest)
  | 92 :: letter :: rest => ((shortEscapes.map Prod.swap).lookup letter).map (·, rest)
  | 34 :: _ => none
  | c :: rest => some (c, rest)
  | [] => none

/-- The text of a string. -/
def quote (t : Text) : Text := 34 :: t.flatMap escapeUnit ++ [34]

/-- The strings that follow the first one of an array, and its end. -/
def following : List Text → Text
  | [] => [93]
  | t :: ts => 44 :: quote t ++ following ts

/-- The text of an array of strings. -/
def stringify : List Text → Text
  | [] => [91, 93]
  | t :: ts => 91 :: quote t ++ following ts

/-! ## Reading -/

/-- The units that an escape starts with, and every other unit. -/
theorem escapeUnit_cases (c : UInt16) :
    c.toNat < 32 ∨ c = 34 ∨ c = 92 ∨ (escapeUnit c = [c] ∧ c ≠ 34 ∧ c ≠ 92) := by
  by_cases hlow : c.toNat < 32
  · exact .inl hlow
  · by_cases h34 : c = 34
    · exact .inr (.inl h34)
    · by_cases h92 : c = 92
      · exact .inr (.inr (.inl h92))
      · refine .inr (.inr (.inr ⟨?_, h34, h92⟩))
        have hlt : ¬ c < 32 := by rwa [UInt16.lt_iff_toNat_lt]
        have hescaped : ∀ p ∈ shortEscapes, p.1.toNat < 32 ∨ p.1 = 34 ∨ p.1 = 92 := by
          simp only [shortEscapes, List.forall_mem_cons, List.not_mem_nil, false_implies, implies_true]
          decide
        have hlookup : shortEscapes.lookup c = none := by
          refine List.lookup_eq_none_iff.mpr fun p hp => bne_iff_ne.mpr ?_
          rintro rfl
          rcases hescaped p hp with h | h | h
          · exact hlow h
          · exact h34 h
          · exact h92 h
        simp [escapeUnit, hlookup, hlt]

/-- Reading a unit inverts writing it, whatever follows. -/
theorem readUnit_escapeUnit (c : UInt16) (rest : Text) :
    readUnit (escapeUnit c ++ rest) = some (c, rest) := by
  rcases escapeUnit_cases c with h | rfl | rfl | ⟨h, h34, h92⟩
  · obtain ⟨n, hn, rfl⟩ : ∃ n, n < 32 ∧ c = UInt16.ofNat n := ⟨c.toNat, h, by simp⟩
    interval_cases n <;> rfl
  · rfl
  · rfl
  · rw [h, List.singleton_append]
    unfold readUnit
    split
    · rename_i heq
      exact absurd (List.cons.inj heq).1 h92
    · rename_i heq
      exact absurd (List.cons.inj heq).1 h92
    · rename_i heq
      exact absurd (List.cons.inj heq).1 h34
    · rename_i heq
      obtain ⟨rfl, rfl⟩ := List.cons.inj heq
      rfl
    · simp at *

theorem readUnit_quote (rest : Text) : readUnit (34 :: rest) = none := rfl

/-- A string is determined by a text that starts with it. -/
theorem flatMap_escapeUnit_inj {s t r r' : Text}
    (h : s.flatMap escapeUnit ++ 34 :: r = t.flatMap escapeUnit ++ 34 :: r') : s = t ∧ r = r' := by
  induction s generalizing t with
  | nil =>
    cases t with
    | nil => exact ⟨rfl, (List.cons.inj h).2⟩
    | cons d t =>
      have hread := congrArg readUnit h
      simp [List.flatMap_cons, readUnit_escapeUnit, readUnit_quote] at hread
  | cons c s ih =>
    cases t with
    | nil =>
      have hread := congrArg readUnit h
      simp [List.flatMap_cons, readUnit_escapeUnit, readUnit_quote] at hread
    | cons d t =>
      have hread := congrArg readUnit h
      simp only [List.flatMap_cons, List.append_assoc, readUnit_escapeUnit, Option.some.injEq,
        Prod.mk.injEq] at hread
      obtain ⟨rfl, hrest⟩ := hread
      obtain ⟨rfl, rfl⟩ := ih hrest
      exact ⟨rfl, rfl⟩

theorem quote_append_inj {s t r r' : Text} (h : quote s ++ r = quote t ++ r') : s = t ∧ r = r' := by
  simp only [quote, List.cons_append, List.append_assoc, List.nil_append, List.cons.injEq,
    true_and] at h
  exact flatMap_escapeUnit_inj h

theorem following_inj {ss ts : List Text} (h : following ss = following ts) : ss = ts := by
  induction ss generalizing ts with
  | nil =>
    cases ts with
    | nil => rfl
    | cons t ts => simp [following] at h
  | cons s ss ih =>
    cases ts with
    | nil => simp [following] at h
    | cons t ts =>
      obtain ⟨-, hrest⟩ := List.cons.inj h
      obtain ⟨rfl, htail⟩ := quote_append_inj hrest
      rw [ih htail]

/-- An array of strings is determined by its text. -/
theorem stringify_injective : Function.Injective stringify := by
  intro ss ts h
  cases ss with
  | nil =>
    cases ts with
    | nil => rfl
    | cons t ts => simp [stringify, quote] at h
  | cons s ss =>
    cases ts with
    | nil => simp [stringify, quote] at h
    | cons t ts =>
      obtain ⟨-, hrest⟩ := List.cons.inj h
      obtain ⟨rfl, htail⟩ := quote_append_inj hrest
      rw [following_inj htail]

/-! ## ASCII texts -/

theorem isAscii_escapeUnit {c : UInt16} (h : c ≤ 127) : isAscii (escapeUnit c) := by
  rcases escapeUnit_cases c with hlow | rfl | rfl | ⟨hplain, -, -⟩
  · obtain ⟨n, hn, rfl⟩ : ∃ n, n < 32 ∧ c = UInt16.ofNat n := ⟨c.toNat, hlow, by simp⟩
    interval_cases n <;> decide
  · decide
  · decide
  · simpa [hplain, isAscii] using h

theorem isAscii_quote {t : Text} (h : isAscii t) : isAscii (quote t) := by
  have hunits : isAscii (t.flatMap escapeUnit) := by
    induction t with
    | nil => rfl
    | cons c t ih =>
      simp only [isAscii, List.all_cons, Bool.and_eq_true, decide_eq_true_eq] at h
      rw [List.flatMap_cons, isAscii_append, isAscii_escapeUnit h.1, ih h.2, Bool.and_self]
  simp only [quote, List.cons_append]
  simpa [isAscii] using hunits

theorem isAscii_following {ts : List Text} (h : ∀ t ∈ ts, isAscii t) : isAscii (following ts) := by
  induction ts with
  | nil => decide
  | cons t ts ih =>
    obtain ⟨ht, hts⟩ := List.forall_mem_cons.mp h
    have := isAscii_quote ht
    have := ih hts
    simp_all [following, isAscii]

/-- The text of an array of ASCII strings is ASCII. -/
theorem isAscii_stringify {ts : List Text} (h : ∀ t ∈ ts, isAscii t) : isAscii (stringify ts) := by
  cases ts with
  | nil => decide
  | cons t ts =>
    obtain ⟨ht, hts⟩ := List.forall_mem_cons.mp h
    have := isAscii_quote ht
    have := isAscii_following hts
    simp_all [stringify, isAscii]

/-! ## Lengths -/

/-- No unit of the string is escaped. -/
def Plain (t : Text) : Prop := ∀ c ∈ t, escapeUnit c = [c]

instance : DecidablePred Plain := fun t => List.decidableBAll (fun c => escapeUnit c = [c]) t

theorem length_quote (t : Text) : (quote t).length = (t.flatMap escapeUnit).length + 2 := by
  simp [quote]

theorem flatMap_escapeUnit_of_plain {t : Text} (h : Plain t) : t.flatMap escapeUnit = t := by
  induction t with
  | nil => rfl
  | cons c t ih =>
    obtain ⟨hc, ht⟩ := List.forall_mem_cons.mp h
    rw [List.flatMap_cons, hc, ih ht, List.singleton_append]

theorem length_quote_of_plain {t : Text} (h : Plain t) : (quote t).length = t.length + 2 := by
  rw [length_quote, flatMap_escapeUnit_of_plain h]

/-- An escape has at most six units, and one of a unit that is no control character at most two. -/
theorem length_escapeUnit_le (c : UInt16) :
    (escapeUnit c).length ≤ 6 ∧ (32 ≤ c → (escapeUnit c).length ≤ 2) := by
  rcases escapeUnit_cases c with h | rfl | rfl | ⟨h, -, -⟩
  · obtain ⟨n, hn, rfl⟩ : ∃ n, n < 32 ∧ c = UInt16.ofNat n := ⟨c.toNat, h, by simp⟩
    interval_cases n <;> decide
  · decide
  · decide
  · simp [h]

/-- The length of the text of a string, whose units have texts of at most `k` units. -/
theorem length_quote_le {t : Text} {k : ℕ} (h : ∀ c ∈ t, (escapeUnit c).length ≤ k) :
    (quote t).length ≤ k * t.length + 2 := by
  rw [length_quote]
  induction t with
  | nil => simp
  | cons c t ih =>
    obtain ⟨hc, ht⟩ := List.forall_mem_cons.mp h
    have := ih ht
    rw [List.flatMap_cons, List.length_append, List.length_cons, Nat.mul_succ]
    omega

end Commons.Json
