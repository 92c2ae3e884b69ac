import Mathlib.Algebra.GroupWithZero.Nat
import Mathlib.Data.List.TakeWhile
import Mathlib.Tactic.Common

/-!
# Texts

A text is a sequence of UTF-16 code units, as `charCodeAt` reads it. A scanner takes a
maximal run of units with a property, so a scanned text splits in one way only: into the
run and a remainder that starts with no such unit.

## Main definitions

* `Text`, `ascii`: texts, and the text of an ASCII literal
* `StartsWithout p t`: `t` does not start with a unit that satisfies `p`
* `Terminated c l`: `l` is a line that ends with `c`
* `asciiOctets t`: the octets of an ASCII text
* `decimal n`, `readDigits`: the decimal digits of a number, and the number of some digits

## Main results

* `takeWhile_run`, `dropWhile_run`: scanning takes exactly the maximal run
* `flatten_append_inj`: lines are determined by their concatenation
* `readDigits_decimal`: the digits of a number read back as that number
-/

namespace Commons

/-- A text: its UTF-16 code units in order. -/
abbrev Text := List UInt16

/-- Equal texts are the same text. -/
instance lawfulBEqText : LawfulBEq Text := inferInstance

/-- The units of a text are tried, not all units: `UInt16` is finite, but large. -/
instance {p : UInt16 → Prop} [DecidablePred p] (t : Text) : Decidable (∀ c ∈ t, p c) :=
  List.decidableBAll p t

instance decidableForallUnit {p : UInt16 → Prop} [DecidablePred p] (c : Option UInt16) :
    Decidable (∀ d ∈ c, p d) :=
  Option.decidableForallMem c

/-- The code unit of an ASCII character. -/
def unit (c : Char) : UInt16 := UInt16.ofNat c.toNat

/-- The text of an ASCII literal. -/
def ascii (s : String) : Text := s.toList.map unit

/-- Every code unit is at most 127. -/
def isAscii (t : Text) : Bool := t.all (· ≤ 127)

theorem isAscii_append (s t : Text) : isAscii (s ++ t) = (isAscii s && isAscii t) := by
  simp [isAscii]

/-- The octets of a text in UTF-8, if it is ASCII. -/
def asciiOctets (t : Text) : List UInt8 := t.map fun c => .ofNat c.toNat

/-- An ASCII text is determined by its octets. -/
theorem asciiOctets_inj {s t : Text} (hs : isAscii s) (ht : isAscii t)
    (h : asciiOctets s = asciiOctets t) : s = t := by
  induction s generalizing t with
  | nil =>
    cases t with
    | nil => rfl
    | cons d t => simp [asciiOctets] at h
  | cons c s ih =>
    cases t with
    | nil => simp [asciiOctets] at h
    | cons d t =>
      simp only [isAscii, List.all_cons, Bool.and_eq_true, decide_eq_true_eq,
        UInt16.le_iff_toNat_le] at hs ht
      obtain ⟨hcd, htail⟩ := List.cons.inj h
      have hcd : c.toNat = d.toNat := by
        have hnat := congrArg UInt8.toNat hcd
        have hc : c.toNat ≤ 127 := hs.1
        have hd : d.toNat ≤ 127 := ht.1
        simp only [UInt8.toNat_ofNat'] at hnat
        omega
      rw [UInt16.toNat_inj.mp hcd, ih hs.2 ht.2 htail]

/-! ## Maximal runs -/

section Runs

variable {α : Type} {p : α → Bool}

/-- `t` is empty or starts with a unit outside `p`. -/
def StartsWithout (p : α → Bool) (t : List α) : Prop := ∀ c ∈ t.head?, p c = false

theorem StartsWithout.nil : StartsWithout p [] := by simp [StartsWithout]

@[simp] theorem startsWithout_cons {c : α} {t : List α} :
    StartsWithout p (c :: t) ↔ p c = false := by
  simp [StartsWithout]

theorem startsWithout_dropWhile (t : List α) : StartsWithout p (t.dropWhile p) := by
  intro c hc
  have := List.head?_dropWhile_not p t
  rw [hc] at this
  simpa using this

theorem StartsWithout.mono {q : α → Bool} {t : List α} (h : StartsWithout q t)
    (hpq : ∀ c, p c → q c) : StartsWithout p t := by
  intro c hc
  have := h c hc
  exact Bool.eq_false_iff.mpr fun hp => Bool.eq_false_iff.mp this (hpq c hp)

theorem takeWhile_run {run rest : List α} (hrun : ∀ c ∈ run, p c)
    (hrest : StartsWithout p rest) : (run ++ rest).takeWhile p = run := by
  rw [List.takeWhile_append_of_pos hrun]
  cases rest with
  | nil => simp
  | cons c t => simp [startsWithout_cons.mp hrest]

theorem dropWhile_run {run rest : List α} (hrun : ∀ c ∈ run, p c)
    (hrest : StartsWithout p rest) : (run ++ rest).dropWhile p = rest := by
  rw [List.dropWhile_append_of_pos hrun]
  cases rest with
  | nil => simp
  | cons c t => simp [startsWithout_cons.mp hrest]

theorem dropWhile_of_startsWithout {t : List α} (h : StartsWithout p t) : t.dropWhile p = t := by
  simpa using dropWhile_run (List.forall_mem_nil _) h

end Runs

/-! ## Terminated lines -/

section Lines

variable {α : Type} {c : α}

/-- A line: it ends with `c`, and has no other `c`. -/
def Terminated (c : α) (l : List α) : Prop := ∃ s, l = s ++ [c] ∧ c ∉ s

/-- A text splits at its first `c` in one way only. -/
theorem append_cons_inj {s s' t t' : List α} (hs : c ∉ s) (hs' : c ∉ s')
    (h : s ++ c :: t = s' ++ c :: t') : s = s' ∧ t = t' := by
  induction s generalizing s' with
  | nil =>
    cases s' with
    | nil => exact ⟨rfl, (List.cons.inj h).2⟩
    | cons d s' =>
      obtain ⟨rfl, -⟩ := List.cons.inj h
      exact absurd List.mem_cons_self hs'
  | cons d s ih =>
    cases s' with
    | nil =>
      obtain ⟨rfl, -⟩ := List.cons.inj h
      exact absurd List.mem_cons_self hs
    | cons d' s' =>
      obtain ⟨rfl, htail⟩ := List.cons.inj h
      obtain ⟨rfl, rfl⟩ := ih (fun hc => hs (List.mem_cons_of_mem _ hc))
        (fun hc => hs' (List.mem_cons_of_mem _ hc)) htail
      exact ⟨rfl, rfl⟩

/-- Lines, and a remainder that is no line, are determined by their concatenation. -/
theorem flatten_append_inj {ls ls' : List (List α)} {t t' : List α}
    (hls : ∀ l ∈ ls, Terminated c l) (hls' : ∀ l ∈ ls', Terminated c l) (ht : c ∉ t) (ht' : c ∉ t')
    (h : ls.flatten ++ t = ls'.flatten ++ t') : ls = ls' ∧ t = t' := by
  induction ls generalizing ls' with
  | nil =>
    cases ls' with
    | nil => exact ⟨rfl, h⟩
    | cons l ls' =>
      obtain ⟨s, rfl, -⟩ := hls' l (by simp)
      rw [List.flatten_nil, List.nil_append] at h
      exact absurd (by simp [h]) ht
  | cons l ls ih =>
    obtain ⟨⟨s, rfl, hs⟩, hrest⟩ := List.forall_mem_cons.mp hls
    cases ls' with
    | nil =>
      rw [List.flatten_nil, List.nil_append] at h
      exact absurd (by simp [← h]) ht'
    | cons l ls' =>
      obtain ⟨⟨s', rfl, hs'⟩, hrest'⟩ := List.forall_mem_cons.mp hls'
      simp only [List.flatten_cons, List.append_assoc, List.singleton_append] at h
      obtain ⟨rfl, htail⟩ := append_cons_inj hs hs' h
      obtain ⟨rfl, rfl⟩ := ih hrest hrest' htail
      exact ⟨rfl, rfl⟩

end Lines

/-! ## Decimal digits -/

/-- The decimal digits of `n`, most significant first. -/
def decimal (n : ℕ) : Text := (Nat.toDigits 10 n).map unit

/-- The number written by the digits of a text, continuing from `acc`. -/
def readDigits (acc : ℕ) (t : Text) : ℕ := t.foldl (fun a c => a * 10 + (c.toNat - 48)) acc

@[simp] theorem readDigits_nil (acc : ℕ) : readDigits acc [] = acc := rfl

@[simp] theorem readDigits_cons (acc : ℕ) (c : UInt16) (t : Text) :
    readDigits acc (c :: t) = readDigits (acc * 10 + (c.toNat - 48)) t := List.foldl_cons ..

theorem readDigits_append (acc : ℕ) (s t : Text) :
    readDigits acc (s ++ t) = readDigits (readDigits acc s) t := by
  simp [readDigits]

theorem toNat_unit {c : Char} (h : c.toNat < 65536) : (unit c).toNat = c.toNat := by
  rw [unit, UInt16.toNat_ofNat', Nat.mod_eq_of_lt h]

theorem isDigit_bounds {c : Char} (h : c.isDigit) : 48 ≤ c.toNat ∧ c.toNat ≤ 57 := by
  simp only [Char.isDigit, Bool.and_eq_true, decide_eq_true_eq, UInt32.le_iff_toNat_le] at h
  exact h

theorem bounds_of_mem_decimal {n : ℕ} {c : UInt16} (h : c ∈ decimal n) : 48 ≤ c ∧ c ≤ 57 := by
  obtain ⟨d, hd, rfl⟩ := List.mem_map.mp h
  have hb := isDigit_bounds (Nat.isDigit_of_mem_toDigits (by omega) (by omega) hd)
  rw [UInt16.le_iff_toNat_le, UInt16.le_iff_toNat_le, toNat_unit (by omega)]
  exact hb

theorem decimal_ne_nil (n : ℕ) : decimal n ≠ [] := by
  simp [decimal, Nat.toDigits_ne_nil]

theorem length_decimal_le_iff {n k : ℕ} (hk : 0 < k) : (decimal n).length ≤ k ↔ n < 10 ^ k := by
  rw [decimal, List.length_map, Nat.length_toDigits_le_iff (by omega) hk]

theorem readDigits_map_unit {l : List Char} (h : ∀ c ∈ l, c.isDigit) (acc : ℕ) :
    readDigits acc (l.map unit) = Nat.ofDigitChars 10 l acc := by
  induction l generalizing acc with
  | nil => rfl
  | cons c l ih =>
    have hc := isDigit_bounds (h c (by simp))
    rw [List.map_cons, readDigits_cons, Nat.ofDigitChars_cons, toNat_unit (by omega),
      ih (fun d hd => h d (by simp [hd])), Nat.mul_comm]
    rfl

/-- The digits of a number read back as that number. -/
theorem readDigits_decimal (n : ℕ) : readDigits 0 (decimal n) = n := by
  rw [decimal, readDigits_map_unit fun c hc => Nat.isDigit_of_mem_toDigits (by omega) (by omega) hc,
    Nat.ofDigitChars_toDigits (by omega) (by omega)]

theorem readDigits_lt {t : Text} (h : ∀ c ∈ t, 48 ≤ c ∧ c ≤ 57) (acc : ℕ) :
    readDigits acc t < (acc + 1) * 10 ^ t.length := by
  induction t generalizing acc with
  | nil => simp
  | cons c t ih =>
    have hc := h c (by simp)
    simp only [UInt16.le_iff_toNat_le] at hc
    have hstep : acc * 10 + (c.toNat - 48) + 1 ≤ (acc + 1) * 10 := by
      have : c.toNat ≤ 57 := hc.2
      omega
    calc readDigits acc (c :: t)
        < (acc * 10 + (c.toNat - 48) + 1) * 10 ^ t.length :=
          ih (fun d hd => h d (by simp [hd])) _
      _ ≤ (acc + 1) * 10 * 10 ^ t.length := Nat.mul_le_mul_right _ hstep
      _ = (acc + 1) * 10 ^ (c :: t).length := by
          rw [List.length_cons, Nat.pow_succ', Nat.mul_assoc]

end Commons
