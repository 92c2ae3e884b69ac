import AgentSig.StructuredFields.Parser
import AgentSig.StructuredFields.Rfc9651

/-!
# Bare items conform to RFC 9651

Each leaf production of the parser reads what the production of Section 4.2 reads, and
charges what the value it returns is charged. A production that returns has a derivation
whose value is within the limits; a derivation whose value is within the limits is returned.

## Main results

* `key_sound`, `key_complete`: keys
* `bare_sound`, `bare_complete`: bare items
-/

namespace AgentSig.StructuredFields

open Commons

variable {L : Limits}

/-! ## Runs of characters -/

/-- A scan takes the maximal run, and charges its length unless it is empty. -/
theorem scan_eq_ok {limit : LimitName} {p : UInt16 → Bool} {n : ℕ} {t run rest : Text} :
    scan L limit p n t = .ok (run, rest) ↔
      t = run ++ rest ∧ (∀ c ∈ run, p c) ∧ StartsWithout p rest ∧
        (run ≠ [] → n + run.length ≤ L.get limit) := by
  induction t generalizing n run rest with
  | nil =>
    simp only [scan, Except.ok.injEq, Prod.mk.injEq]
    constructor
    · rintro ⟨rfl, rfl⟩
      simp [StartsWithout.nil]
    · rintro ⟨h, -⟩
      simpa [eq_comm] using h
  | cons u t ih =>
    by_cases hu : p u
    · simp only [scan, if_pos hu, bind_eq_ok, Limits.check_eq_ok, exists_const, Prod.exists,
        pure_eq_ok, Prod.mk.injEq, ih]
      constructor
      · rintro ⟨hle, run, rest, ⟨rfl, hrun, hrest, hlen⟩, rfl, rfl⟩
        refine ⟨rfl, by simpa [hu] using hrun, hrest, fun _ => ?_⟩
        cases run with
        | nil => simpa using hle
        | cons d run => simpa [Nat.add_assoc, Nat.add_comm 1] using hlen (by simp)
      · rintro ⟨h, hrun, hrest, hlen⟩
        cases run with
        | nil =>
          subst h
          simp [hu] at hrest
        | cons d run =>
          obtain ⟨rfl, rfl⟩ := List.cons.inj h
          have hlen := hlen (by simp)
          simp only [List.length_cons] at hlen
          refine ⟨by omega, run, rest, ⟨rfl, fun c hc => hrun c (by simp [hc]), hrest, ?_⟩, rfl, rfl⟩
          intro _
          omega
    · simp only [scan, if_neg hu, Except.ok.injEq, Prod.mk.injEq]
      constructor
      · rintro ⟨rfl, rfl⟩
        simp [hu]
      · rintro ⟨h, hrun, -⟩
        cases run with
        | nil => exact ⟨rfl, h⟩
        | cons d run =>
          obtain ⟨rfl, rfl⟩ := List.cons.inj h
          exact absurd (hrun u (by simp)) hu

theorem code_any {c : Cursor} {p : UInt16 → Bool} :
    c.code.any p ↔ ∃ u ∈ c.rest.head?, p u := by
  simp [Cursor.code, Option.any_eq_true]

/-- A key that is read is a key of the grammar, within its limit. -/
theorem key_sound {c c' : Cursor} {k : Text} {s : Span} (h : key L c = .ok ((k, s), c')) :
    Rfc9651.Key c.rest k c'.rest ∧ k.length ≤ L.get .maxKeyLength ∧
      c'.occurrences = c.occurrences := by
  simp only [key, bind_eq_ok, require_eq_ok, exists_const, Prod.exists, pure_eq_ok, Prod.mk.injEq,
    scan_eq_ok] at h
  obtain ⟨hfirst, k, rest, ⟨heq, hk, hrest, hlen⟩, ⟨rfl, -⟩, rfl⟩ := h
  obtain ⟨u, hu, hfirst⟩ := code_any.mp hfirst
  cases k with
  | nil =>
    rw [heq] at hu
    have := hrest u hu
    simp [keyRest, hfirst] at this
  | cons d k =>
    refine ⟨⟨heq, ⟨u, ?_, hfirst⟩, hk, hrest⟩, by simpa using hlen (by simp), rfl⟩
    rw [heq] at hu
    simpa using hu

/-- A key of the grammar that is within its limit is read. -/
theorem key_complete {c : Cursor} {k rest : Text} (h : Rfc9651.Key c.rest k rest)
    (hlen : k.length ≤ L.get .maxKeyLength) :
    ∃ s c', key L c = .ok ((k, s), c') ∧ c'.rest = rest ∧ c'.occurrences = c.occurrences := by
  obtain ⟨heq, ⟨u, hu, hfirst⟩, hk, hrest⟩ := h
  refine ⟨⟨c.position, c.position + k.length⟩, c.moveTo k.length rest, ?_, rfl, rfl⟩
  simp only [key, bind_eq_ok, require_eq_ok, exists_const, Prod.exists, pure_eq_ok, Prod.mk.injEq,
    scan_eq_ok]
  refine ⟨code_any.mpr ⟨u, ?_, hfirst⟩, k, rest, ⟨heq, hk, hrest, fun _ => by simpa using hlen⟩,
    ⟨rfl, rfl⟩, rfl⟩
  rw [heq]
  cases k with
  | nil => simp at hu
  | cons d k => simpa using hu

theorem token_sound {c c' : Cursor} {t : Text} (hfirst : ∃ u ∈ c.rest.head?, alpha u || u == 42)
    (h : token L c = .ok (t, c')) :
    Rfc9651.Token c.rest t c'.rest ∧ t.length ≤ L.get .maxTokenLength ∧
      c'.occurrences = c.occurrences := by
  simp only [token, bind_eq_ok, Prod.exists, pure_eq_ok, Prod.mk.injEq, scan_eq_ok] at h
  obtain ⟨t, rest, ⟨heq, ht, hrest, hlen⟩, rfl, rfl⟩ := h
  obtain ⟨u, hu, hfirst⟩ := hfirst
  cases t with
  | nil =>
    rw [heq] at hu
    have := hrest u hu
    rcases Bool.or_eq_true_iff.mp hfirst with h | h
    · simp [tokenRest, h] at this
    · rw [eq_of_beq h] at this
      exact absurd this (by decide)
  | cons d t =>
    refine ⟨⟨heq, ⟨u, ?_, hfirst⟩, ht, hrest⟩, by simpa using hlen (by simp), rfl⟩
    rw [heq] at hu
    simpa using hu

theorem token_complete {c : Cursor} {t rest : Text} (h : Rfc9651.Token c.rest t rest)
    (hlen : t.length ≤ L.get .maxTokenLength) :
    ∃ c', token L c = .ok (t, c') ∧ c'.rest = rest ∧ c'.occurrences = c.occurrences := by
  obtain ⟨heq, -, ht, hrest⟩ := h
  refine ⟨c.moveTo t.length rest, ?_, rfl, rfl⟩
  simp only [token, bind_eq_ok, Prod.exists, pure_eq_ok, Prod.mk.injEq, scan_eq_ok]
  exact ⟨t, rest, ⟨heq, ht, hrest, fun _ => by simpa using hlen⟩, rfl, rfl⟩

/-! ## Numbers -/

/-- A digit loop takes the maximal run of digits, at most `max` of them. -/
theorem digitLoop_eq_ok {max start n v n' v' : ℕ} {t rest : Text} :
    digitLoop max start n v t = .ok (n', v', rest) ↔
      ∃ ds, t = ds ++ rest ∧ (∀ c ∈ ds, digit c) ∧ StartsWithout digit rest ∧
        (ds ≠ [] → n' ≤ max) ∧ n' = n + ds.length ∧ v' = readDigits v ds := by
  induction t generalizing n v with
  | nil =>
    simp only [digitLoop, Except.ok.injEq, Prod.mk.injEq]
    constructor
    · rintro ⟨rfl, rfl, rfl⟩
      exact ⟨[], by simp [StartsWithout.nil]⟩
    · rintro ⟨ds, h, -, -, -, rfl, rfl⟩
      obtain ⟨rfl, rfl⟩ := List.nil_eq_append_iff.mp h
      simp
  | cons u t ih =>
    by_cases hu : digit u
    · simp only [digitLoop, if_pos hu, bind_eq_ok, require_eq_ok, exists_const, ih]
      constructor
      · rintro ⟨hlt, ds, rfl, hds, hrest, hmax, rfl, rfl⟩
        refine ⟨u :: ds, rfl, by simpa [hu] using hds, hrest, fun _ => ?_, by simp; omega, by simp⟩
        cases ds with
        | nil => exact hlt
        | cons d ds => exact hmax (by simp)
      · rintro ⟨ds, h, hds, hrest, hmax, rfl, rfl⟩
        cases ds with
        | nil =>
          subst h
          simp [hu] at hrest
        | cons d ds =>
          obtain ⟨rfl, rfl⟩ := List.cons.inj h
          have hmax := hmax (by simp)
          simp only [List.length_cons] at hmax
          exact ⟨by omega, ds, rfl, fun c hc => hds c (by simp [hc]), hrest,
            fun _ => by simp only [List.length_cons]; omega, by simp; omega, by simp⟩
    · simp only [digitLoop, if_neg hu, Except.ok.injEq, Prod.mk.injEq]
      constructor
      · rintro ⟨rfl, rfl, rfl⟩
        exact ⟨[], by simp [hu]⟩
      · rintro ⟨ds, h, hds, -, -, rfl, rfl⟩
        cases ds with
        | nil => exact ⟨rfl, rfl, h⟩
        | cons d ds =>
          obtain ⟨rfl, rfl⟩ := List.cons.inj h
          exact absurd (hds u (by simp)) hu

/-- The production of a number of the grammar. -/
def Numeric.Spec : Numeric → Text → Text → Prop
  | .integer z, input, rest => Rfc9651.Integer input z rest
  | .decimal z, input, rest => Rfc9651.Decimal input z rest

theorem signed_eq_applySign (negative : Bool) (n : ℕ) :
    signed negative n = Rfc9651.applySign negative n := rfl

/-- The cursor after an optional sign. -/
theorem rest_sign (c : Cursor) : c.rest =
    Rfc9651.sign (c.code = some 45) ++ (if c.code = some 45 then c.next else c).rest := by
  by_cases hn : c.code = some 45
  · obtain ⟨t, ht⟩ := List.head?_eq_some_iff.mp hn
    simp [hn, Rfc9651.sign, Cursor.next, Cursor.moveTo, ht]
  · simp [hn, Rfc9651.sign]

theorem number_sound {c c' : Cursor} {v : Numeric} (h : number c = .ok (v, c')) :
    v.Spec c.rest c'.rest ∧ c'.occurrences = c.occurrences := by
  have hsign := rest_sign c
  simp only [number, bind_eq_ok, require_eq_ok, exists_const, Prod.exists, digitLoop_eq_ok] at h
  set c₁ := if c.code = some 45 then c.next else c with hc₁
  have hocc : c₁.occurrences = c.occurrences := by
    rw [hc₁]
    split <;> rfl
  obtain ⟨hfirst, n, v₁, rest, ⟨ds, heq, hds, hrest, hmax, rfl, rfl⟩, h⟩ := h
  obtain ⟨u, hu, hfirst⟩ := code_any.mp hfirst
  have hne : ds ≠ [] := by
    rintro rfl
    rw [heq] at hu
    exact absurd hfirst (Bool.eq_false_iff.mp (hrest u hu))
  have hpos : 1 ≤ ds.length := List.length_pos_iff.mpr hne
  have hmax := hmax hne
  rw [heq] at hsign
  split at h
  · rename_i hpoint
    simp only [bind_eq_ok, require_eq_ok, exists_const, Prod.exists, digitLoop_eq_ok,
      pure_eq_ok, Prod.mk.injEq] at h
    obtain ⟨hwhole, m, v₂, rest₂, ⟨fs, heq₂, hfs, hrest₂, hmax₂, rfl, rfl⟩, hdigits, rfl, rfl⟩ := h
    obtain ⟨t, ht⟩ := List.head?_eq_some_iff.mp hpoint
    simp only [Cursor.moveTo, Cursor.next] at ht heq₂
    rw [ht, List.tail_cons] at heq₂
    simp only [Nat.zero_add] at hdigits hmax₂ hwhole
    refine ⟨⟨c.code = some 45, ds, fs, ?_, hds, hfs, hpos, hwhole, by omega, ?_, hrest₂, ?_⟩, hocc⟩
    · rw [hsign, ht, heq₂, List.append_assoc]
      rfl
    · exact hmax₂ (by rintro rfl; simp at hdigits)
    · simp only [Nat.zero_add]
      rfl
  · rename_i hpoint
    simp only [pure_eq_ok, Prod.mk.injEq] at h
    obtain ⟨rfl, rfl⟩ := h
    refine ⟨⟨c.code = some 45, ds, ?_, hds, hpos, by omega, ?_, rfl⟩, hocc⟩
    · rw [hsign, List.append_assoc]
      rfl
    · intro d hd
      refine Bool.or_eq_false_iff.mpr ⟨hrest d hd, ?_⟩
      rw [beq_eq_false_iff_ne]
      rintro rfl
      exact hpoint hd

/-- The digits that follow an optional sign, and whether there is a sign. -/
theorem sign_append {negative : Bool} {ds t : Text} {c : Cursor} (hds : ∀ d ∈ ds, digit d)
    (hne : ds ≠ []) (h : c.rest = Rfc9651.sign negative ++ (ds ++ t)) :
    decide (c.code = some 45) = negative ∧
      (if c.code = some 45 then c.next else c).rest = ds ++ t := by
  cases negative with
  | true => simp [Cursor.code, Cursor.next, Cursor.moveTo, h, Rfc9651.sign]
  | false =>
    obtain ⟨d, ds', rfl⟩ := List.exists_cons_of_ne_nil hne
    have hd : d ≠ 45 := by
      rintro rfl
      exact absurd (hds 45 (by simp)) (by decide)
    simp [Cursor.code, h, Rfc9651.sign, hd]

theorem head_digit {ds t : Text} {c : Cursor} (hds : ∀ d ∈ ds, digit d) (hne : ds ≠ [])
    (h : c.rest = ds ++ t) : c.code.any digit := by
  obtain ⟨d, ds', rfl⟩ := List.exists_cons_of_ne_nil hne
  simp [Cursor.code, h, hds d (by simp)]

theorem number_complete {c : Cursor} {v : Numeric} {rest : Text} (h : v.Spec c.rest rest) :
    ∃ c', number c = .ok (v, c') ∧ c'.rest = rest ∧ c'.occurrences = c.occurrences := by
  set c₁ := if c.code = some 45 then c.next else c with hc₁
  have hocc : c₁.occurrences = c.occurrences := by
    rw [hc₁]
    split <;> rfl
  cases v with
  | integer z =>
    obtain ⟨negative, ds, heq, hds, hpos, hmax, hrest, rfl⟩ := h
    have hne : ds ≠ [] := List.length_pos_iff.mp hpos
    obtain ⟨hneg, hrest₁⟩ := sign_append hds hne (by rw [heq, List.append_assoc])
    rw [← hc₁] at hrest₁
    refine ⟨c₁.moveTo ds.length rest, ?_, rfl, hocc⟩
    have hpoint : (c₁.moveTo ds.length rest).code ≠ some 46 := fun hp => by
      simpa using hrest 46 hp
    simp only [number, ← hc₁, bind_eq_ok, require_eq_ok, exists_const, Prod.exists,
      digitLoop_eq_ok]
    refine ⟨head_digit hds hne hrest₁, ds.length, _, rest,
      ⟨ds, hrest₁, hds, hrest.mono (by simp +contextual [digit, Rfc9651.DIGIT]), fun _ => hmax,
        by simp, rfl⟩, ?_⟩
    rw [if_neg hpoint, hneg, signed_eq_applySign]
    rfl
  | decimal z =>
    obtain ⟨negative, ds, fs, heq, hds, hfs, hpos, hmax, hpos', hmax', hrest, rfl⟩ := h
    have hne : ds ≠ [] := List.length_pos_iff.mp hpos
    obtain ⟨hneg, hrest₁⟩ := sign_append hds hne (by rw [heq, List.append_assoc])
    rw [← hc₁] at hrest₁
    refine ⟨(c₁.moveTo ds.length (46 :: (fs ++ rest))).next.moveTo fs.length rest, ?_, rfl, hocc⟩
    simp only [number, ← hc₁, bind_eq_ok, require_eq_ok, exists_const, Prod.exists,
      digitLoop_eq_ok]
    refine ⟨head_digit hds hne hrest₁, ds.length, _, 46 :: (fs ++ rest),
      ⟨ds, hrest₁, hds, by simp [digit], fun _ => by omega, by simp, rfl⟩, ?_⟩
    rw [if_pos (show (c₁.moveTo ds.length (46 :: (fs ++ rest))).code = some 46 from rfl)]
    simp only [bind_eq_ok, require_eq_ok, exists_const, Prod.exists, digitLoop_eq_ok, pure_eq_ok,
      Prod.mk.injEq]
    refine ⟨hmax, fs.length, _, rest, ⟨fs, rfl, hfs, hrest, fun _ => hmax', by simp, rfl⟩,
      by omega, ?_, rfl⟩
    rw [hneg, signed_eq_applySign]

/-! ## Strings -/

theorem stringLoop_sound {p n p' : ℕ} {t output rest : Text}
    (h : stringLoop L p n t = .ok (output, p', rest)) :
    Rfc9651.StringBody t output rest ∧
      (output ≠ [] → n + output.length ≤ L.get .maxDecodedBytes) := by
  induction p, n, t using stringLoop.induct generalizing output p' with
  | case1 => simp [stringLoop] at h
  | case2 p n t =>
    rw [stringLoop.eq_def] at h
    simp only [if_true, Except.ok.injEq, Prod.mk.injEq] at h
    obtain ⟨rfl, -, rfl⟩ := h
    exact ⟨.close, by simp⟩
  | case3 p n v t _ ih =>
    rw [stringLoop.eq_def] at h
    simp only [if_neg (show ¬ (92 : UInt16) = 34 by decide), if_true, bind_eq_ok, require_eq_ok,
      Limits.check_eq_ok, exists_const, Prod.exists, pure_eq_ok, Prod.mk.injEq] at h
    obtain ⟨hv, hle, output, p', rest, h, rfl, rfl, rfl⟩ := h
    obtain ⟨hbody, hlen⟩ := ih h
    refine ⟨.escape hv hbody, fun _ => ?_⟩
    cases output with
    | nil => exact hle
    | cons d output => simpa [Nat.add_assoc, Nat.add_comm 1] using hlen (by simp)
  | case4 => simp [stringLoop] at h
  | case5 p n u t hu hu' ih =>
    rw [stringLoop.eq_def] at h
    simp only [if_neg hu, if_neg hu', bind_eq_ok, require_eq_ok, Limits.check_eq_ok,
      exists_const, Prod.exists, pure_eq_ok, Prod.mk.injEq] at h
    obtain ⟨hp, hle, output, p', rest, h, rfl, rfl, rfl⟩ := h
    obtain ⟨hbody, hlen⟩ := ih h
    refine ⟨.char (by simpa [Rfc9651.printable] using hp) hu hu' hbody, fun _ => ?_⟩
    cases output with
    | nil => exact hle
    | cons d output => simpa [Nat.add_assoc, Nat.add_comm 1] using hlen (by simp)

theorem stringLoop_complete {n : ℕ} {t output rest : Text} (h : Rfc9651.StringBody t output rest)
    (hlen : n + output.length ≤ L.get .maxDecodedBytes) (p : ℕ) :
    ∃ p', stringLoop L p n t = .ok (output, p', rest) := by
  induction h generalizing n p with
  | close =>
    refine ⟨p + 1, ?_⟩
    rw [stringLoop.eq_def]
    rfl
  | @escape c input output rest hc _ ih =>
    simp only [List.length_cons] at hlen
    obtain ⟨p', h⟩ := ih (n := n + 1) (by omega) (p + 2)
    refine ⟨p', ?_⟩
    simp only [stringLoop, if_neg (show ¬ (92 : UInt16) = 34 by decide), if_true, require_of hc,
      Limits.check_of_le (show n + 1 ≤ L.get .maxDecodedBytes by omega), h, ok_bind]
    rfl
  | @char c input output rest hc h₁ h₂ _ ih =>
    simp only [List.length_cons] at hlen
    obtain ⟨p', h⟩ := ih (n := n + 1) (by omega) (p + 1)
    have hc : 32 ≤ c ∧ c ≤ 126 := by simpa [Rfc9651.printable] using hc
    refine ⟨p', ?_⟩
    rw [stringLoop.eq_def]
    simp only [if_neg h₁, if_neg h₂, require_of hc,
      Limits.check_of_le (show n + 1 ≤ L.get .maxDecodedBytes by omega), h, ok_bind]
    rfl

/-! ## Byte sequences -/

theorem base64Char_ne {c : UInt16} (h : Rfc9651.base64Char c) : c ≠ 58 ∧ c ≠ 61 := by
  constructor <;> rintro rfl <;> exact absurd h (by decide)

/-- The loop takes symbols and then pads, up to a colon or the end. -/
theorem bytesLoop_sound {p n k n' k' : ℕ} {t run rest : Text}
    (h : bytesLoop L p n k t = .ok (run, n', k', rest)) :
    ∃ symbols pads, run = symbols ++ List.replicate pads 0x3d ∧ t = run ++ rest ∧
      (∀ c ∈ symbols, Rfc9651.base64Char c) ∧ n' = n + symbols.length ∧ k' = k + pads ∧
      (k ≠ 0 → symbols = []) ∧ StartsWithout (· ≠ 58) rest ∧
      (symbols ≠ [] → n' * 6 / 8 ≤ L.get .maxDecodedBytes) := by
  induction p, n, k, t using bytesLoop.induct generalizing run with
  | case1 p n k =>
    simp only [bytesLoop, Except.ok.injEq, Prod.mk.injEq] at h
    obtain ⟨rfl, rfl, rfl, rfl⟩ := h
    exact ⟨[], 0, by simp [StartsWithout.nil]⟩
  | case2 p n k t =>
    simp only [bytesLoop, if_true, Except.ok.injEq, Prod.mk.injEq] at h
    obtain ⟨rfl, rfl, rfl, rfl⟩ := h
    exact ⟨[], 0, by simp⟩
  | case3 p n k t _ ih =>
    simp only [bytesLoop, if_neg (show ¬ (61 : UInt16) = 58 by decide), if_true, bind_eq_ok,
      require_eq_ok, exists_const, Prod.exists, pure_eq_ok, Prod.mk.injEq] at h
    obtain ⟨-, run, n', k', rest, h, rfl, rfl, rfl, rfl⟩ := h
    obtain ⟨symbols, pads, rfl, rfl, hs, rfl, rfl, hk, hrest, -⟩ := ih h
    obtain rfl := hk (by omega)
    exact ⟨[], pads + 1, by simp [List.replicate_succ], by simp, by simp, by simp, by omega,
      by simp, hrest, by simp⟩
  | case4 p n k u t hu hu' ih =>
    simp only [bytesLoop, if_neg hu, if_neg hu', bind_eq_ok, require_eq_ok, Limits.check_eq_ok,
      exists_const, Prod.exists, pure_eq_ok, Prod.mk.injEq] at h
    obtain ⟨⟨rfl, hc⟩, hle, run, n', k', rest, h, rfl, rfl, rfl, rfl⟩ := h
    obtain ⟨symbols, pads, rfl, rfl, hs, rfl, rfl, -, hrest, hlen⟩ := ih h
    refine ⟨u :: symbols, pads, rfl, rfl, ?_, by simp; omega, rfl, by simp, hrest, fun _ => ?_⟩
    · intro c hc'
      rcases List.mem_cons.mp hc' with rfl | hc'
      · exact hc
      · exact hs c hc'
    · cases symbols with
      | nil => exact hle
      | cons d symbols => exact hlen (by simp)

theorem bytesLoop_complete {n pads : ℕ} {symbols t : Text}
    (hs : ∀ c ∈ symbols, Rfc9651.base64Char c) (hpads : pads ≤ 2)
    (hlen : (n + symbols.length) * 6 / 8 ≤ L.get .maxDecodedBytes) (p : ℕ) :
    bytesLoop L p n 0 (symbols ++ List.replicate pads 0x3d ++ 0x3a :: t) =
      .ok (symbols ++ List.replicate pads 0x3d, n + symbols.length, pads, 0x3a :: t) := by
  have hpad : ∀ (j k p n : ℕ), k + j ≤ 2 →
      bytesLoop L p n k (List.replicate j 0x3d ++ 0x3a :: t) =
        .ok (List.replicate j 0x3d, n, k + j, 0x3a :: t) := by
    intro j
    induction j with
    | zero => intro k p n _; simp [bytesLoop]
    | succ j ih =>
      intro k p n hk
      simp only [List.replicate_succ, List.cons_append, bytesLoop,
        if_neg (show ¬ (61 : UInt16) = 58 by decide), if_true,
        require_of (show k + 1 ≤ 2 by omega), ih (k + 1) (p + 1) n (by omega), ok_bind]
      rw [Nat.add_right_comm, Nat.add_assoc]
      rfl
  induction symbols generalizing n p with
  | nil => simpa using hpad pads 0 p n (by omega)
  | cons c symbols ih =>
    have hc := hs c (by simp)
    simp only [List.length_cons] at hlen
    have h := ih (n := n + 1) (fun d hd => hs d (by simp [hd])) (by omega) (p + 1)
    have hne := base64Char_ne hc
    simp only [List.cons_append, bytesLoop, if_neg hne.1, if_neg hne.2,
      Limits.check_of_le (show (n + 1) * 6 / 8 ≤ L.get .maxDecodedBytes by omega), h, ok_bind]
    rw [require_of ⟨trivial, hc⟩, ok_bind, List.length_cons, Nat.add_assoc, Nat.add_comm 1]
    rfl

theorem sextet_isSome {c : UInt16} (h : Rfc9651.base64Char c) :
    (Base64.sextet c).isSome := by
  simp only [Rfc9651.base64Char, Rfc9651.ALPHA, Rfc9651.DIGIT, Bool.or_eq_true, Bool.and_eq_true,
    decide_eq_true_eq, beq_iff_eq] at h
  unfold Base64.sextet
  grind

theorem mapM_sextet {t : Text} (h : ∀ c ∈ t, Rfc9651.base64Char c) :
    ∃ ss, t.mapM Base64.sextet = some ss ∧ ss.length = t.length := by
  induction t with
  | nil => exact ⟨[], rfl, rfl⟩
  | cons c t ih =>
    obtain ⟨s, hs⟩ := Option.isSome_iff_exists.mp (sextet_isSome (h c (by simp)))
    obtain ⟨ss, hss, hlen⟩ := ih fun d hd => h d (by simp [hd])
    exact ⟨s :: ss, by simp [List.mapM_cons, hs, hss], by simp [hlen]⟩

theorem decodeText_symbols {t : Text} (h : ∀ c ∈ t, Rfc9651.base64Char c) :
    ∃ bs, Base64.decodeText t = some bs ∧ bs.length = t.length * 6 / 8 := by
  obtain ⟨ss, hss, hlen⟩ := mapM_sextet h
  exact ⟨Base64.decode ss, by simp [Base64.decodeText, hss], by rw [Base64.length_decode, hlen]⟩

theorem bufferFromBase64_eq {symbols : Text} {pads : ℕ} {bs : List UInt8}
    (h : ∀ c ∈ symbols, Rfc9651.base64Char c) (hbs : Base64.decodeText symbols = some bs) :
    bufferFromBase64 (symbols ++ List.replicate pads 0x3d) = bs := by
  have hrun : (symbols ++ List.replicate pads 0x3d).takeWhile (· ≠ 61) = symbols := by
    refine takeWhile_run (fun c hc => by simpa using (base64Char_ne (h c hc)).2) ?_
    cases pads <;> simp [StartsWithout.nil, List.replicate_succ]
  rw [bufferFromBase64, hrun, hbs, Option.getD_some]

theorem bytes_sound {c c' : Cursor} {bs : List UInt8} (hcolon : c.code = some 58)
    (h : bytes L c = .ok (bs, c')) :
    Rfc9651.ByteSequence c.rest bs c'.rest ∧ bs.length ≤ L.get .maxDecodedBytes ∧
      c'.occurrences = c.occurrences := by
  obtain ⟨t, ht⟩ := List.head?_eq_some_iff.mp hcolon
  simp only [bytes, bind_eq_ok, require_eq_ok, exists_const, Prod.exists, pure_eq_ok,
    Prod.mk.injEq] at h
  obtain ⟨run, n, k, rest, h, hend, ⟨hmod, hpads⟩, rfl, rfl⟩ := h
  obtain ⟨symbols, pads, rfl, heq, hs, rfl, rfl, -, -, hlen⟩ := bytesLoop_sound h
  obtain ⟨bs, hbs, hlen'⟩ := decodeText_symbols hs
  obtain ⟨t', rfl⟩ := List.head?_eq_some_iff.mp hend
  rw [bufferFromBase64_eq hs hbs]
  simp only [Nat.zero_add] at hmod hpads hlen
  refine ⟨⟨symbols, pads, ?_, hs, hmod, hpads, hbs⟩, ?_, rfl⟩
  · simp only [Cursor.next, Cursor.moveTo, ht, List.tail_cons] at heq
    rw [ht, heq]
    simp [Cursor.next, Cursor.moveTo]
  · rw [hlen']
    cases symbols with
    | nil => simp
    | cons d symbols => exact hlen (by simp)

theorem bytes_complete {c : Cursor} {bs : List UInt8} {rest : Text}
    (h : Rfc9651.ByteSequence c.rest bs rest) (hlen : bs.length ≤ L.get .maxDecodedBytes) :
    ∃ c', bytes L c = .ok (bs, c') ∧ c'.rest = rest ∧ c'.occurrences = c.occurrences := by
  obtain ⟨symbols, pads, heq, hs, hmod, hpads, hbs⟩ := h
  obtain ⟨bs', hbs', hlen'⟩ := decodeText_symbols hs
  obtain rfl : bs' = bs := by simpa [hbs'] using hbs
  rw [hlen'] at hlen
  have hpads' : pads ≤ 2 := by
    rw [Base64.padding] at hpads
    omega
  have hloop := bytesLoop_complete (n := 0) (t := rest) hs hpads' (by simpa using hlen)
    c.next.position
  have hnext : c.next.rest = symbols ++ List.replicate pads 0x3d ++ 0x3a :: rest := by
    simp [Cursor.next, Cursor.moveTo, heq]
  refine ⟨(c.next.moveTo (symbols ++ List.replicate pads 0x3d).length (0x3a :: rest)).next,
    ?_, rfl, rfl⟩
  simp only [bytes, hnext, hloop, ok_bind, bind_eq_ok, require_eq_ok, exists_const, pure_eq_ok,
    Prod.mk.injEq, Nat.zero_add]
  exact ⟨rfl, ⟨hmod, hpads⟩, bufferFromBase64_eq hs hbs, trivial⟩

/-! ## Display strings -/

theorem nibble_eq_hexValue {c : UInt16} (h : Rfc9651.lowerHex c) :
    nibble c = Rfc9651.hexValue c := by
  simp only [Rfc9651.lowerHex, Rfc9651.DIGIT, Bool.or_eq_true, Bool.and_eq_true,
    decide_eq_true_eq, UInt16.le_iff_toNat_le] at h
  simp only [nibble, Rfc9651.hexValue, Rfc9651.DIGIT, Bool.and_eq_true, decide_eq_true_eq,
    UInt16.le_iff_toNat_le]
  simp only [UInt16.reduceToNat] at h ⊢
  split <;> split <;> omega

theorem displayLoop_sound {p n p' : ℕ} {t rest : Text} {octets : List UInt8}
    (h : displayLoop L p n t = .ok (octets, p', rest)) :
    Rfc9651.DisplayBody t octets rest ∧
      (octets ≠ [] → n + octets.length ≤ L.get .maxDecodedBytes) := by
  induction p, n, t using displayLoop.induct generalizing octets p' with
  | case1 => simp [displayLoop] at h
  | case2 p n t =>
    rw [displayLoop.eq_def] at h
    simp only [if_true, Except.ok.injEq, Prod.mk.injEq] at h
    obtain ⟨rfl, -, rfl⟩ := h
    exact ⟨.close, by simp⟩
  | case3 p n u t hu hp =>
    rw [displayLoop.eq_def] at h
    simp [hu, hp] at h
  | case4 p n x y t hu hp ih =>
    rw [displayLoop.eq_def] at h
    simp only [if_neg hu, if_neg hp, if_true, bind_eq_ok, require_eq_ok, Limits.check_eq_ok,
      exists_const, Prod.exists, pure_eq_ok, Prod.mk.injEq, Bool.and_eq_true] at h
    obtain ⟨⟨hx, hy⟩, hle, octets, p', rest, h, rfl, rfl, rfl⟩ := h
    obtain ⟨hbody, hlen⟩ := ih h
    rw [nibble_eq_hexValue hx, nibble_eq_hexValue hy]
    refine ⟨.escape hx hy hbody, fun _ => ?_⟩
    cases octets with
    | nil => exact hle
    | cons d octets => simpa [Nat.add_assoc, Nat.add_comm 1] using hlen (by simp)
  | case5 p n t ht hu hp =>
    rw [displayLoop.eq_def] at h
    rcases t with _ | ⟨x, _ | ⟨y, t⟩⟩
    · simp at h
    · simp at h
    · exact (ht x y t rfl).elim
  | case6 p n u t hu hp hu' ih =>
    rw [displayLoop.eq_def] at h
    simp only [if_neg hu, if_neg hp, if_neg hu', bind_eq_ok, Limits.check_eq_ok,
      exists_const, Prod.exists, pure_eq_ok, Prod.mk.injEq] at h
    obtain ⟨hle, octets, p', rest, h, rfl, rfl, rfl⟩ := h
    obtain ⟨hbody, hlen⟩ := ih h
    refine ⟨.char (by simpa [Rfc9651.printable] using hp) hu' hu hbody, fun _ => ?_⟩
    cases octets with
    | nil => exact hle
    | cons d octets => simpa [Nat.add_assoc, Nat.add_comm 1] using hlen (by simp)

theorem displayLoop_complete {n : ℕ} {t rest : Text} {octets : List UInt8}
    (h : Rfc9651.DisplayBody t octets rest)
    (hlen : n + octets.length ≤ L.get .maxDecodedBytes) (p : ℕ) :
    ∃ p', displayLoop L p n t = .ok (octets, p', rest) := by
  induction h generalizing n p with
  | close =>
    refine ⟨p + 1, ?_⟩
    rw [displayLoop.eq_def]
    rfl
  | @escape x y input octets rest hx hy _ ih =>
    simp only [List.length_cons] at hlen
    obtain ⟨p', h⟩ := ih (n := n + 1) (by omega) (p + 3)
    refine ⟨p', ?_⟩
    have hxy : hex x && hex y := Bool.and_eq_true_iff.mpr ⟨hx, hy⟩
    rw [displayLoop.eq_def]
    simp only [if_neg (show ¬ (37 : UInt16) = 34 by decide),
      if_neg (show ¬ ¬ ((32 : UInt16) ≤ 37 ∧ (37 : UInt16) ≤ 126) by decide), if_true,
      require_of hxy, Limits.check_of_le (show n + 1 ≤ L.get .maxDecodedBytes by omega), h, ok_bind,
      nibble_eq_hexValue hx, nibble_eq_hexValue hy]
    rfl
  | @char c input octets rest hc h₁ h₂ _ ih =>
    simp only [List.length_cons] at hlen
    obtain ⟨p', h⟩ := ih (n := n + 1) (by omega) (p + 1)
    have hc : ¬ ¬ (32 ≤ c ∧ c ≤ 126) := by simpa [Rfc9651.printable] using hc
    refine ⟨p', ?_⟩
    rw [displayLoop.eq_def]
    simp only [if_neg h₁, if_neg h₂, if_neg hc,
      Limits.check_of_le (show n + 1 ≤ L.get .maxDecodedBytes by omega), h, ok_bind]
    rfl

theorem utf8Length_units {octets : List UInt8} {cs : List Char} (h : utf8Decode octets = some cs) :
    utf8Length (units cs) = octets.length := by
  rw [utf8Length, characters_units, utf8Encode_of_utf8Decode h]

theorem string_sound {c c' : Cursor} {t : Text} (hquote : c.code = some 34)
    (h : string L c = .ok (t, c')) :
    Rfc9651.Bare c.rest (.string t) c'.rest ∧ t.length ≤ L.get .maxDecodedBytes ∧
      c'.occurrences = c.occurrences := by
  obtain ⟨s, hs⟩ := List.head?_eq_some_iff.mp hquote
  simp only [string, bind_eq_ok, Prod.exists, pure_eq_ok, Prod.mk.injEq] at h
  obtain ⟨t, p', rest, h, rfl, rfl⟩ := h
  obtain ⟨hbody, hlen⟩ := stringLoop_sound h
  rw [hs]
  rw [hs, List.tail_cons] at hbody
  refine ⟨.string hbody, ?_, rfl⟩
  cases t with
  | nil => simp
  | cons d t => simpa using hlen (by simp)

theorem displayString_sound {c c' : Cursor} {t : Text} (hpercent : c.code = some 37)
    (h : displayString L c = .ok (t, c')) :
    Rfc9651.Bare c.rest (.displayString t) c'.rest ∧ utf8Length t ≤ L.get .maxDecodedBytes ∧
      c'.occurrences = c.occurrences := by
  obtain ⟨s, hs⟩ := List.head?_eq_some_iff.mp hpercent
  simp only [displayString, bind_eq_ok, require_eq_ok, exists_const, Prod.exists] at h
  obtain ⟨hquote, octets, p', rest, h, hdecode⟩ := h
  simp only [Cursor.next, Cursor.moveTo, Cursor.code, hs, List.tail_cons] at hquote h
  obtain ⟨s', rfl⟩ := List.head?_eq_some_iff.mp hquote
  obtain ⟨hbody, hlen⟩ := displayLoop_sound h
  split at hdecode
  · rename_i cs hcs
    simp only [pure_eq_ok, Prod.mk.injEq] at hdecode
    obtain ⟨rfl, rfl⟩ := hdecode
    rw [hs]
    refine ⟨.displayString hbody hcs, ?_, rfl⟩
    rw [utf8Length_units hcs]
    cases octets with
    | nil => simp
    | cons d octets => simpa using hlen (by simp)
  · simp at hdecode

/-! ## Bare items -/

/-- A bare item that is read is one of the grammar, within its limit. -/
theorem bare_sound {c c' : Cursor} {b : RawBareItem} (h : bare L c = .ok (b, c')) :
    Rfc9651.Bare c.rest b.value c'.rest ∧ b.value.Within L ∧ c'.occurrences = c.occurrences := by
  simp only [bare, bind_eq_ok, Prod.exists, pure_eq_ok, Prod.mk.injEq] at h
  obtain ⟨v, c', h, rfl, rfl⟩ := h
  unfold bareBranch at h
  split at h
  · simp [Cursor.fail] at h
  · rename_i u hu
    obtain ⟨s, hs⟩ := List.head?_eq_some_iff.mp hu
    split_ifs at h with h₁ h₂ h₃ h₄ h₅ h₆ h₇
    · simp only [bind_eq_ok, Prod.exists, pure_eq_ok, Prod.mk.injEq] at h
      obtain ⟨v, c', h, rfl, rfl⟩ := h
      obtain ⟨hspec, hocc⟩ := number_sound h
      cases v with
      | integer z => exact ⟨.integer hspec, trivial, hocc⟩
      | decimal z => exact ⟨.decimal hspec, trivial, hocc⟩
    · simp only [bind_eq_ok, Prod.exists, pure_eq_ok, Prod.mk.injEq] at h
      obtain ⟨v, c', h, rfl, rfl⟩ := h
      exact string_sound (h₂ ▸ hu) h
    · simp only [bind_eq_ok, Prod.exists, pure_eq_ok, Prod.mk.injEq] at h
      obtain ⟨v, c', h, rfl, rfl⟩ := h
      obtain ⟨hspec, hlen, hocc⟩ := token_sound ⟨u, hu, h₃⟩ h
      exact ⟨.token hspec, hlen, hocc⟩
    · simp only [bind_eq_ok, Prod.exists, pure_eq_ok, Prod.mk.injEq] at h
      obtain ⟨v, c', h, rfl, rfl⟩ := h
      obtain ⟨hspec, hlen, hocc⟩ := bytes_sound (h₄ ▸ hu) h
      exact ⟨.bytes hspec, hlen, hocc⟩
    · simp only [bind_eq_ok, require_eq_ok, exists_const, pure_eq_ok, Prod.mk.injEq] at h
      obtain ⟨hdigit, rfl, rfl⟩ := h
      subst h₅
      simp only [Cursor.next, Cursor.moveTo, Cursor.code, hs, List.tail_cons] at hdigit ⊢
      rcases hdigit with h | h <;> obtain ⟨t, rfl⟩ := List.head?_eq_some_iff.mp h
      · exact ⟨.boolean (b := false), trivial, trivial⟩
      · exact ⟨.boolean (b := true), trivial, trivial⟩
    · simp only [bind_eq_ok, Prod.exists] at h
      obtain ⟨v, c', hv, h⟩ := h
      obtain ⟨hspec, hocc⟩ := number_sound hv
      cases v with
      | integer z =>
        simp only [pure_eq_ok, Prod.mk.injEq] at h
        obtain ⟨rfl, rfl⟩ := h
        subst h₆
        simp only [Cursor.next, Cursor.moveTo, hs, List.tail_cons] at hspec
        rw [hs]
        exact ⟨.date hspec, trivial, hocc⟩
      | decimal z => simp [Cursor.fail] at h
    · simp only [bind_eq_ok, Prod.exists, pure_eq_ok, Prod.mk.injEq] at h
      obtain ⟨v, c', h, rfl, rfl⟩ := h
      exact displayString_sound (h₇ ▸ hu) h
    · simp [Cursor.fail] at h

theorem number_first {c : Cursor} {v : Numeric} {rest : Text} (h : v.Spec c.rest rest) :
    ∃ u, c.code = some u ∧ (digit u || u == 45) := by
  have key : ∀ {negative : Bool} {ds t : Text}, (∀ d ∈ ds, digit d) → 1 ≤ ds.length →
      c.rest = Rfc9651.sign negative ++ (ds ++ t) → ∃ u, c.code = some u ∧ (digit u || u == 45) := by
    intro negative ds t hds hpos heq
    cases negative with
    | true => exact ⟨45, by simp [Cursor.code, heq, Rfc9651.sign], by decide⟩
    | false =>
      obtain ⟨d, ds', rfl⟩ := List.exists_cons_of_ne_nil (List.length_pos_iff.mp hpos)
      exact ⟨d, by simp [Cursor.code, heq, Rfc9651.sign], by simp [hds d (by simp)]⟩
  cases v with
  | integer z =>
    obtain ⟨negative, ds, heq, hds, hpos, -⟩ := h
    exact key hds hpos (by rw [heq, List.append_assoc])
  | decimal z =>
    obtain ⟨negative, ds, fs, heq, hds, -, hpos, -⟩ := h
    exact key hds hpos (by rw [heq, List.append_assoc])

theorem tokenFirst_excludes {u : UInt16} (h : Rfc9651.ALPHA u || u == 0x2a) :
    (digit u || u == 45) = false ∧ u ≠ 34 := by
  simp only [Rfc9651.ALPHA, Bool.or_eq_true, Bool.and_eq_true, decide_eq_true_eq, beq_iff_eq] at h
  simp only [digit, Bool.or_eq_false_iff, Bool.and_eq_false_iff, decide_eq_false_iff_not,
    beq_eq_false_iff_ne]
  grind

theorem bareBranch_number {c : Cursor} {v : Numeric} {rest : Text} (h : v.Spec c.rest rest) :
    ∃ c', bareBranch L c = .ok (v.bare, c') ∧ c'.rest = rest ∧ c'.occurrences = c.occurrences := by
  obtain ⟨u, hu, hdigit⟩ := number_first h
  obtain ⟨c', hc', hrest, hocc⟩ := number_complete h
  refine ⟨c', ?_, hrest, hocc⟩
  simp only [bareBranch, hu, if_pos hdigit, hc', ok_bind]
  rfl

theorem bareBranch_complete {c : Cursor} {v : BareItem} {rest : Text}
    (h : Rfc9651.Bare c.rest v rest) (hw : v.Within L) :
    ∃ c', bareBranch L c = .ok (v, c') ∧ c'.rest = rest ∧ c'.occurrences = c.occurrences := by
  obtain ⟨p, input, o⟩ := c
  change Rfc9651.Bare input v rest at h
  cases h with
  | integer h => exact bareBranch_number (v := .integer _) h
  | decimal h => exact bareBranch_number (v := .decimal _) h
  | @string input value rest h =>
    have hlen : 0 + value.length ≤ L.get .maxDecodedBytes := by
      rw [Nat.zero_add]
      exact hw
    obtain ⟨p', h⟩ := stringLoop_complete h hlen (p + 1)
    refine ⟨⟨p', rest, o⟩, ?_, rfl, rfl⟩
    simp [bareBranch, Cursor.code, digit, string, h, pure, Except.pure]
  | @token input value rest h =>
    obtain ⟨c', hc', hrest, hocc⟩ := token_complete (c := ⟨p, input, o⟩) h hw
    refine ⟨c', ?_, hrest, hocc⟩
    obtain ⟨rfl, ⟨u, hu, hfirst⟩, -, -⟩ := h
    have hcode : Cursor.code ⟨p, value ++ rest, o⟩ = some u := by
      cases value with
      | nil => simp at hu
      | cons d value => simpa [Cursor.code] using hu
    obtain ⟨h₁, h₂⟩ := tokenFirst_excludes hfirst
    simp only [bareBranch, hcode, h₁, if_neg h₂, Bool.false_eq_true, if_false, hc', ok_bind]
    rw [if_pos (show alpha u || u == 42 from hfirst)]
    rfl
  | bytes h =>
    obtain ⟨c', hc', hrest, hocc⟩ := bytes_complete (c := ⟨p, input, o⟩) h hw
    refine ⟨c', ?_, hrest, hocc⟩
    obtain ⟨symbols, pads, rfl, -⟩ := h
    simp only [bareBranch, Cursor.code, List.head?_cons, hc']
    rfl
  | @boolean b rest =>
    refine ⟨⟨p + 2, rest, o⟩, ?_, rfl, rfl⟩
    cases b <;> simp [bareBranch, Cursor.code, Cursor.next, Cursor.moveTo, digit, alpha, require, pure, Except.pure]
  | @date input z rest h =>
    obtain ⟨c', hc', hrest, hocc⟩ := number_complete (c := ⟨p + 1, input, o⟩) (v := .integer z) h
    refine ⟨c', ?_, hrest, hocc⟩
    have hnext : Cursor.next ⟨p, 64 :: input, o⟩ = ⟨p + 1, input, o⟩ := rfl
    simp [bareBranch, Cursor.code, digit, alpha, hnext, hc', pure, Except.pure]
  | @displayString input octets cs rest h hcs =>
    have hlen : 0 + octets.length ≤ L.get .maxDecodedBytes := by
      rw [Nat.zero_add, ← utf8Length_units hcs]
      exact hw
    obtain ⟨p', h⟩ := displayLoop_complete h hlen (p + 2)
    refine ⟨⟨p', rest, o⟩, ?_, rfl, rfl⟩
    simp [bareBranch, Cursor.code, Cursor.next, Cursor.moveTo, digit, alpha, displayString, require,
      h, hcs, pure, Except.pure]

/-- A bare item of the grammar that is within its limit is read. -/
theorem bare_complete {c : Cursor} {v : BareItem} {rest : Text} (h : Rfc9651.Bare c.rest v rest)
    (hw : v.Within L) :
    ∃ b c', bare L c = .ok (b, c') ∧ b.value = v ∧ c'.rest = rest ∧
      c'.occurrences = c.occurrences := by
  obtain ⟨c', hc', hrest, hocc⟩ := bareBranch_complete h hw
  exact ⟨⟨⟨c.position, c'.position⟩, v⟩, c', by simp [bare, hc', pure, Except.pure], rfl, hrest, hocc⟩

end AgentSig.StructuredFields
