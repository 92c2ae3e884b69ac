import AgentSig.Core.Headers

/-!
# Spellings of a field value

Intermediaries add and remove blanks at either end of a field value, and replace line folds by
spaces. A value that has a normal form keeps it: the exceptions are a line break at the end of a
value, which is a fold only as long as a blank follows it, and a fold directly after another fold,
which becomes a part of that fold once it is a space.

## Main definitions

* `Unfolds`: a value and what is left of it in HTTP/1.1, without line breaks
* `Respelled`: a value is spelled in another way

## Main results

* `unfolds_unfoldLines`, `Unfolds.unfoldLines_eq`: the folds are replaced as `Unfolds` says
* `normalizeValue_respelled`: another spelling has the same normal form
-/

namespace AgentSig.Core

open Commons

/-- A value and what is left of it when each of its folds is a space, where no line break is left. -/
inductive Unfolds : Text → Text → Prop
  | nil : Unfolds [] []
  | cons {c : UInt16} {t u : Text} : ¬ control c → Unfolds t u → Unfolds (c :: t) (c :: u)
  | fold {blanks t u : Text} : blanks ≠ [] → (∀ c ∈ blanks, blank c) → StartsWithout blank t →
      Unfolds t u → Unfolds (13 :: 10 :: (blanks ++ t)) (32 :: u)

variable {t t' u blanks : Text} {version : Option HttpVersion}

theorem not_control_of_blank {c : UInt16} (h : blank c) : ¬ control c := by
  simp only [blank, Bool.or_eq_true, beq_iff_eq] at h
  rcases h with rfl | rfl <;> decide

/-- What is no fold stays. -/
theorem unfoldLines_cons {fuel : ℕ} {c : UInt16}
    (h : ∀ d tail, c = 13 → t = 10 :: d :: tail → ¬ blank d) :
    unfoldLines (fuel + 1) (c :: t) = c :: unfoldLines fuel t := by
  by_cases hshape : ∃ d tail, c = 13 ∧ t = 10 :: d :: tail
  · obtain ⟨d, tail, rfl, rfl⟩ := hshape
    rw [unfoldLines, if_neg (h d tail rfl rfl)]
  · rw [unfoldLines]
    intro d tail hc ht
    exact hshape ⟨d, tail, hc, ht⟩

theorem unfoldLines_fold {fuel : ℕ} {d : UInt16} (h : blank d) :
    unfoldLines (fuel + 1) (13 :: 10 :: d :: t) = 32 :: unfoldLines fuel (t.dropWhile blank) := by
  rw [unfoldLines, if_pos h]

/-- The folds are replaced as `Unfolds` says. -/
theorem Unfolds.unfoldLines_eq (h : Unfolds t u) {fuel : ℕ} (hfuel : t.length ≤ fuel) :
    unfoldLines fuel t = u := by
  induction h generalizing fuel with
  | nil => cases fuel <;> rfl
  | @cons c t u hc _ ih =>
    obtain ⟨fuel, rfl⟩ : ∃ n, fuel = n + 1 := ⟨fuel - 1, by simp at hfuel; omega⟩
    have hne : c ≠ 13 := by
      rintro rfl
      exact hc control_of_newline.2
    rw [unfoldLines_cons fun d tail hc => absurd hc hne, ih (by simp at hfuel; omega)]
  | @fold blanks t u hne hblanks hstarts _ ih =>
    obtain ⟨fuel, rfl⟩ : ∃ n, fuel = n + 1 := ⟨fuel - 1, by simp at hfuel; omega⟩
    obtain ⟨d, blanks, rfl⟩ := List.exists_cons_of_ne_nil hne
    obtain ⟨hd, hblanks⟩ := List.forall_mem_cons.mp hblanks
    rw [List.cons_append, unfoldLines_fold hd, dropWhile_run hblanks hstarts,
      ih (by simp at hfuel; omega)]

theorem Unfolds.not_control (h : Unfolds t u) : ∀ c ∈ u, ¬ control c := by
  induction h with
  | nil => simp
  | cons hc _ ih => exact List.forall_mem_cons.mpr ⟨hc, ih⟩
  | fold _ _ _ _ ih => exact List.forall_mem_cons.mpr ⟨by decide, ih⟩

/-- Where no control character is left, the folds are replaced as `Unfolds` says. -/
theorem unfolds_unfoldLines {fuel : ℕ} (hfuel : t.length ≤ fuel)
    (h : ∀ c ∈ unfoldLines fuel t, ¬ control c) : Unfolds t (unfoldLines fuel t) := by
  induction fuel generalizing t with
  | zero =>
    obtain rfl := List.eq_nil_of_length_eq_zero (Nat.le_zero.mp hfuel)
    exact .nil
  | succ fuel ih =>
    match t with
    | [] => exact .nil
    | c :: rest =>
      -- What is not a fold stays, so a carriage return that stays is a control character.
      by_cases hfold : ∃ d tail, c = 13 ∧ rest = 10 :: d :: tail ∧ blank d
      · obtain ⟨d, tail, rfl, rfl, hd⟩ := hfold
        rw [unfoldLines_fold hd] at h ⊢
        have hlength : (tail.dropWhile blank).length ≤ fuel := by
          have := (List.dropWhile_sublist blank (l := tail)).length_le
          simp at hfuel
          omega
        have hrest := ih hlength (List.forall_mem_cons.mp h).2
        have hsplit : d :: tail = (d :: tail.takeWhile blank) ++ tail.dropWhile blank := by
          rw [List.cons_append, List.takeWhile_append_dropWhile]
        rw [hsplit]
        refine .fold (List.cons_ne_nil _ _) ?_ (startsWithout_dropWhile tail) hrest
        exact List.forall_mem_cons.mpr ⟨hd, fun c hc => List.mem_takeWhile_imp hc⟩
      · rw [unfoldLines_cons fun d tail hc ht hd => hfold ⟨d, tail, hc, ht, hd⟩] at h ⊢
        obtain ⟨hc, hrest⟩ := List.forall_mem_cons.mp h
        exact .cons hc (ih (by simpa using hfuel) hrest)

theorem Unfolds.nil_inv (h : Unfolds [] u) : u = [] := by
  cases h
  rfl

/-! ## Blanks at the ends -/

theorem blank_ne_newline {c : UInt16} (h : blank c) : c ≠ 13 ∧ c ≠ 10 := by
  constructor <;> rintro rfl <;> exact absurd h (by decide)

theorem Unfolds.blanks_append (hblanks : ∀ c ∈ blanks, blank c) (h : Unfolds t u) :
    Unfolds (blanks ++ t) (blanks ++ u) := by
  induction blanks with
  | nil => exact h
  | cons c blanks ih =>
    obtain ⟨hc, hblanks⟩ := List.forall_mem_cons.mp hblanks
    exact .cons (not_control_of_blank hc) (ih hblanks)

theorem unfolds_blanks_append (hblanks : ∀ c ∈ blanks, blank c) (h : Unfolds (blanks ++ t) u) :
    ∃ v, u = blanks ++ v ∧ Unfolds t v := by
  induction blanks generalizing u with
  | nil => exact ⟨u, rfl, h⟩
  | cons c blanks ih =>
    obtain ⟨hc, hblanks⟩ := List.forall_mem_cons.mp hblanks
    generalize hs : c :: blanks ++ t = s at h
    cases h with
    | nil => simp at hs
    | cons _ h =>
      obtain ⟨rfl, rfl⟩ := List.cons.inj hs
      obtain ⟨v, rfl, hv⟩ := ih hblanks h
      exact ⟨v, rfl, hv⟩
    | fold => exact absurd (List.cons.inj hs).1 (blank_ne_newline hc).1

/-- Blanks at the end stay, unless a fold at the end takes them up. -/
theorem Unfolds.append_blanks (hblanks : ∀ c ∈ blanks, blank c) (h : Unfolds t u) :
    ∃ rest, (∀ c ∈ rest, blank c) ∧ Unfolds (t ++ blanks) (u ++ rest) := by
  induction h with
  | nil =>
    refine ⟨blanks, hblanks, ?_⟩
    simpa using Unfolds.nil.blanks_append hblanks
  | cons hc _ ih =>
    obtain ⟨rest, hrest, h⟩ := ih
    exact ⟨rest, hrest, .cons hc h⟩
  | @fold taken t u hne htaken hstarts h ih =>
    cases t with
    | nil =>
      obtain rfl := h.nil_inv
      refine ⟨[], by simp, ?_⟩
      have hall : ∀ c ∈ taken ++ blanks, blank c := by
        intro c hc
        exact (List.mem_append.mp hc).elim (htaken c) (hblanks c)
      simpa using Unfolds.fold (by simp [hne]) hall .nil .nil
    | cons c t =>
      obtain ⟨rest, hrest, h⟩ := ih
      refine ⟨rest, hrest, ?_⟩
      rw [List.cons_append, List.cons_append, List.append_assoc]
      refine .fold hne htaken ?_ h
      rwa [List.cons_append, startsWithout_cons, ← startsWithout_cons]

/-- Without the blanks at its end, a value unfolds to the same, up to blanks at the end: unless a
line break is left without the blanks that made it a fold. -/
theorem unfolds_append_blanks {v : Text} (hblanks : ∀ c ∈ blanks, blank c)
    (hbreak : ¬ [13, 10] <:+ t) (h : Unfolds (t ++ blanks) v) :
    ∃ u rest, Unfolds t u ∧ v = u ++ rest ∧ ∀ c ∈ rest, blank c := by
  by_cases hnil : blanks = []
  · subst hnil
    rw [List.append_nil] at h
    exact ⟨v, [], h, by simp, by simp⟩
  generalize hs : t ++ blanks = s at h
  induction h generalizing t with
  | nil => simp [hnil] at hs
  | @cons c s v hc h ih =>
    cases t with
    | nil =>
      obtain rfl : blanks = c :: s := hs
      obtain ⟨u, hu, hnil⟩ := unfolds_blanks_append (t := []) hblanks (u := c :: v)
        (by simpa using Unfolds.cons hc h)
      obtain rfl := hnil.nil_inv
      exact ⟨[], c :: s, .nil, by simpa using hu, hblanks⟩
    | cons d t =>
      obtain ⟨hd, htail⟩ := List.cons.inj hs
      subst hd
      obtain ⟨u, rest, hu, rfl, hrest⟩ := ih (fun hb => hbreak (hb.trans (List.suffix_cons _ _))) htail
      exact ⟨d :: u, rest, .cons hc hu, rfl, hrest⟩
  | @fold taken s v hne htaken hstarts h ih =>
    -- The line break is not among the blanks, and is followed by a blank that is left.
    match t, hbreak, hs with
    | [], _, hs =>
      obtain ⟨b, rest, rfl⟩ := List.exists_cons_of_ne_nil hnil
      exact absurd (List.cons.inj hs).1 (blank_ne_newline (hblanks b (by simp))).1
    | [_], _, hs =>
      obtain ⟨b, rest, rfl⟩ := List.exists_cons_of_ne_nil hnil
      have hb := (List.cons.inj (List.cons.inj hs).2).1
      exact absurd hb (blank_ne_newline (hblanks b (by simp))).2
    | c :: d :: t, hbreak, hs =>
      obtain ⟨hc, htail⟩ := List.cons.inj hs
      obtain ⟨hd, hsplit⟩ := List.cons.inj htail
      subst hc hd
      rcases List.append_eq_append_iff.mp hsplit with ⟨more, rfl, rfl⟩ | ⟨more, rfl, rfl⟩
      · have hs : s = [] := by
          cases s with
          | nil => rfl
          | cons b s =>
            have hb : blank b := hblanks b (by simp)
            rw [startsWithout_cons.mp hstarts] at hb
            simp at hb
        subst hs
        obtain rfl := h.nil_inv
        have ht : t ≠ [] := by
          rintro rfl
          exact hbreak (List.suffix_refl _)
        refine ⟨[32], [], ?_, by simp, by simp⟩
        simpa using Unfolds.fold ht (fun b hb => htaken b (by simp [hb])) .nil .nil
      · have hmore : ¬ [13, 10] <:+ more := fun hb =>
          hbreak (hb.trans ⟨13 :: 10 :: taken, by simp⟩)
        obtain ⟨u, rest, hu, rfl, hrest⟩ := ih hmore rfl
        refine ⟨32 :: u, rest, .fold hne htaken ?_ hu, rfl, hrest⟩
        cases more with
        | nil => exact .nil
        | cons b more => simpa using hstarts

/-! ## Folds -/

/-- A text ends in a fold that may not be over: after its last line break, there are only blanks. -/
def EndsInFold (t : Text) : Prop :=
  ∃ before after, t = before ++ 13 :: 10 :: after ∧ ∀ c ∈ after, blank c

theorem EndsInFold.append (h : EndsInFold t) (before : Text) : EndsInFold (before ++ t) := by
  obtain ⟨first, after, rfl, hafter⟩ := h
  exact ⟨before ++ first, after, by simp, hafter⟩

/-- A run of units of a kind is cut off in one way only. -/
theorem run_inj {α : Type} {p : α → Bool} {run run' rest rest' : List α} (hrun : ∀ c ∈ run, p c)
    (hrun' : ∀ c ∈ run', p c) (hrest : StartsWithout p rest) (hrest' : StartsWithout p rest')
    (h : run ++ rest = run' ++ rest') : run = run' ∧ rest = rest' := by
  constructor
  · rw [← takeWhile_run hrun hrest, h, takeWhile_run hrun' hrest']
  · rw [← dropWhile_run hrun hrest, h, dropWhile_run hrun' hrest']

/-- A fold that is a space is unfolded to the same, unless it was directly after another fold. -/
theorem Unfolds.replace_fold {before after : Text} (hblanks : ∀ c ∈ blanks, blank c)
    (hafter : StartsWithout blank after) (hbefore : ¬ EndsInFold before)
    (h : Unfolds (before ++ 13 :: 10 :: (blanks ++ after)) u) :
    Unfolds (before ++ 32 :: after) u := by
  generalize hs : before ++ 13 :: 10 :: (blanks ++ after) = s at h
  induction h generalizing before with
  | nil => simp at hs
  | @cons c s u hc h ih =>
    cases before with
    | nil =>
      obtain ⟨rfl, -⟩ := List.cons.inj hs
      exact absurd control_of_newline.2 hc
    | cons d before =>
      obtain ⟨hd, htail⟩ := List.cons.inj hs
      subst hd
      exact .cons hc (ih (fun hends => hbefore (hends.append [d])) htail)
  | @fold taken s u hne htaken hstarts h ih =>
    match before, hbefore, hs with
    | [], _, hs =>
      obtain ⟨-, rfl⟩ := run_inj hblanks htaken hafter hstarts (List.cons.inj (List.cons.inj hs).2).2
      exact .cons (by decide) h
    | [_], _, hs =>
      exact absurd (List.cons.inj (List.cons.inj hs).2).1 (by decide)
    | c :: d :: before, hbefore, hs =>
      obtain ⟨hc, htail⟩ := List.cons.inj hs
      obtain ⟨hd, hsplit⟩ := List.cons.inj htail
      subst hc hd
      rcases List.append_eq_append_iff.mp hsplit with ⟨more, rfl, hmore⟩ | ⟨more, rfl, rfl⟩
      · cases more with
        | nil => exact absurd ⟨[], before, rfl, by simpa using htaken⟩ hbefore
        | cons b more =>
          obtain ⟨rfl, -⟩ := List.cons.inj hmore
          exact absurd rfl (blank_ne_newline (htaken _ (by simp))).1
      · have hrest : ¬ EndsInFold more := fun hends =>
          hbefore (by simpa using hends.append (13 :: 10 :: taken))
        have hreplaced := ih hrest rfl
        -- Something is between the two folds, so the new space is no blank of the first.
        cases more with
        | nil => exact absurd ⟨[], taken, by simp, htaken⟩ hbefore
        | cons b more =>
          rw [List.cons_append, List.cons_append, List.append_assoc]
          refine .fold hne htaken ?_ hreplaced
          simpa using hstarts

/-! ## Spellings -/

/-- A value is spelled in another way. -/
inductive Respelled (version : Option HttpVersion) : Text → Text → Prop
  /-- Blanks are added or removed at the start. -/
  | addLeading {blanks t : Text} : (∀ c ∈ blanks, blank c) → Respelled version t (blanks ++ t)
  | removeLeading {blanks t : Text} : (∀ c ∈ blanks, blank c) → Respelled version (blanks ++ t) t
  /-- Blanks are added or removed at the end. -/
  | addTrailing {blanks t : Text} : (∀ c ∈ blanks, blank c) → Respelled version t (t ++ blanks)
  | removeTrailing {blanks t : Text} : (∀ c ∈ blanks, blank c) →
      (version = some .http11 → ¬ [13, 10] <:+ t) → Respelled version (t ++ blanks) t
  /-- A fold is replaced by a space. -/
  | replaceFold {before blanks after : Text} : version = some .http11 → blanks ≠ [] →
      (∀ c ∈ blanks, blank c) → StartsWithout blank after → ¬ EndsInFold before →
      Respelled version (before ++ 13 :: 10 :: (blanks ++ after)) (before ++ 32 :: after)

theorem trimBlanks_blanks_append (h : ∀ c ∈ blanks, blank c) :
    trimBlanks (blanks ++ t) = trimBlanks t := by
  rw [trimBlanks, List.dropWhile_append_of_pos h, ← trimBlanks]

theorem trimBlanks_append_blanks (h : ∀ c ∈ blanks, blank c) :
    trimBlanks (t ++ blanks) = trimBlanks t := by
  induction blanks using List.reverseRecOn with
  | nil => rw [List.append_nil]
  | append_singleton blanks c ih =>
    have hc : blank c := h c (by simp)
    rw [← ih fun d hd => h d (List.mem_append_left _ hd), ← List.append_assoc]
    unfold trimBlanks
    rw [List.dropWhile_append]
    split
    · rename_i hempty
      rw [List.isEmpty_iff.mp hempty, List.dropWhile_cons_of_pos hc, List.dropWhile_nil]
    · exact List.rdropWhile_concat_pos _ _ _ hc

/-- The normal form of a value with folds. -/
theorem normalizeValue_http11 {value : HeaderValue} {w : Text} :
    normalizeValue value (some .http11) = .ok w ↔ ∃ u, Unfolds value.string u ∧ trimBlanks u = w := by
  simp only [normalizeValue, bind_eq_ok, require_eq_ok, exists_const, pure_eq_ok, if_pos]
  constructor
  · rintro ⟨hcontrol, rfl⟩
    refine ⟨_, unfolds_unfoldLines le_rfl fun c hc hbad => ?_, rfl⟩
    exact hcontrol (List.any_eq_true.mpr ⟨c, hc, hbad⟩)
  · rintro ⟨u, hu, rfl⟩
    rw [hu.unfoldLines_eq le_rfl]
    refine ⟨fun hany => ?_, rfl⟩
    obtain ⟨c, hc, hbad⟩ := List.any_eq_true.mp hany
    exact hu.not_control c hc hbad

/-- The normal form of a value without folds. -/
theorem normalizeValue_other {value : HeaderValue} {w : Text} (hversion : version ≠ some .http11) :
    normalizeValue value version = .ok w ↔
      (∀ c ∈ value.string, ¬ control c) ∧ trimBlanks value.string = w := by
  simp only [normalizeValue, if_neg hversion, bind_eq_ok, require_eq_ok, exists_const, pure_eq_ok]
  refine and_congr_left fun _ => ?_
  simp

/-- **Another spelling has the same normal form.** -/
theorem normalizeValue_respelled {value value' : HeaderValue} {w : Text}
    (h : Respelled version value.string value'.string) (hw : normalizeValue value version = .ok w) :
    normalizeValue value' version = .ok w := by
  generalize hs : value.string = s at h
  generalize hs' : value'.string = s' at h
  by_cases hversion : version = some .http11
  · subst hversion
    rw [normalizeValue_http11] at hw ⊢
    obtain ⟨u, hu, rfl⟩ := hw
    rw [hs] at hu
    rw [hs']
    cases h with
    | addLeading hblanks => exact ⟨_, hu.blanks_append hblanks, trimBlanks_blanks_append hblanks⟩
    | removeLeading hblanks =>
      obtain ⟨v, rfl, hv⟩ := unfolds_blanks_append hblanks hu
      exact ⟨v, hv, (trimBlanks_blanks_append hblanks).symm⟩
    | addTrailing hblanks =>
      obtain ⟨rest, hrest, hv⟩ := hu.append_blanks hblanks
      exact ⟨_, hv, trimBlanks_append_blanks hrest⟩
    | removeTrailing hblanks hbreak =>
      obtain ⟨v, rest, hv, rfl, hrest⟩ := unfolds_append_blanks hblanks (hbreak rfl) hu
      exact ⟨v, hv, (trimBlanks_append_blanks hrest).symm⟩
    | replaceFold _ _ hblanks hafter hbefore =>
      exact ⟨u, hu.replace_fold hblanks hafter hbefore, rfl⟩
  · rw [normalizeValue_other hversion] at hw ⊢
    obtain ⟨hcontrol, rfl⟩ := hw
    rw [hs] at hcontrol ⊢
    rw [hs']
    cases h with
    | addLeading hblanks =>
      refine ⟨fun c hc => ?_, trimBlanks_blanks_append hblanks⟩
      exact (List.mem_append.mp hc).elim (fun hc => not_control_of_blank (hblanks c hc)) (hcontrol c)
    | removeLeading hblanks =>
      exact ⟨fun c hc => hcontrol c (by simp [hc]), (trimBlanks_blanks_append hblanks).symm⟩
    | addTrailing hblanks =>
      refine ⟨fun c hc => ?_, trimBlanks_append_blanks hblanks⟩
      exact (List.mem_append.mp hc).elim (hcontrol c) fun hc => not_control_of_blank (hblanks c hc)
    | removeTrailing hblanks _ =>
      exact ⟨fun c hc => hcontrol c (by simp [hc]), (trimBlanks_append_blanks hblanks).symm⟩
    | replaceFold hversion' => exact absurd hversion' hversion

end AgentSig.Core
