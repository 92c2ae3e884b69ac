import AgentSig.StructuredFields.Determinism

/-!
# Members on a line

What a production reads is a run of characters, and it reads that run before other remainders as
well. So a dictionary is the texts of its members, with a comma and optional whitespace between
them, and its value only depends on these texts. They may be written on several lines: lines that
are combined with a comma and a space are a line of all their members.

## Main definitions

* `Reads p R run a`: the production `R` reads `a` from `run`, before a remainder without `p`
* `Line members t`: the texts `members` are written on the line `t`

## Main results

* `Key.run`, `Bare.run`, … , `Entry.run`: what a production reads is a run
* `Line.entries`: a line of the texts of entries is a dictionary
* `Entries.exists_line`: a dictionary is a line of the texts of its entries
* `Line.parses`: so it is read as these entries
* `Line.combined`: combined lines are a line
-/

namespace AgentSig.Rfc9651

open Commons StructuredFields

/-- Optional whitespace or a comma. -/
def delimiter (c : UInt16) : Bool := OWS c || c == 0x2c

/-- A character that may continue an entry. -/
def continues (c : UInt16) : Bool := tokenChar c || c == 0x3d || c == 0x3b

/-- `t` is empty or ends with a character outside `p`. -/
def EndsWithout (p : UInt16 → Bool) (t : Text) : Prop := ∀ c ∈ t.getLast?, p c = false

/-- A production reads a value from a run, whatever remains, if it starts without `p`. The run does
not end with a delimiter. -/
structure Reads {α : Type} (p : UInt16 → Bool) (R : Text → α → Text → Prop) (run : Text) (a : α) :
    Prop where
  ends : EndsWithout delimiter run
  reads : ∀ rest, StartsWithout p rest → R (run ++ rest) a rest

/-! ## Characters -/

theorem delimiter_of_tokenChar {c : UInt16} (h : tokenChar c) : delimiter c = false := by
  rw [Bool.eq_false_iff]
  intro hc
  simp only [delimiter, OWS, Bool.or_eq_true, beq_iff_eq] at hc
  rcases hc with (rfl | rfl) | rfl <;> revert h <;> decide

theorem tokenChar_of_DIGIT {c : UInt16} (h : DIGIT c) : tokenChar c := by
  simp [tokenChar, h]

theorem tokenChar_of_keyChar {c : UInt16} (h : keyChar c) : tokenChar c := by
  simp only [keyChar, keyStart, Bool.or_eq_true, Bool.and_eq_true, decide_eq_true_eq,
    beq_iff_eq] at h
  rcases h with ((((h | rfl) | h) | rfl) | rfl) | rfl
  · simp [tokenChar, ALPHA, h]
  · decide
  · exact tokenChar_of_DIGIT h
  all_goals decide

theorem continues_of_tokenChar {c : UInt16} (h : tokenChar c) : continues c := by
  simp [continues, h]

theorem continues_of_delimiter {c : UInt16} (h : delimiter c) : continues c = false := by
  simp only [delimiter, OWS, Bool.or_eq_true, beq_iff_eq] at h
  rcases h with (rfl | rfl) | rfl <;> decide

variable {p : UInt16 → Bool}

theorem EndsWithout.nil : EndsWithout p [] := by simp [EndsWithout]

theorem endsWithout_of_forall {t : Text} (h : ∀ c ∈ t, p c = false) : EndsWithout p t :=
  fun c hc => h c (List.mem_of_getLast? hc)

theorem EndsWithout.append {s t : Text} (hs : EndsWithout p s) (ht : EndsWithout p t) :
    EndsWithout p (s ++ t) := by
  intro c hc
  rw [List.getLast?_append] at hc
  cases hlast : t.getLast? with
  | none => exact hs c (by simpa [hlast] using hc)
  | some d => exact ht c (by simpa [hlast] using hc)

theorem endsWithout_concat {s : Text} {c : UInt16} : EndsWithout p (s ++ [c]) ↔ p c = false := by
  simp [EndsWithout]

theorem EndsWithout.of_append {s t : Text} (h : EndsWithout p (s ++ t)) : EndsWithout p t := by
  intro c hc
  refine h c ?_
  rw [List.getLast?_append, hc]
  simp

/-- Only the end of a text that is not empty matters. -/
theorem EndsWithout.prepend {t : Text} (h : EndsWithout p t) (hne : t ≠ []) (s : Text) :
    EndsWithout p (s ++ t) := by
  intro c hc
  rw [List.getLast?_append_of_ne_nil _ hne] at hc
  exact h c hc

theorem EndsWithout.cons {c : UInt16} {t : Text} (h : EndsWithout p t) (hne : t ≠ []) :
    EndsWithout p (c :: t) :=
  h.prepend hne [c]

theorem startsWithout_false {t : Text} : StartsWithout (fun _ => false) t := fun _ _ => rfl

/-! ## Bare items -/

theorem Key.run {input k rest : Text} (h : Key input k rest) :
    input = k ++ rest ∧ Reads keyChar Key k k := by
  obtain ⟨rfl, hfirst, hk, -⟩ := h
  refine ⟨rfl, ?_, fun rest' hrest' => ⟨rfl, hfirst, hk, hrest'⟩⟩
  exact endsWithout_of_forall fun c hc => delimiter_of_tokenChar (tokenChar_of_keyChar (hk c hc))

theorem Key.ne_nil {input k rest : Text} (h : Key input k rest) : k ≠ [] := by
  obtain ⟨-, ⟨c, hc, -⟩, -⟩ := h
  rintro rfl
  simp at hc

theorem StringBody.run {input value rest : Text} (h : StringBody input value rest) :
    ∃ run, run ≠ [] ∧ input = run ++ rest ∧ Reads (fun _ => false) StringBody run value := by
  induction h with
  | close => exact ⟨[0x22], by simp, rfl, endsWithout_of_forall (by decide), fun rest _ => .close⟩
  | @escape c input value rest hc _ ih =>
    obtain ⟨run, hne, rfl, hrun⟩ := ih
    refine ⟨0x5c :: c :: run, by simp, rfl, (hrun.ends.cons hne).cons (by simp), ?_⟩
    intro rest' hrest'
    exact .escape hc (hrun.reads rest' hrest')
  | @char c input value rest hc hquote hescape _ ih =>
    obtain ⟨run, hne, rfl, hrun⟩ := ih
    refine ⟨c :: run, by simp, rfl, hrun.ends.cons hne, ?_⟩
    intro rest' hrest'
    exact .char hc hquote hescape (hrun.reads rest' hrest')

theorem DisplayBody.run {input : Text} {octets : List UInt8} {rest : Text}
    (h : DisplayBody input octets rest) :
    ∃ run, run ≠ [] ∧ input = run ++ rest ∧ Reads (fun _ => false) DisplayBody run octets := by
  induction h with
  | close => exact ⟨[0x22], by simp, rfl, endsWithout_of_forall (by decide), fun rest _ => .close⟩
  | @escape x y input octets rest hx hy _ ih =>
    obtain ⟨run, hne, rfl, hrun⟩ := ih
    refine ⟨0x25 :: x :: y :: run, by simp, rfl,
      ((hrun.ends.cons hne).cons (by simp)).cons (by simp), ?_⟩
    intro rest' hrest'
    exact .escape hx hy (hrun.reads rest' hrest')
  | @char c input octets rest hc hpercent hquote _ ih =>
    obtain ⟨run, hne, rfl, hrun⟩ := ih
    refine ⟨c :: run, by simp, rfl, hrun.ends.cons hne, ?_⟩
    intro rest' hrest'
    exact .char hc hpercent hquote (hrun.reads rest' hrest')

theorem endsWithout_digits {s digits : Text} (h : ∀ c ∈ digits, DIGIT c) (hpos : 1 ≤ digits.length) :
    EndsWithout delimiter (s ++ digits) := by
  refine EndsWithout.prepend ?_ (List.length_pos_iff.mp hpos) s
  exact endsWithout_of_forall fun c hc => delimiter_of_tokenChar (tokenChar_of_DIGIT (h c hc))

theorem Integer.run {input : Text} {z : ℤ} {rest : Text} (h : Integer input z rest) :
    ∃ run, run ≠ [] ∧ input = run ++ rest ∧ Reads tokenChar Integer run z := by
  obtain ⟨negative, digits, rfl, hdigits, hpos, hlen, -, rfl⟩ := h
  refine ⟨sign negative ++ digits, ?_, rfl, endsWithout_digits hdigits hpos, ?_⟩
  · exact List.append_ne_nil_of_right_ne_nil _ (List.length_pos_iff.mp hpos)
  · intro rest' hrest'
    refine ⟨negative, digits, rfl, hdigits, hpos, hlen, hrest'.mono ?_, rfl⟩
    intro c hc
    rcases Bool.or_eq_true _ _ ▸ hc with hc | hc
    · exact tokenChar_of_DIGIT hc
    · rw [eq_of_beq hc]
      decide

theorem Decimal.run {input : Text} {z : ℤ} {rest : Text} (h : Decimal input z rest) :
    ∃ run, input = run ++ rest ∧ Reads tokenChar Decimal run z := by
  obtain ⟨negative, whole, fraction, rfl, hwhole, hfraction, hpos, hlen, hpos', hlen', -, rfl⟩ := h
  refine ⟨sign negative ++ whole ++ [0x2e] ++ fraction, by simp,
    endsWithout_digits hfraction hpos', ?_⟩
  intro rest' hrest'
  exact ⟨negative, whole, fraction, by simp, hwhole, hfraction, hpos, hlen, hpos', hlen',
    hrest'.mono fun c => tokenChar_of_DIGIT, rfl⟩

theorem Bare.run {input : Text} {v : BareItem} {rest : Text} (h : Bare input v rest) :
    ∃ run, input = run ++ rest ∧ Reads tokenChar Bare run v := by
  cases h with
  | integer h =>
    obtain ⟨run, -, rfl, hrun⟩ := h.run
    exact ⟨run, rfl, hrun.ends, fun rest' hrest' => .integer (hrun.reads rest' hrest')⟩
  | decimal h =>
    obtain ⟨run, rfl, hrun⟩ := h.run
    exact ⟨run, rfl, hrun.ends, fun rest' hrest' => .decimal (hrun.reads rest' hrest')⟩
  | string h =>
    obtain ⟨run, hne, rfl, hrun⟩ := h.run
    exact ⟨0x22 :: run, rfl, hrun.ends.cons hne,
      fun rest' _ => .string (hrun.reads rest' startsWithout_false)⟩
  | @token _ value _ h =>
    obtain ⟨rfl, hfirst, htoken, -⟩ := h
    refine ⟨value, rfl, ?_, fun rest' hrest' => .token ⟨rfl, hfirst, htoken, hrest'⟩⟩
    exact endsWithout_of_forall fun c hc => delimiter_of_tokenChar (htoken c hc)
  | bytes h =>
    obtain ⟨symbols, pads, rfl, hsymbols, hlen, hpads, hvalue⟩ := h
    refine ⟨0x3a :: (symbols ++ List.replicate pads 0x3d) ++ [0x3a], by simp,
      endsWithout_concat.mpr (by decide), ?_⟩
    intro rest' _
    exact .bytes ⟨symbols, pads, by simp, hsymbols, hlen, hpads, hvalue⟩
  | @boolean b _ =>
    refine ⟨[0x3f, if b then 0x31 else 0x30], rfl, ?_, fun rest' _ => .boolean⟩
    cases b <;> exact endsWithout_of_forall (by decide)
  | date h =>
    obtain ⟨run, hne, rfl, hrun⟩ := h.run
    exact ⟨0x40 :: run, rfl, hrun.ends.cons hne, fun rest' hrest' => .date (hrun.reads rest' hrest')⟩
  | displayString h hutf =>
    obtain ⟨run, hne, rfl, hrun⟩ := h.run
    exact ⟨0x25 :: 0x22 :: run, rfl, (hrun.ends.cons hne).cons (by simp),
      fun rest' _ => .displayString (hrun.reads rest' startsWithout_false) hutf⟩

/-! ## Parameters, items and members -/

/-- After a key, `parameterStop` starts a value or continues the key. -/
def parameterStop (c : UInt16) : Bool := tokenChar c || c == 0x3d

theorem ParameterValue.run {input : Text} {v : BareItem} {rest : Text}
    (h : ParameterValue input v rest) :
    ∃ run, input = run ++ rest ∧ Reads parameterStop ParameterValue run v := by
  cases h with
  | explicit h =>
    obtain ⟨run, rfl, hrun⟩ := h.run
    refine ⟨0x3d :: run, rfl, ?_, ?_⟩
    · by_cases hne : run = []
      · subst hne
        exact endsWithout_of_forall (by decide)
      · exact hrun.ends.cons hne
    · intro rest' hrest'
      exact .explicit (hrun.reads rest' (hrest'.mono fun c hc => by simp [parameterStop, hc]))
  | implicit =>
    refine ⟨[], rfl, .nil, ?_⟩
    intro rest' hrest'
    exact .implicit (hrest'.mono fun c hc => by simp [parameterStop, hc])

theorem ParameterValue.starts {input : Text} {v : BareItem} {rest : Text}
    (h : ParameterValue input v rest) (hrest : StartsWithout parameterStop rest) :
    StartsWithout keyChar input := by
  cases h with
  | explicit => exact startsWithout_cons.mpr (by decide)
  | implicit =>
    exact hrest.mono fun c hc => by simp [parameterStop, tokenChar_of_keyChar hc]

theorem Parameters.starts {input : Text} {ps : StructuredFields.Parameters} {rest : Text}
    (h : Parameters input ps rest) (hrest : StartsWithout continues rest) :
    StartsWithout parameterStop input := by
  cases h with
  | nil =>
    refine hrest.mono fun c hc => ?_
    simp only [parameterStop, continues] at hc ⊢
    simp [hc]
  | cons => exact startsWithout_cons.mpr (by decide)

/-- Skipped characters are skipped before other remainders as well. -/
theorem exists_skipped {q : UInt16 → Bool} {input run rest : Text} (h : input.dropWhile q = run ++ rest)
    (hne : run ≠ []) : ∃ skipped, input = skipped ++ run ++ rest ∧
      ∀ rest', (skipped ++ run ++ rest').dropWhile q = run ++ rest' := by
  refine ⟨input.takeWhile q, ?_, fun rest' => ?_⟩
  · rw [List.append_assoc, ← h, List.takeWhile_append_dropWhile]
  · obtain ⟨c, run, rfl⟩ := List.exists_cons_of_ne_nil hne
    rw [List.append_assoc]
    refine dropWhile_run (fun d hd => List.mem_takeWhile_imp hd) ?_
    have hstart := startsWithout_dropWhile (p := q) input
    rw [h, List.cons_append, startsWithout_cons] at hstart
    exact startsWithout_cons.mpr hstart

theorem Parameters.run {input : Text} {ps : StructuredFields.Parameters} {rest : Text}
    (h : Parameters input ps rest) :
    ∃ run, input = run ++ rest ∧ Reads continues Parameters run ps := by
  induction h with
  | nil =>
    refine ⟨[], rfl, .nil, ?_⟩
    intro rest' hrest'
    exact .nil (hrest'.mono fun c hc => by simp [continues, hc])
  | @cons input k s v s' rest ps hk hv _ ih =>
    obtain ⟨prun, rfl, hprun⟩ := ih
    obtain ⟨vrun, rfl, hvrun⟩ := hv.run
    have hkne := hk.ne_nil
    obtain ⟨hkey, hkrun⟩ := hk.run
    obtain ⟨skipped, rfl, hskipped⟩ := exists_skipped hkey hkne
    refine ⟨0x3b :: (skipped ++ k ++ (vrun ++ prun)), by simp, ?_, ?_⟩
    · rw [List.append_assoc]
      refine EndsWithout.cons (EndsWithout.prepend ?_ (by simp [hkne]) skipped) (by simp [hkne])
      exact hkrun.ends.append (hvrun.ends.append hprun.ends)
    · intro rest' hrest'
      have hps := hprun.reads rest' hrest'
      have hstop := hps.starts hrest'
      have hvalue := hvrun.reads _ hstop
      have hstart := hvalue.starts hstop
      have hskip := hskipped (vrun ++ (prun ++ rest'))
      have hkey := hkrun.reads _ hstart
      rw [← hskip] at hkey
      have := Parameters.cons hkey hvalue hps
      simpa using this

theorem Item.run {input : Text} {i : StructuredFields.Item} {rest : Text} (h : Item input i rest) :
    ∃ run, input = run ++ rest ∧ Reads continues Item run i := by
  obtain ⟨s, hb, hp⟩ := h
  obtain ⟨prun, rfl, hprun⟩ := hp.run
  obtain ⟨brun, rfl, hbrun⟩ := hb.run
  refine ⟨brun ++ prun, by simp, hbrun.ends.append hprun.ends, ?_⟩
  intro rest' hrest'
  have hps := hprun.reads rest' hrest'
  have hstop := (hps.starts hrest').mono (p := tokenChar) fun c hc => by simp [parameterStop, hc]
  exact ⟨prun ++ rest', List.append_assoc brun prun rest' ▸ hbrun.reads _ hstop, hps⟩

theorem InnerItems.spaces {skipped input rest : Text} {is : List StructuredFields.Item}
    (hskipped : ∀ c ∈ skipped, SP c) (h : InnerItems input is rest) :
    InnerItems (skipped ++ input) is rest := by
  induction skipped with
  | nil => exact h
  | cons c skipped ih =>
    obtain ⟨hc, hskipped⟩ := List.forall_mem_cons.mp hskipped
    rw [eq_of_beq hc]
    exact (ih hskipped).space

theorem InnerItems.run {input rest : Text} {is : List StructuredFields.Item}
    (h : InnerItems input is rest) :
    ∃ run, run ≠ [] ∧ input = run ++ rest ∧ Reads (fun _ => false) InnerItems run is := by
  induction h with
  | @close input rest h =>
    obtain ⟨skipped, rfl, hskipped⟩ := @exists_skipped SP input [0x29] rest h (by simp)
    refine ⟨skipped ++ [0x29], by simp, rfl, endsWithout_concat.mpr (by decide), ?_⟩
    intro rest' _
    exact .close (hskipped rest')
  | @item input s rest i is _ _ hi hnext _ ih =>
    obtain ⟨run, hne, rfl, hrun⟩ := ih
    obtain ⟨irun, hirun, hread⟩ := hi.run
    have hinput := List.takeWhile_append_dropWhile (p := SP) (l := input)
    rw [hirun] at hinput
    refine ⟨input.takeWhile SP ++ (irun ++ run), by simp [hne], hinput.symm.trans (by simp),
      EndsWithout.prepend (hrun.ends.prepend hne irun) (by simp [hne]) _, ?_⟩
    intro rest' _
    -- the run of the items that remain starts as before, with a space or the closing parenthesis
    have hnext' : (run ++ rest').head? = some 0x20 ∨ (run ++ rest').head? = some 0x29 := by
      rw [List.head?_append_of_ne_nil _ hne] at hnext ⊢
      exact hnext
    have hstop : StartsWithout continues (run ++ rest') := by
      intro c hc
      rcases hnext' with hhead | hhead <;> rw [hhead] at hc <;> cases hc <;> decide
    have hitems := InnerItems.item_append (hread.reads _ hstop) hnext'
      (hrun.reads rest' startsWithout_false)
    rw [List.append_assoc, List.append_assoc]
    exact hitems.spaces fun c hc => List.mem_takeWhile_imp hc

theorem Member.run {input : Text} {m : StructuredFields.Member} {rest : Text}
    (h : Member input m rest) : ∃ run, run ≠ [] ∧ input = run ++ rest ∧ Reads continues Member run m := by
  cases h with
  | innerList h =>
    obtain ⟨s, s', rfl, hi, hp⟩ := h
    obtain ⟨prun, rfl, hprun⟩ := hp.run
    obtain ⟨irun, hne, rfl, hirun⟩ := hi.run
    refine ⟨0x28 :: (irun ++ prun), by simp, by simp,
      (hirun.ends.append hprun.ends).cons (by simp [hne]), ?_⟩
    intro rest' hrest'
    refine .innerList ⟨irun ++ (prun ++ rest'), prun ++ rest', by simp, ?_, hprun.reads rest' hrest'⟩
    exact hirun.reads _ startsWithout_false
  | item hhead h =>
    have hlen := h.length_lt
    obtain ⟨run, rfl, hrun⟩ := h.run
    have hne : run ≠ [] := by
      rintro rfl
      simp at hlen
    refine ⟨run, hne, rfl, hrun.ends, ?_⟩
    intro rest' hrest'
    rw [List.head?_append_of_ne_nil _ hne] at hhead
    exact .item (by rwa [List.head?_append_of_ne_nil _ hne]) (hrun.reads rest' hrest')

theorem Entry.run {input : Text} {e : Text × StructuredFields.Member} {rest : Text}
    (h : Entry input e rest) : ∃ run, run ≠ [] ∧ input = run ++ rest ∧ Reads continues Entry run e := by
  cases h with
  | @explicit k s _ m hk hm =>
    have hkne := hk.ne_nil
    obtain ⟨rfl, hkrun⟩ := hk.run
    obtain ⟨run, hne, rfl, hrun⟩ := hm.run
    refine ⟨k ++ 0x3d :: run, by simp, by simp, (hrun.ends.cons hne).prepend (by simp) k, ?_⟩
    intro rest' hrest'
    refine .explicit ?_ (hrun.reads rest' hrest')
    have hkey := hkrun.reads (0x3d :: (run ++ rest')) (startsWithout_cons.mpr (by decide))
    simpa using hkey
  | @implicit k s _ ps hk heq hp =>
    have hkne := hk.ne_nil
    obtain ⟨rfl, hkrun⟩ := hk.run
    obtain ⟨run, rfl, hrun⟩ := hp.run
    refine ⟨k ++ run, by simp [hkne], by simp, hkrun.ends.append hrun.ends, ?_⟩
    intro rest' hrest'
    have hps := hrun.reads rest' hrest'
    have hstop := hps.starts hrest'
    have hkey := hkrun.reads _ (hstop.mono fun c hc => by
      simp [parameterStop, tokenChar_of_keyChar hc])
    rw [List.append_assoc]
    exact .implicit hkey (hstop.mono fun c hc => by simp [parameterStop, eq_of_beq hc]) hps

/-! ## Lines -/

/-- Texts on a line, with a comma and optional whitespace between them. -/
inductive Line : List Text → Text → Prop
  | single {m : Text} : Line [m] m
  | cons {m before after t : Text} {ms : List Text} : (∀ c ∈ before, OWS c) → (∀ c ∈ after, OWS c) →
      Line ms t → Line (m :: ms) (m ++ (before ++ 0x2c :: (after ++ t)))

/-- The text of an entry. -/
def EntryText (m : Text) (e : Text × StructuredFields.Member) : Prop := Entry m e []

theorem EntryText.ne_nil {m : Text} {e : Text × StructuredFields.Member} (h : EntryText m e) :
    m ≠ [] := List.length_pos_iff.mp (Entry.length_lt h)

theorem EntryText.reads {m : Text} {e : Text × StructuredFields.Member} (h : EntryText m e) :
    Reads continues Entry m e := by
  obtain ⟨run, -, hm, hrun⟩ := Entry.run h
  rw [List.append_nil] at hm
  exact hm ▸ hrun

theorem Reads.entryText {m : Text} {e : Text × StructuredFields.Member}
    (h : Reads continues Entry m e) : EntryText m e := by
  have hentry := h.reads [] .nil
  rwa [List.append_nil] at hentry

theorem Line.ne_nil {ms : List Text} {t : Text} (h : Line ms t) : ms ≠ [] := by
  cases h <;> simp

theorem dropWhile_comma {before s : Text} (h : ∀ c ∈ before, OWS c) :
    (before ++ 0x2c :: s).dropWhile OWS = 0x2c :: s :=
  dropWhile_run h (startsWithout_cons.mpr (by decide))

/-- A line of the texts of entries is a dictionary. -/
theorem Line.entries {ms : List Text} {t : Text} {es : List (Text × StructuredFields.Member)}
    (h : Line ms t) (hes : List.Forall₂ EntryText ms es) :
    Entries t es ∧ t ≠ [] ∧ StartsWithout OWS t := by
  induction h generalizing es with
  | single =>
    cases hes with
    | cons hm hnil =>
      cases hnil
      exact ⟨.last hm.ne_nil hm rfl, hm.ne_nil, Entry.first hm⟩
  | @cons m before after t ms hbefore hafter hline ih =>
    cases hes with
    | @cons _ e _ es hm hes =>
      obtain ⟨hentries, hne, hstart⟩ := ih hes
      have hstop : StartsWithout continues (before ++ 0x2c :: (after ++ t)) := by
        cases before with
        | nil => exact startsWithout_cons.mpr (by decide)
        | cons c before =>
          have hc := hbefore c (by simp)
          exact startsWithout_cons.mpr (continues_of_delimiter (by simp [delimiter, hc]))
      have hentry := hm.reads.reads _ hstop
      have hrest : (after ++ t).dropWhile OWS = t := dropWhile_run hafter hstart
      refine ⟨.cons (by simp [hm.ne_nil]) hentry ⟨after ++ t, dropWhile_comma hbefore, hrest.symm, hne⟩
        hentries, by simp, Entry.first hentry⟩

/-- A dictionary is a line of the texts of its entries, up to whitespace at its end. -/
theorem Entries.exists_line {t : Text} {es : List (Text × StructuredFields.Member)}
    (h : Entries t es) (hes : es ≠ []) : ∃ ms line trail, t = line ++ trail ∧ (∀ c ∈ trail, OWS c) ∧
      List.Forall₂ EntryText ms es ∧ Line ms line ∧ EndsWithout delimiter line := by
  induction h with
  | nil => exact absurd rfl hes
  | @last t s e hne he hs =>
    obtain ⟨run, -, rfl, hrun⟩ := Entry.run he
    exact ⟨[run], run, s, rfl, List.dropWhile_eq_nil_iff.mp hs, .cons hrun.entryText .nil, .single,
      hrun.ends⟩
  | @cons t s s' e es hne he hsep hrest ih =>
    obtain ⟨run, -, rfl, hrun⟩ := Entry.run he
    obtain ⟨u, hcomma, hu, hne'⟩ := hsep
    have hes' : es ≠ [] := by
      rintro rfl
      cases hrest
      exact hne' rfl
    subst hu
    obtain ⟨ms, line, trail, hline, htrail, hms, hlines, hends⟩ := ih hes'
    have hlne : line ≠ [] := (hlines.entries hms).2.1
    have hbefore : s.takeWhile OWS ++ 0x2c :: (u.takeWhile OWS ++ (line ++ trail)) = s := by
      rw [← hline, List.takeWhile_append_dropWhile, ← hcomma, List.takeWhile_append_dropWhile]
    refine ⟨run :: ms, run ++ (s.takeWhile OWS ++ 0x2c :: (u.takeWhile OWS ++ line)), trail, ?_, htrail,
      .cons hrun.entryText hms, .cons (fun c hc => List.mem_takeWhile_imp hc)
        (fun c hc => List.mem_takeWhile_imp hc) hlines, ?_⟩
    · simp only [List.append_assoc, List.cons_append]
      rw [hbefore]
    · exact ((hends.prepend hlne _).cons (by simp [hlne])).prepend (by simp) _ |>.prepend (by simp) _

/-- A dictionary whose whitespace at the end, if any, follows a comma is a line. -/
theorem Entries.exists_line_of_end {t : Text} {es : List (Text × StructuredFields.Member)}
    (h : Entries t es) (hes : es ≠ []) (hend : EndsWithout OWS t ∨ ∃ s, t = s ++ [0x2c, 0x20]) :
    ∃ ms, List.Forall₂ EntryText ms es ∧ Line ms t := by
  obtain ⟨ms, line, trail, rfl, htrail, hms, hline, hends⟩ := h.exists_line hes
  have hnil : trail = [] := by
    rcases List.eq_nil_or_concat' trail with hnil | ⟨u, c, rfl⟩
    · exact hnil
    exfalso
    rcases hend with hend | ⟨s, hs⟩
    · have hlast : OWS c = false := by
        rw [← List.append_assoc] at hend
        exact endsWithout_concat.mp hend
      exact Bool.eq_false_iff.mp hlast (htrail c (by simp))
    · -- the comma is no whitespace, and no entry ends with it
      have hcomma : line ++ u = s ++ [0x2c] := by
        have hs' : (line ++ u) ++ [c] = (s ++ [0x2c]) ++ [0x20] := by simpa using hs
        exact (List.append_inj' hs' rfl).1
      rcases List.eq_nil_or_concat' u with rfl | ⟨v, d, rfl⟩
      · rw [List.append_nil] at hcomma
        rw [hcomma] at hends
        exact absurd (endsWithout_concat.mp hends) (by decide)
      · have hd : d = 0x2c := by
          rw [← List.append_assoc] at hcomma
          simpa using (List.append_inj' hcomma rfl).2
        exact absurd (htrail d (by simp)) (by rw [hd]; decide)
  subst hnil
  exact ⟨ms, hms, by rwa [List.append_nil]⟩

theorem isAscii_of_OWS {t : Text} (h : ∀ c ∈ t, OWS c) : isAscii t := by
  refine List.all_eq_true.mpr fun c hc => ?_
  have hows := h c hc
  simp only [OWS, Bool.or_eq_true, beq_iff_eq] at hows
  rcases hows with rfl | rfl <;> decide

/-- A line is ASCII exactly when its texts are. -/
theorem Line.isAscii_iff {ms : List Text} {t : Text} (h : Line ms t) :
    isAscii t ↔ ∀ m ∈ ms, isAscii m := by
  induction h with
  | single => simp
  | @cons m before after t ms hbefore hafter _ ih =>
    have hcomma : isAscii (0x2c :: (after ++ t)) = isAscii (after ++ t) := rfl
    rw [isAscii_append, isAscii_append, hcomma, isAscii_append, isAscii_of_OWS hbefore,
      isAscii_of_OWS hafter, Bool.true_and, Bool.true_and, Bool.and_eq_true, ih, List.forall_mem_cons]

/-- An ASCII line of the texts of entries is read as these. -/
theorem Line.parses {ms : List Text} {t : Text} {es : List (Text × StructuredFields.Member)}
    (h : Line ms t) (hascii : isAscii t) (hes : List.Forall₂ EntryText ms es) :
    Parses .dictionary t (.dictionary es) := by
  obtain ⟨hentries, -, hstart⟩ := h.entries hes
  refine .dictionary hascii ?_
  rwa [dropWhile_of_startsWithout (hstart.mono fun c => OWS_of_SP)]

/-- Two lines that are combined are a line. -/
theorem Line.append {ms ms' : List Text} {t t' : Text} (h : Line ms t) (h' : Line ms' t') :
    Line (ms ++ ms') (t ++ 0x2c :: 0x20 :: t') := by
  induction h with
  | @single m => exact @Line.cons m [] [0x20] t' ms' (by simp) (by decide) h'
  | @cons m before after t ms hbefore hafter _ ih =>
    have hline := ih.cons (m := m) hbefore hafter
    simpa using hline

/-- Combined lines are a line. -/
theorem Line.combined {groups : List (List Text)} {lines : List Text}
    (h : List.Forall₂ Line groups lines) (hne : groups ≠ []) :
    Line groups.flatten ([0x2c, 0x20].intercalate lines) := by
  induction h with
  | nil => exact absurd rfl hne
  | @cons ms t groups lines hline hlines ih =>
    cases hlines with
    | nil => simpa using hline
    | cons hline' hlines' =>
      have htail := ih (by simp)
      have happend := hline.append htail
      simpa [List.intercalate] using happend

end AgentSig.Rfc9651
