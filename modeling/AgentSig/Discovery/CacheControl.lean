import AgentSig.Core.Folding

/-!
# Cache-Control lists

A list of directives is split at its commas by an automaton that knows quoted strings, and each part is then
read by a regular expression that has a quoted string of its own. They agree on what is quoted, so exactly the
texts of the grammar are read, each in one way.

## Main definitions

* `directives`: the parser
* `QuotedBody`, `ValueText`, `MemberText`, `ListText`: the grammar

## Main results

* `splitMembers_memberText`: the automaton reads through a member
* `readMember_iff`: a part is read exactly if it is a member
* `directives_iff`: **the parser reads exactly the lists of the grammar**
-/

namespace AgentSig.Discovery

open Commons Core

/-! ## The parser -/

/-- `Directive`. -/
structure Directive where
  name : Text
  value : Option Text
  deriving DecidableEq, Repr

/-- A character of `token`. -/
def tokenChar (c : UInt16) : Bool := fieldNameChar c

/-- A character of `[\x20-\x7e]`. -/
def printable (c : UInt16) : Bool := 32 ≤ c && c ≤ 126

/-- A character of `[\x20-\x21\x23-\x5b\x5d-\x7e]`. -/
def plainQuoted (c : UInt16) : Bool := printable c && c != 34 && c != 92

/-- The loop of `directives` that splits outside quoted strings, with the part that has been read and the
parts before it. -/
def splitMembers : (quoted escaped : Bool) → Text → List Text → Text → Option (List Text)
  | quoted, escaped, part, parts, [] => if quoted ∨ escaped then none else some (parts ++ [part])
  | quoted, true, part, parts, c :: rest => splitMembers quoted false (part ++ [c]) parts rest
  | quoted, false, part, parts, c :: rest =>
    if quoted ∧ c = 92 then splitMembers quoted true (part ++ [c]) parts rest
    else
      let quoted := if c = 34 then !quoted else quoted
      if c = 44 ∧ quoted = false then splitMembers quoted false [] (parts ++ [part]) rest
      else splitMembers quoted false (part ++ [c]) parts rest

/-- The rest of a quoted value matches, up to its end. -/
def quotedMatches : Text → Bool
  | [] => false
  | [c] => c = 34
  | c :: d :: rest =>
    if c = 92 then printable d && quotedMatches rest else plainQuoted c && quotedMatches (d :: rest)

/-- `replace(/\\([\x20-\x7e])/g, "$1")`. -/
def unescape : Text → Text
  | [] => []
  | [c] => [c]
  | c :: d :: rest =>
    if c = 92 ∧ printable d then d :: unescape rest else c :: unescape (d :: rest)

/-- The second group of `directive`: a token, or a quoted string. -/
def matchValue (value : Text) : Bool :=
  match value with
  | 34 :: rest => quotedMatches rest
  | _ => value ≠ [] && value.all tokenChar

/-- The groups of `directive`. -/
def matchDirective (text : Text) : Option (Text × Option Text) :=
  let name := text.takeWhile tokenChar
  if name = [] then none
  else match text.dropWhile tokenChar with
  | [] => some (name, none)
  | rest =>
    match rest.dropWhile blank with
    | 61 :: rest =>
      let value := rest.dropWhile blank
      if matchValue value then some (name, some value) else none
    | _ => none

/-- The value of an argument, without quotes and escapes. -/
def unquote (argument : Text) : Text :=
  match argument with
  | 34 :: rest => unescape rest.dropLast
  | _ => argument

/-- The round of `directives` for a part: no directive, if it is blank. -/
def readMember (part : Text) : Option (List Directive) :=
  let text := trimBlanks part
  if text = [] then some []
  else (matchDirective text).map fun groups => [⟨toLowerCase groups.1, groups.2.map unquote⟩]

/-- `directives`. -/
def directives (value : Text) : Option (List Directive) :=
  (splitMembers false false [] [] value).bind fun parts => (parts.mapM readMember).map List.flatten

/-! ## The grammar -/

/-- A quoted string between its quotes, and what it says. -/
inductive QuotedBody : Text → Text → Prop
  | nil : QuotedBody [] []
  | plain {c : UInt16} {t v : Text} : plainQuoted c → QuotedBody t v → QuotedBody (c :: t) (c :: v)
  | escaped {c : UInt16} {t v : Text} : printable c → QuotedBody t v → QuotedBody (92 :: c :: t) (c :: v)

/-- A token. -/
def Token (t : Text) : Prop := t ≠ [] ∧ ∀ c ∈ t, tokenChar c

/-- A value, and what it says. -/
inductive ValueText : Text → Text → Prop
  | token {t : Text} : Token t → ValueText t t
  | quoted {t v : Text} : QuotedBody t v → ValueText (34 :: (t ++ [34])) v

/-- Blanks. -/
def Blanks (t : Text) : Prop := ∀ c ∈ t, blank c

/-- A member, and its directive, if it has one. -/
inductive MemberText : Text → List Directive → Prop
  | empty {leading : Text} : Blanks leading → MemberText leading []
  | name {leading name trailing : Text} : Blanks leading → Token name → Blanks trailing →
      MemberText (leading ++ name ++ trailing) [⟨toLowerCase name, none⟩]
  | value {leading name before after t v trailing : Text} : Blanks leading → Token name →
      Blanks before → Blanks after → ValueText t v → Blanks trailing →
      MemberText (leading ++ (name ++ before ++ 61 :: (after ++ t)) ++ trailing)
        [⟨toLowerCase name, some v⟩]

/-- A list of members, and its directives in order. -/
inductive ListText : Text → List Directive → Prop
  | one {t : Text} {ds : List Directive} : MemberText t ds → ListText t ds
  | cons {t rest : Text} {ds es : List Directive} : MemberText t ds → ListText rest es →
      ListText (t ++ 44 :: rest) (ds ++ es)

variable {t v text : Text} {ds : List Directive}

/-! ## Characters -/

theorem tokenChar_ne {c : UInt16} (h : tokenChar c) :
    blank c = false ∧ c ≠ 34 ∧ c ≠ 44 ∧ c ≠ 61 ∧ c ≠ 92 := by
  refine ⟨?_, ?_, ?_, ?_, ?_⟩
  · rw [Bool.eq_false_iff]
    intro hblank
    simp only [blank, Bool.or_eq_true, beq_iff_eq] at hblank
    rcases hblank with rfl | rfl <;> exact absurd h (by decide)
  all_goals rintro rfl; exact absurd h (by decide)

theorem blank_ne {c : UInt16} (h : blank c) : c ≠ 34 ∧ c ≠ 44 ∧ c ≠ 61 ∧ c ≠ 92 := by
  refine ⟨?_, ?_, ?_, ?_⟩
  all_goals rintro rfl; exact absurd h (by decide)

theorem plainQuoted_spec {c : UInt16} : plainQuoted c ↔ printable c ∧ c ≠ 34 ∧ c ≠ 92 := by
  simp [plainQuoted, and_assoc]

/-! ## Quoted strings -/

theorem quotedMatches_of_quotedBody (h : QuotedBody t v) : quotedMatches (t ++ [34]) := by
  induction h with
  | nil => rfl
  | @plain c t v hc _ ih =>
    obtain ⟨d, rest, hrest⟩ : ∃ d rest, t ++ [34] = d :: rest := by
      cases t with
      | nil => exact ⟨34, [], rfl⟩
      | cons d t => exact ⟨d, t ++ [34], rfl⟩
    rw [List.cons_append, hrest, quotedMatches, if_neg (plainQuoted_spec.mp hc).2.2, ← hrest, hc, ih]
    rfl
  | @escaped c t v hc _ ih =>
    rw [List.cons_append, List.cons_append, quotedMatches, if_pos rfl, hc, ih]
    rfl

theorem unescape_of_quotedBody (h : QuotedBody t v) : unescape t = v := by
  induction h with
  | nil => rfl
  | @plain c t v hc _ ih =>
    have hne : ¬ (c = 92 ∧ printable t.head?.get! = true) := fun h => (plainQuoted_spec.mp hc).2.2 h.1
    cases t with
    | nil =>
      rw [← ih]
      rfl
    | cons d t => rw [unescape, if_neg fun h => (plainQuoted_spec.mp hc).2.2 h.1, ih]
  | @escaped c t v hc _ ih => rw [unescape, if_pos ⟨rfl, hc⟩, ih]

/-- What matches up to its end is a quoted string. -/
theorem quotedBody_of_quotedMatches (h : quotedMatches text) :
    ∃ t v, text = t ++ [34] ∧ QuotedBody t v := by
  fun_induction quotedMatches text with
  | case1 => simp at h
  | case2 c =>
    obtain rfl := of_decide_eq_true h
    exact ⟨[], [], rfl, .nil⟩
  | case3 d rest ih =>
    obtain ⟨hd, hrest⟩ := Bool.and_eq_true_iff.mp h
    obtain ⟨t, v, rfl, ht⟩ := ih hrest
    exact ⟨92 :: d :: t, d :: v, rfl, .escaped hd ht⟩
  | case4 c d rest hc ih =>
    obtain ⟨hplain, hrest⟩ := Bool.and_eq_true_iff.mp h
    obtain ⟨t, v, heq, ht⟩ := ih hrest
    exact ⟨c :: t, c :: v, by rw [heq, List.cons_append], .plain hplain ht⟩

/-- The argument of a directive matches exactly if it is a value. -/
theorem matchValue_iff : (matchValue text = true ∧ unquote text = v) ↔ ValueText text v := by
  constructor
  · rintro ⟨hmatch, rfl⟩
    unfold matchValue at hmatch
    unfold unquote
    split at hmatch
    · rename_i rest
      obtain ⟨t, v, rfl, hbody⟩ := quotedBody_of_quotedMatches hmatch
      rw [List.dropLast_concat, unescape_of_quotedBody hbody]
      exact .quoted hbody
    · simp only [Bool.and_eq_true, decide_eq_true_eq, List.all_eq_true] at hmatch
      exact .token hmatch
  · intro h
    cases h with
    | token htoken =>
      obtain ⟨hne, hchars⟩ := htoken
      obtain ⟨c, t, rfl⟩ := List.exists_cons_of_ne_nil hne
      have hc : c ≠ 34 := (tokenChar_ne (hchars c (by simp))).2.1
      have hall : (c :: t).all tokenChar := List.all_eq_true.mpr hchars
      constructor
      · unfold matchValue
        split
        · rename_i heq
          exact absurd (List.cons.inj heq).1 hc
        · simp [hall]
      · unfold unquote
        split
        · rename_i heq
          exact absurd (List.cons.inj heq).1 hc
        · rfl
    | quoted hbody =>
      refine ⟨quotedMatches_of_quotedBody hbody, ?_⟩
      rw [unquote, List.dropLast_concat]
      exact unescape_of_quotedBody hbody

/-! ## Members -/

/-- A text without blanks at its ends stays as it is between blanks. -/
theorem trimBlanks_between {leading trailing : Text} (hleading : Blanks leading)
    (htrailing : Blanks trailing) (hhead : ∀ c ∈ t.head?, blank c = false)
    (hlast : ∀ c ∈ t.getLast?, blank c = false) : trimBlanks (leading ++ t ++ trailing) = t := by
  rw [trimBlanks_append_blanks htrailing, trimBlanks_blanks_append hleading, trimBlanks,
    dropWhile_of_startsWithout hhead, List.rdropWhile_eq_self_iff]
  intro hne hblank
  have hfalse := hlast _ (List.getLast?_eq_some_getLast hne)
  rw [hblank] at hfalse
  exact absurd hfalse (by decide)

/-- A text is what is left of it, between blanks. -/
theorem trimBlanks_split (t : Text) :
    ∃ leading trailing, Blanks leading ∧ Blanks trailing ∧ t = leading ++ trimBlanks t ++ trailing := by
  refine ⟨t.takeWhile blank, (t.dropWhile blank).rtakeWhile blank, ?_, ?_, ?_⟩
  · intro c hc
    exact List.mem_takeWhile_imp hc
  · intro c hc
    exact List.mem_rtakeWhile_imp hc
  · rw [List.append_assoc, trimBlanks, List.rdropWhile_append_rtakeWhile,
      List.takeWhile_append_dropWhile]

theorem Token.head? (h : Token t) : ∀ c ∈ t.head?, blank c = false :=
  fun c hc => (tokenChar_ne (h.2 c (List.mem_of_mem_head? hc))).1

theorem Token.getLast? (h : Token t) : ∀ c ∈ t.getLast?, blank c = false :=
  fun c hc => (tokenChar_ne (h.2 c (List.mem_of_mem_getLast? hc))).1

theorem ValueText.ends (h : ValueText t v) :
    (∀ c ∈ t.head?, blank c = false) ∧ ∀ c ∈ t.getLast?, blank c = false := by
  cases h with
  | token htoken => exact ⟨htoken.head?, htoken.getLast?⟩
  | quoted hbody =>
    constructor
    · intro c hc
      obtain rfl : 34 = c := by simpa using hc
      decide
    · intro c hc
      rw [← List.cons_append, List.getLast?_concat] at hc
      obtain rfl := Option.some.inj hc
      decide

theorem ValueText.ne_nil (h : ValueText t v) : t ≠ [] := by
  cases h with
  | token htoken => exact htoken.1
  | quoted => simp

/-- A directive without a value. -/
theorem matchDirective_name {name : Text} (h : Token name) : matchDirective name = some (name, none) := by
  have htake : name.takeWhile tokenChar = name := List.takeWhile_eq_self_iff.mpr h.2
  have hdrop : name.dropWhile tokenChar = [] := List.dropWhile_eq_nil_iff.mpr h.2
  unfold matchDirective
  dsimp only
  rw [htake, hdrop, if_neg h.1]

/-- A directive with a value. -/
theorem matchDirective_value {name before after : Text} (hname : Token name) (hbefore : Blanks before)
    (hafter : Blanks after) (hvalue : ValueText t v) :
    matchDirective (name ++ before ++ 61 :: (after ++ t)) = some (name, some t) := by
  have hstop : StartsWithout tokenChar (before ++ 61 :: (after ++ t)) := by
    intro c hc
    cases before with
    | nil =>
      obtain rfl : 61 = c := by simpa using hc
      decide
    | cons b before =>
      obtain rfl : b = c := by simpa using hc
      have hb := hbefore b (by simp)
      rw [Bool.eq_false_iff]
      intro htoken
      rw [(tokenChar_ne htoken).1] at hb
      exact absurd hb (by decide)
  have hequals : StartsWithout blank (61 :: (after ++ t)) := startsWithout_cons.mpr (by decide)
  have hshape : name ++ before ++ 61 :: (after ++ t) = name ++ (before ++ 61 :: (after ++ t)) := by simp
  unfold matchDirective
  dsimp only
  rw [hshape, takeWhile_run hname.2 hstop, dropWhile_run hname.2 hstop, if_neg hname.1]
  split
  · rename_i hnil
    simp at hnil
  · rw [dropWhile_run hbefore hequals]
    simp only []
    rw [dropWhile_run hafter hvalue.ends.1, if_pos (matchValue_iff.mpr hvalue).1]

/-- What the expression matches. -/
theorem matchDirective_spec {name : Text} {value : Option Text}
    (h : matchDirective text = some (name, value)) :
    Token name ∧ (value = none ∧ text = name ∨ ∃ before after t, value = some t ∧ Blanks before ∧
      Blanks after ∧ matchValue t ∧ text = name ++ before ++ 61 :: (after ++ t)) := by
  have hsplit := List.takeWhile_append_dropWhile (p := tokenChar) (l := text)
  unfold matchDirective at h
  dsimp only at h
  split at h
  · simp at h
  · rename_i hne
    have htoken : Token (text.takeWhile tokenChar) := ⟨hne, fun c hc => List.mem_takeWhile_imp hc⟩
    split at h
    · rename_i hrest
      obtain ⟨rfl, rfl⟩ := Prod.mk.inj (Option.some.inj h)
      rw [hrest, List.append_nil] at hsplit
      exact ⟨htoken, .inl ⟨rfl, hsplit.symm⟩⟩
    · rename_i rest hcons
      split at h
      · rename_i rest' hequals
        split at h
        · rename_i hmatch
          obtain ⟨rfl, rfl⟩ := Prod.mk.inj (Option.some.inj h)
          have hbefore := List.takeWhile_append_dropWhile (p := blank) (l := text.dropWhile tokenChar)
          have hafter := List.takeWhile_append_dropWhile (p := blank) (l := rest')
          refine ⟨htoken, .inr ⟨(text.dropWhile tokenChar).takeWhile blank, rest'.takeWhile blank, _, rfl,
            fun c hc => List.mem_takeWhile_imp hc, fun c hc => List.mem_takeWhile_imp hc, hmatch, ?_⟩⟩
          rw [hafter, ← hequals, List.append_assoc, hbefore, hsplit]
        · simp at h
      · simp at h

/-- **A part is read exactly if it is a member.** -/
theorem readMember_iff : readMember text = some ds ↔ MemberText text ds := by
  constructor
  · intro h
    obtain ⟨leading, trailing, hleading, htrailing, heq⟩ := trimBlanks_split text
    unfold readMember at h
    dsimp only at h
    split at h
    · rename_i hnil
      obtain rfl := Option.some.inj h
      rw [hnil, List.append_nil] at heq
      rw [heq]
      refine .empty fun c hc => ?_
      exact (List.mem_append.mp hc).elim (hleading c) (htrailing c)
    · obtain ⟨⟨name, value⟩, hmatch, rfl⟩ := Option.map_eq_some_iff.mp h
      obtain ⟨hname, ⟨rfl, htext⟩ | ⟨before, after, t, rfl, hbefore, hafter, hvalue, htext⟩⟩ :=
        matchDirective_spec hmatch
      · rw [heq, htext]
        exact .name hleading hname htrailing
      · rw [heq, htext]
        exact .value hleading hname hbefore hafter (matchValue_iff.mp ⟨hvalue, rfl⟩) htrailing
  · intro h
    unfold readMember
    dsimp only
    cases h with
    | empty hleading =>
      have hnil : trimBlanks text = [] := by
        have hblank := @trimBlanks_between [] text [] hleading (by simp [Blanks]) (by simp) (by simp)
        simpa using hblank
      rw [if_pos hnil]
    | name hleading hname htrailing =>
      rw [trimBlanks_between hleading htrailing hname.head? hname.getLast?, if_neg hname.1,
        matchDirective_name hname]
      rfl
    | @value leading name before after t v trailing hleading hname hbefore hafter hvalue htrailing =>
      have hhead : ∀ c ∈ (name ++ before ++ 61 :: (after ++ t)).head?, blank c = false := by
        rw [List.append_assoc, List.head?_append_of_ne_nil _ hname.1]
        exact hname.head?
      have hlast : ∀ c ∈ (name ++ before ++ 61 :: (after ++ t)).getLast?, blank c = false := by
        rw [← List.cons_append, ← List.append_assoc, List.getLast?_append_of_ne_nil _ hvalue.ne_nil]
        exact hvalue.ends.2
      rw [trimBlanks_between hleading htrailing hhead hlast, if_neg (by simp),
        matchDirective_value hname hbefore hafter hvalue, Option.map_some, Option.map_some,
        (matchValue_iff.mpr hvalue).2]

/-! ## Splitting -/

/-- Outside quoted strings, the automaton reads through a text. -/
def ReadsThrough (t : Text) : Prop :=
  ∀ part parts rest, splitMembers false false part parts (t ++ rest) =
    splitMembers false false (part ++ t) parts rest

theorem ReadsThrough.append {s t : Text} (hs : ReadsThrough s) (ht : ReadsThrough t) :
    ReadsThrough (s ++ t) := by
  intro part parts rest
  rw [List.append_assoc, hs, ht, List.append_assoc]

/-- What has no quotes and no commas is read through. -/
theorem readsThrough_plain (h : ∀ c ∈ t, c ≠ 34 ∧ c ≠ 44) : ReadsThrough t := by
  induction t with
  | nil =>
    intro part parts rest
    rw [List.nil_append, List.append_nil]
  | cons c t ih =>
    obtain ⟨⟨hquote, hcomma⟩, ht⟩ := List.forall_mem_cons.mp h
    intro part parts rest
    rw [List.cons_append, splitMembers, if_neg (by simp)]
    simp only [if_neg hquote]
    rw [if_neg fun h => hcomma h.1, ih ht, List.append_assoc]
    rfl

/-- Inside a quoted string, the automaton reads up to the quote that ends it. -/
theorem splitMembers_quotedBody (h : QuotedBody t v) (part : Text) (parts : List Text) (rest : Text) :
    splitMembers true false part parts (t ++ 34 :: rest) =
      splitMembers false false (part ++ (t ++ [34])) parts rest := by
  induction h generalizing part with
  | nil =>
    rw [List.nil_append, splitMembers, if_neg (by simp)]
    simp
  | @plain c t v hc _ ih =>
    obtain ⟨-, hquote, hescape⟩ := plainQuoted_spec.mp hc
    rw [List.cons_append, splitMembers, if_neg fun h => hescape h.2]
    simp only [if_neg hquote]
    rw [if_neg (by simp), ih, List.append_assoc]
    rfl
  | @escaped c t v hc _ ih =>
    rw [List.cons_append, List.cons_append, splitMembers, if_pos ⟨rfl, rfl⟩, splitMembers, ih]
    simp

theorem ValueText.readsThrough (h : ValueText t v) : ReadsThrough t := by
  cases h with
  | token htoken => exact readsThrough_plain fun c hc => ⟨(tokenChar_ne (htoken.2 c hc)).2.1,
      (tokenChar_ne (htoken.2 c hc)).2.2.1⟩
  | quoted hbody =>
    intro part parts rest
    rw [List.cons_append, List.append_assoc, List.singleton_append, splitMembers, if_neg (by simp)]
    simp only [if_pos]
    rw [if_neg (by simp)]
    simp only [Bool.not_false]
    rw [splitMembers_quotedBody hbody]
    simp

theorem Blanks.readsThrough (h : Blanks t) : ReadsThrough t :=
  readsThrough_plain fun c hc => ⟨(blank_ne (h c hc)).1, (blank_ne (h c hc)).2.1⟩

theorem Token.readsThrough (h : Token t) : ReadsThrough t :=
  readsThrough_plain fun c hc => ⟨(tokenChar_ne (h.2 c hc)).2.1, (tokenChar_ne (h.2 c hc)).2.2.1⟩

/-- **The automaton reads through a member.** -/
theorem splitMembers_memberText (h : MemberText text ds) : ReadsThrough text := by
  cases h with
  | empty hleading => exact hleading.readsThrough
  | name hleading hname htrailing =>
    exact (hleading.readsThrough.append hname.readsThrough).append htrailing.readsThrough
  | value hleading hname hbefore hafter hvalue htrailing =>
    have hequals : ReadsThrough [61] := readsThrough_plain (by decide)
    have hright := hequals.append (hafter.readsThrough.append hvalue.readsThrough)
    exact (hleading.readsThrough.append ((hname.readsThrough.append hbefore.readsThrough).append
      hright)).append htrailing.readsThrough

/-- A list of members splits into them. -/
theorem splitMembers_listText (h : ListText text ds) (parts : List Text) :
    ∃ members, splitMembers false false [] parts text = some (parts ++ members) ∧
      (members.mapM readMember).map List.flatten = some ds := by
  induction h generalizing parts with
  | @one t ds hmember =>
    refine ⟨[t], ?_, ?_⟩
    · have hread := splitMembers_memberText hmember [] parts []
      rw [List.append_nil, List.nil_append] at hread
      rw [hread]
      rfl
    · simp [readMember_iff.mpr hmember]
  | @cons t rest ds es hmember _ ih =>
    obtain ⟨members, hsplit, hread⟩ := ih (parts ++ [t])
    refine ⟨t :: members, ?_, ?_⟩
    · rw [splitMembers_memberText hmember, splitMembers, if_neg (by simp)]
      simpa using hsplit
    · obtain ⟨all, hall, rfl⟩ := Option.map_eq_some_iff.mp hread
      simp [readMember_iff.mpr hmember, hall]

/-- The parts are the text, between commas. -/
theorem splitMembers_spec {quoted escaped : Bool} {part : Text} {parts members : List Text}
    (h : splitMembers quoted escaped part parts text = some members) :
    ∃ first others, members = parts ++ (part ++ first) :: others ∧
      text = first ++ (others.map fun other => 44 :: other).flatten := by
  fun_induction splitMembers quoted escaped part parts text with
  | case1 => simp at h
  | case2 => exact ⟨[], [], by simpa using h.symm, rfl⟩
  | case3 quoted part parts c rest ih =>
    obtain ⟨first, others, rfl, rfl⟩ := ih h
    exact ⟨c :: first, others, by simp, rfl⟩
  | case4 quoted part parts c rest hescape ih =>
    obtain ⟨first, others, rfl, rfl⟩ := ih h
    exact ⟨c :: first, others, by simp, rfl⟩
  | case5 quoted part parts c rest hescape quoted' hcomma ih =>
    obtain ⟨first, others, rfl, rfl⟩ := ih h
    exact ⟨[], first :: others, by simp, by simp [hcomma.1]⟩
  | case6 quoted part parts c rest hescape quoted' hcomma ih =>
    obtain ⟨first, others, rfl, rfl⟩ := ih h
    exact ⟨c :: first, others, by simp, rfl⟩

/-- **The parser reads exactly the lists of the grammar**, each as the directives that it says. -/
theorem directives_iff (text : Text) (ds : List Directive) : directives text = some ds ↔ ListText text ds := by
  constructor
  · intro h
    obtain ⟨members, hsplit, hread⟩ := Option.bind_eq_some_iff.mp h
    obtain ⟨first, others, rfl, rfl⟩ := splitMembers_spec hsplit
    clear hsplit h
    rw [List.nil_append] at hread
    generalize hfirst : ([] : Text) ++ first = first' at hread
    obtain rfl : first = first' := by simpa using hfirst
    clear hfirst
    induction others generalizing first ds with
    | nil =>
      obtain ⟨all, hall, rfl⟩ := Option.map_eq_some_iff.mp hread
      simp only [List.mapM_cons, List.mapM_nil, Option.pure_def, Option.bind_eq_bind,
        Option.bind_eq_some_iff, Option.some.injEq] at hall
      obtain ⟨ds, hds, _, rfl, rfl⟩ := hall
      simpa using ListText.one (readMember_iff.mp hds)
    | cons other others ih =>
      obtain ⟨all, hall, rfl⟩ := Option.map_eq_some_iff.mp hread
      rw [List.mapM_cons] at hall
      simp only [Option.pure_def, Option.bind_eq_bind, Option.bind_eq_some_iff, Option.some.injEq] at hall
      obtain ⟨ds, hds, rest, hrest, rfl⟩ := hall
      have hlist := ih rest.flatten other (by rw [hrest]; rfl)
      rw [List.flatten_cons, List.map_cons, List.flatten_cons]
      exact .cons (readMember_iff.mp hds) hlist
  · intro h
    obtain ⟨members, hsplit, hread⟩ := splitMembers_listText h []
    rw [directives, hsplit]
    exact hread

end AgentSig.Discovery
