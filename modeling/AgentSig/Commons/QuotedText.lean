import AgentSig.Commons.Text

/-!
# Quoted strings with escapes

In a quoted string a backslash makes the next character literal, so a quotation mark or a separator
may stand inside. Where a separator stands outside of every quoted string is decided by a scan with
three states.

## Main definitions

* `QuotedChar`, `quotedText`: the characters of a quoted string, each escaped or not, and its text
* `Quoting`, `Quoting.after`: the state of a scan
* `Exposed q c t`: `c` stands in `t` outside of every quoted string, for a scan that begins in `q`

## Main results

* `exposed_append`: a scan over two texts is one scan after the other
* `after_quotedText`, `not_exposed_quotedText`: a quoted string exposes no separator
-/

namespace Commons

/-- A character of a quoted string. -/
structure QuotedChar where
  unit : UInt16
  escaped : Bool
  deriving DecidableEq, Repr

/-- The text of a character, after a backslash if it is escaped. -/
def QuotedChar.text (c : QuotedChar) : Text := if c.escaped then [92, c.unit] else [c.unit]

/-- The character may stand in a quoted string: quotation marks and backslashes are escaped. -/
def QuotedChar.Valid (p : UInt16 → Bool) (c : QuotedChar) : Prop :=
  p c.unit ∧ (c.escaped = false → c.unit ≠ 34 ∧ c.unit ≠ 92)

instance (p : UInt16 → Bool) : DecidablePred (QuotedChar.Valid p) :=
  fun _ => inferInstanceAs (Decidable (_ ∧ (_ → _ ∧ _)))

/-- The text of a quoted string. -/
def quotedText (chars : List QuotedChar) : Text := 34 :: (chars.flatMap QuotedChar.text ++ [34])

/-! ## Scanning -/

/-- Where a scan stands: outside of quoted strings, in one, or after a backslash in one. -/
inductive Quoting
  | outside
  | inside
  | escaped
  deriving DecidableEq, Repr

/-- The state after a character. -/
def Quoting.next : Quoting → UInt16 → Quoting
  | .outside, c => if c = 34 then .inside else .outside
  | .inside, c => if c = 34 then .outside else if c = 92 then .escaped else .inside
  | .escaped, _ => .inside

/-- The state after a text. -/
def Quoting.after (q : Quoting) (t : Text) : Quoting := t.foldl Quoting.next q

/-- An occurrence of `c` in `t` is met outside of quoted strings, by a scan that begins in `q`. -/
def Exposed (q : Quoting) (c : UInt16) (t : Text) : Prop :=
  ∃ before rest, t = before ++ c :: rest ∧ q.after before = .outside

variable {q : Quoting} {c d : UInt16} {t : Text}

@[simp] theorem after_nil : q.after [] = q := rfl

@[simp] theorem after_cons : q.after (d :: t) = (q.next d).after t := rfl

@[simp] theorem after_append (s : Text) : q.after (s ++ t) = (q.after s).after t := List.foldl_append ..

@[simp] theorem not_exposed_nil : ¬ Exposed q c [] := by
  rintro ⟨before, rest, h, -⟩
  simp at h

@[simp] theorem exposed_cons : Exposed q c (d :: t) ↔ (q = .outside ∧ d = c) ∨ Exposed (q.next d) c t := by
  constructor
  · rintro ⟨before, rest, h, hq⟩
    cases before with
    | nil => exact .inl ⟨hq, (List.cons.inj h).1⟩
    | cons e before =>
      obtain ⟨rfl, rfl⟩ := List.cons.inj h
      exact .inr ⟨before, rest, rfl, hq⟩
  · rintro (⟨rfl, rfl⟩ | ⟨before, rest, rfl, hq⟩)
    · exact ⟨[], t, rfl, rfl⟩
    · exact ⟨d :: before, rest, rfl, hq⟩

/-- A scan over two texts is a scan over the second after the first. -/
theorem exposed_append (s : Text) : Exposed q c (s ++ t) ↔ Exposed q c s ∨ Exposed (q.after s) c t := by
  induction s generalizing q with
  | nil => simp
  | cons e s ih => rw [List.cons_append, exposed_cons, ih, exposed_cons, after_cons, or_assoc]

/-- A text without quotation marks opens no quoted string. -/
theorem after_of_notMem (h : 34 ∉ t) : Quoting.outside.after t = .outside := by
  induction t with
  | nil => rfl
  | cons e t ih =>
    rw [List.mem_cons, not_or] at h
    rw [after_cons, Quoting.next, if_neg (Ne.symm h.1)]
    exact ih h.2

theorem not_exposed_of_notMem (h : c ∉ t) : ¬ Exposed q c t := by
  rintro ⟨before, rest, rfl, -⟩
  simp at h

/-! ## Scanning a quoted string -/

section Quoted

variable {p : UInt16 → Bool} {chars : List QuotedChar} (h : ∀ e ∈ chars, e.Valid p)

include h

theorem after_flatMap : Quoting.inside.after (chars.flatMap QuotedChar.text) = .inside := by
  induction chars with
  | nil => rfl
  | cons e chars ih =>
    obtain ⟨⟨-, he⟩, hchars⟩ := List.forall_mem_cons.mp h
    rw [List.flatMap_cons, after_append]
    cases hescaped : e.escaped with
    | true => simpa [QuotedChar.text, hescaped, Quoting.next] using ih hchars
    | false => simpa [QuotedChar.text, hescaped, Quoting.next, he hescaped] using ih hchars

theorem not_exposed_flatMap : ¬ Exposed .inside c (chars.flatMap QuotedChar.text) := by
  induction chars with
  | nil => simp
  | cons e chars ih =>
    obtain ⟨⟨-, he⟩, hchars⟩ := List.forall_mem_cons.mp h
    rw [List.flatMap_cons, exposed_append]
    cases hescaped : e.escaped with
    | true => simpa [QuotedChar.text, hescaped, Quoting.next] using ih hchars
    | false => simpa [QuotedChar.text, hescaped, Quoting.next, he hescaped] using ih hchars

theorem after_quotedText : Quoting.outside.after (quotedText chars) = .outside := by
  simp [quotedText, Quoting.next, after_flatMap h]

/-- Within a quoted string no separator is met. -/
theorem not_exposed_quotedText (hc : c ≠ 34) : ¬ Exposed .outside c (quotedText chars) := by
  simp [quotedText, Quoting.next, exposed_append, not_exposed_flatMap h, after_flatMap h, Ne.symm hc]

end Quoted

end Commons
