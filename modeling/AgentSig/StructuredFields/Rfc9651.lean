import AgentSig.Commons.Base64
import AgentSig.StructuredFields.Types

/-!
# Parsing per RFC 9651

The parsing algorithm of RFC 9651, Section 4.2, as a relation between an input, the value
read from its front and the input that remains. A step of the algorithm that fails has no
derivation. Maps are kept as their occurrences in order; the algorithm's value is
`Field.lastWins`, in which a repeated key overwrites in place.

The productions for numbers and byte sequences state their digit and symbol counts outright:
at most 15 digits, or at most 12 before and 1 to 3 after the point; and base64 symbols whose
padding may be missing and whose pad bits may be anything.

## Main definitions

* `Key`, `Bare`, `Parameters`, `Item`, `InnerList`, `Member`: the productions of Section 4.2
* `ListMembers`, `Entries`: the top-level lists and dictionaries
* `Parses type input f`: the algorithm reads the occurrences `f` from the whole input

## Main results

* `Parameters.length_le`, `Item.length_lt`, `Member.length_lt`: what a production consumes
-/

namespace AgentSig.Rfc9651

open Commons StructuredFields

/-! ## Character classes -/

/-- `DIGIT`. -/
def DIGIT (c : UInt16) : Bool := 0x30 ≤ c && c ≤ 0x39

/-- `ALPHA`. -/
def ALPHA (c : UInt16) : Bool := (0x41 ≤ c && c ≤ 0x5a) || (0x61 ≤ c && c ≤ 0x7a)

/-- `lcalpha` or `*`: the first character of a key. -/
def keyStart (c : UInt16) : Bool := (0x61 ≤ c && c ≤ 0x7a) || c == 0x2a

/-- `lcalpha`, `DIGIT`, `_`, `-`, `.` or `*`. -/
def keyChar (c : UInt16) : Bool :=
  keyStart c || DIGIT c || c == 0x5f || c == 0x2d || c == 0x2e

/-- `tchar`, `:` or `/`. -/
def tokenChar (c : UInt16) : Bool :=
  ALPHA c || DIGIT c || (ascii "!#$%&'*+-.^_`|~:/").contains c

/-- `SP`. -/
def SP (c : UInt16) : Bool := c == 0x20

/-- `OWS` characters: `SP` or `HTAB`. -/
def OWS (c : UInt16) : Bool := c == 0x20 || c == 0x09

/-- `VCHAR` or `SP`. -/
def printable (c : UInt16) : Bool := 0x20 ≤ c && c ≤ 0x7e

/-- A lowercase hexadecimal digit. -/
def lowerHex (c : UInt16) : Bool := DIGIT c || (0x61 ≤ c && c ≤ 0x66)

/-- The value of a lowercase hexadecimal digit. -/
def hexValue (c : UInt16) : ℕ := if DIGIT c then c.toNat - 0x30 else c.toNat - 0x61 + 10

/-- A base64 symbol. -/
def base64Char (c : UInt16) : Bool := ALPHA c || DIGIT c || c == 0x2b || c == 0x2f

/-! ## Bare items -/

/-- Section 4.2.3.3. -/
def Key (input key rest : Text) : Prop :=
  input = key ++ rest ∧ (∃ c ∈ key.head?, keyStart c) ∧ (∀ c ∈ key, keyChar c) ∧
    StartsWithout keyChar rest

/-- Section 4.2.4, the sign. -/
def sign (negative : Bool) : Text := if negative then [0x2d] else []

/-- Section 4.2.4, step 10. -/
def applySign (negative : Bool) (n : ℕ) : ℤ := if negative then -n else n

/-- Section 4.2.4, an Integer. -/
def Integer (input : Text) (value : ℤ) (rest : Text) : Prop :=
  ∃ negative digits, input = sign negative ++ digits ++ rest ∧ (∀ c ∈ digits, DIGIT c) ∧
    1 ≤ digits.length ∧ digits.length ≤ 15 ∧
    StartsWithout (fun c => DIGIT c || c == 0x2e) rest ∧
    value = applySign negative (readDigits 0 digits)

/-- Section 4.2.4, a Decimal. -/
def Decimal (input : Text) (thousandths : ℤ) (rest : Text) : Prop :=
  ∃ negative whole fraction, input = sign negative ++ whole ++ 0x2e :: (fraction ++ rest) ∧
    (∀ c ∈ whole, DIGIT c) ∧ (∀ c ∈ fraction, DIGIT c) ∧
    1 ≤ whole.length ∧ whole.length ≤ 12 ∧ 1 ≤ fraction.length ∧ fraction.length ≤ 3 ∧
    StartsWithout DIGIT rest ∧
    thousandths = applySign negative
      (readDigits 0 whole * 1000 + readDigits 0 fraction * 10 ^ (3 - fraction.length))

/-- Section 4.2.5, step 4: the characters up to the closing quote. -/
inductive StringBody : Text → Text → Text → Prop
  | close {rest : Text} : StringBody (0x22 :: rest) [] rest
  | escape {c : UInt16} {input value rest : Text} : c = 0x22 ∨ c = 0x5c →
      StringBody input value rest → StringBody (0x5c :: c :: input) (c :: value) rest
  | char {c : UInt16} {input value rest : Text} : printable c → c ≠ 0x22 → c ≠ 0x5c →
      StringBody input value rest → StringBody (c :: input) (c :: value) rest

/-- Section 4.2.6. -/
def Token (input token rest : Text) : Prop :=
  input = token ++ rest ∧ (∃ c ∈ token.head?, ALPHA c || c == 0x2a) ∧
    (∀ c ∈ token, tokenChar c) ∧ StartsWithout tokenChar rest

/-- Section 4.2.7: symbols, then at most the pads that complete their last group. -/
def ByteSequence (input : Text) (value : List UInt8) (rest : Text) : Prop :=
  ∃ symbols pads, input = 0x3a :: (symbols ++ List.replicate pads 0x3d ++ 0x3a :: rest) ∧
    (∀ c ∈ symbols, base64Char c) ∧ symbols.length % 4 ≠ 1 ∧
    pads ≤ Base64.padding symbols.length ∧ Base64.decodeText symbols = some value

/-- Section 4.2.10, step 4: the octets up to the closing quote. -/
inductive DisplayBody : Text → List UInt8 → Text → Prop
  | close {rest : Text} : DisplayBody (0x22 :: rest) [] rest
  | escape {x y : UInt16} {input : Text} {octets : List UInt8} {rest : Text} :
      lowerHex x → lowerHex y → DisplayBody input octets rest →
      DisplayBody (0x25 :: x :: y :: input) (.ofNat (hexValue x * 16 + hexValue y) :: octets) rest
  | char {c : UInt16} {input : Text} {octets : List UInt8} {rest : Text} :
      printable c → c ≠ 0x25 → c ≠ 0x22 → DisplayBody input octets rest →
      DisplayBody (c :: input) (c.toUInt8 :: octets) rest

/-- Section 4.2.3.1. -/
inductive Bare : Text → BareItem → Text → Prop
  | integer {input : Text} {z : ℤ} {rest : Text} : Integer input z rest →
      Bare input (.integer (.integer z)) rest
  | decimal {input : Text} {z : ℤ} {rest : Text} : Decimal input z rest →
      Bare input (.decimal (.integer z)) rest
  | string {input value rest : Text} : StringBody input value rest →
      Bare (0x22 :: input) (.string value) rest
  | token {input value rest : Text} : Token input value rest → Bare input (.token value) rest
  | bytes {input : Text} {value : List UInt8} {rest : Text} : ByteSequence input value rest →
      Bare input (.bytes value) rest
  | boolean {b : Bool} {rest : Text} :
      Bare (0x3f :: (if b then 0x31 else 0x30) :: rest) (.boolean b) rest
  | date {input : Text} {z : ℤ} {rest : Text} : Integer input z rest →
      Bare (0x40 :: input) (.date (.integer z)) rest
  | displayString {input : Text} {octets : List UInt8} {cs : List Char} {rest : Text} :
      DisplayBody input octets rest → utf8Decode octets = some cs →
      Bare (0x25 :: 0x22 :: input) (.displayString (units cs)) rest

/-! ## Parameters, items and members -/

/-- Section 4.2.3.2, step 2.5: after an equals sign a bare item, else Boolean true. -/
inductive ParameterValue : Text → BareItem → Text → Prop
  | explicit {s : Text} {v : BareItem} {rest : Text} : Bare s v rest →
      ParameterValue (0x3d :: s) v rest
  | implicit {rest : Text} : StartsWithout (· == 0x3d) rest →
      ParameterValue rest (.boolean true) rest

/-- Section 4.2.3.2. -/
inductive Parameters : Text → StructuredFields.Parameters → Text → Prop
  | nil {rest : Text} : StartsWithout (· == 0x3b) rest → Parameters rest [] rest
  | cons {input k s : Text} {v : BareItem} {s' rest : Text} {ps : StructuredFields.Parameters} :
      Key (input.dropWhile SP) k s → ParameterValue s v s' → Parameters s' ps rest →
      Parameters (0x3b :: input) ((k, v) :: ps) rest

/-- Section 4.2.3. -/
def Item (input : Text) (i : StructuredFields.Item) (rest : Text) : Prop :=
  ∃ s, Bare input i.bare s ∧ Parameters s i.parameters rest

/-- Section 4.2.1.2, step 3: the items up to the closing parenthesis. -/
inductive InnerItems : Text → List StructuredFields.Item → Text → Prop
  | close {input rest : Text} : input.dropWhile SP = 0x29 :: rest → InnerItems input [] rest
  | item {input s rest : Text} {i : StructuredFields.Item} {is : List StructuredFields.Item} :
      input ≠ [] → (input.dropWhile SP).head? ≠ some 0x29 → Item (input.dropWhile SP) i s →
      s.head? = some 0x20 ∨ s.head? = some 0x29 → InnerItems s is rest →
      InnerItems input (i :: is) rest

/-- Section 4.2.1.2. -/
def InnerList (input : Text) (l : StructuredFields.InnerList) (rest : Text) : Prop :=
  ∃ s s', input = 0x28 :: s ∧ InnerItems s l.items s' ∧ Parameters s' l.parameters rest

/-- Section 4.2.1.1. -/
inductive Member : Text → StructuredFields.Member → Text → Prop
  | innerList {input rest : Text} {l : StructuredFields.InnerList} : InnerList input l rest →
      Member input (.innerList l) rest
  | item {input rest : Text} {i : StructuredFields.Item} : input.head? ≠ some 0x28 →
      Item input i rest → Member input (.item i) rest

/-- Sections 4.2.1 and 4.2.2: another member follows a comma and optional whitespace. -/
def Separator (input rest : Text) : Prop :=
  ∃ s, input.dropWhile OWS = 0x2c :: s ∧ rest = s.dropWhile OWS ∧ rest ≠ []

/-- Sections 4.2.1 and 4.2.2: elements up to the end, without a trailing comma. -/
inductive Separated {α : Type} (element : Text → α → Text → Prop) : Text → List α → Prop
  | nil : Separated element [] []
  | last {input s : Text} {a : α} : input ≠ [] → element input a s → s.dropWhile OWS = [] →
      Separated element input [a]
  | cons {input s s' : Text} {a : α} {as : List α} : input ≠ [] → element input a s →
      Separator s s' → Separated element s' as → Separated element input (a :: as)

/-- Section 4.2.1. -/
def ListMembers : Text → List StructuredFields.Member → Prop := Separated Member

/-- Section 4.2.2, one entry. -/
inductive Entry : Text → Text × StructuredFields.Member → Text → Prop
  | explicit {input k s rest : Text} {m : StructuredFields.Member} : Key input k (0x3d :: s) →
      Member s m rest → Entry input (k, m) rest
  | implicit {input k s rest : Text} {ps : StructuredFields.Parameters} : Key input k s →
      StartsWithout (· == 0x3d) s → Parameters s ps rest →
      Entry input (k, .item ⟨.boolean true, ps⟩) rest

/-- Section 4.2.2. -/
def Entries : Text → List (Text × StructuredFields.Member) → Prop := Separated Entry

/-- Section 4.2: the occurrences that the algorithm reads from an ASCII input. -/
inductive Parses : FieldType → Text → Field → Prop
  | list {input : Text} {ms : List StructuredFields.Member} : isAscii input →
      ListMembers (input.dropWhile SP) ms → Parses .list input (.list ms)
  | dictionary {input : Text} {es : List (Text × StructuredFields.Member)} : isAscii input →
      Entries (input.dropWhile SP) es → Parses .dictionary input (.dictionary es)
  | item {input rest : Text} {i : StructuredFields.Item} : isAscii input →
      Item (input.dropWhile SP) i rest → rest.dropWhile SP = [] → Parses .item input (.item i)

/-! ## Consumption -/

theorem Key.length_lt {input k rest : Text} (h : Key input k rest) :
    rest.length < input.length := by
  obtain ⟨rfl, ⟨c, hc, -⟩, -, -⟩ := h
  cases k with
  | nil => simp at hc
  | cons d k =>
    simp only [List.length_append, List.length_cons]
    omega

theorem Integer.length_lt {input : Text} {z : ℤ} {rest : Text} (h : Integer input z rest) :
    rest.length < input.length := by
  obtain ⟨negative, digits, rfl, -, hlen, -⟩ := h
  simp
  omega

theorem Decimal.length_lt {input : Text} {z : ℤ} {rest : Text} (h : Decimal input z rest) :
    rest.length < input.length := by
  obtain ⟨negative, whole, fraction, rfl, -⟩ := h
  simp
  omega

theorem StringBody.length_lt {input value rest : Text} (h : StringBody input value rest) :
    rest.length < input.length := by
  induction h with
  | close => simp
  | escape _ _ ih => simp; omega
  | char _ _ _ _ ih => simp; omega

theorem DisplayBody.length_lt {input : Text} {octets : List UInt8} {rest : Text}
    (h : DisplayBody input octets rest) : rest.length < input.length := by
  induction h with
  | close => simp
  | escape _ _ _ ih => simp; omega
  | char _ _ _ _ ih => simp; omega

theorem Bare.length_lt {input : Text} {v : BareItem} {rest : Text} (h : Bare input v rest) :
    rest.length < input.length := by
  cases h with
  | integer h => exact h.length_lt
  | decimal h => exact h.length_lt
  | string h => have := h.length_lt; simp; omega
  | token h =>
    obtain ⟨rfl, ⟨c, hc, -⟩, -, -⟩ := h
    have := List.length_pos_of_mem (List.mem_of_mem_head? hc)
    simp
    omega
  | bytes h =>
    obtain ⟨symbols, pads, rfl, -⟩ := h
    simp only [List.length_append, List.length_cons]
    omega
  | boolean =>
    simp only [List.length_cons]
    omega
  | date h => have := h.length_lt; simp; omega
  | displayString h _ => have := h.length_lt; simp; omega

theorem length_dropWhile_le (p : UInt16 → Bool) (t : Text) : (t.dropWhile p).length ≤ t.length :=
  (List.dropWhile_suffix p).length_le

theorem ParameterValue.length_le {input : Text} {v : BareItem} {rest : Text}
    (h : ParameterValue input v rest) : rest.length ≤ input.length := by
  cases h with
  | explicit h => exact (h.length_lt.trans (Nat.lt_succ_self _)).le
  | implicit => exact le_rfl

theorem Parameters.length_le {input : Text} {ps : StructuredFields.Parameters} {rest : Text}
    (h : Parameters input ps rest) : rest.length ≤ input.length := by
  induction h with
  | nil => exact le_rfl
  | @cons input k s v s' rest ps hk hv _ ih =>
    have := hk.length_lt
    have := hv.length_le
    have := length_dropWhile_le SP input
    simp only [List.length_cons]
    omega

theorem Item.length_lt {input : Text} {i : StructuredFields.Item} {rest : Text}
    (h : Item input i rest) : rest.length < input.length := by
  obtain ⟨s, hb, hp⟩ := h
  exact hp.length_le.trans_lt hb.length_lt

theorem InnerItems.length_lt {input : Text} {is : List StructuredFields.Item} {rest : Text}
    (h : InnerItems input is rest) : rest.length < input.length := by
  induction h with
  | @close input rest h =>
    have := length_dropWhile_le SP input
    simp [h] at this
    omega
  | @item input s rest i is _ _ hi _ _ ih =>
    have := hi.length_lt
    have := length_dropWhile_le SP input
    omega

theorem Member.length_lt {input : Text} {m : StructuredFields.Member} {rest : Text}
    (h : Member input m rest) : rest.length < input.length := by
  cases h with
  | innerList h =>
    obtain ⟨s, s', rfl, hi, hp⟩ := h
    have := hi.length_lt
    have := hp.length_le
    simp
    omega
  | item _ h => exact h.length_lt

theorem Separator.length_lt {input rest : Text} (h : Separator input rest) :
    rest.length < input.length := by
  obtain ⟨s, hs, rfl, -⟩ := h
  have h₁ := length_dropWhile_le OWS input
  have h₂ := length_dropWhile_le OWS s
  rw [hs, List.length_cons] at h₁
  omega

theorem Entry.length_lt {input : Text} {e : Text × StructuredFields.Member} {rest : Text}
    (h : Entry input e rest) : rest.length < input.length := by
  cases h with
  | explicit hk hm =>
    have := hk.length_lt
    have := hm.length_lt
    simp only [List.length_cons] at *
    omega
  | implicit hk _ hp => exact hp.length_le.trans_lt hk.length_lt

/-! ## First characters -/

/-- A character that starts no item: whitespace or a parenthesis. -/
def outside (c : UInt16) : Bool := OWS c || c == 0x28 || c == 0x29

theorem SP_of_outside {c : UInt16} (h : SP c) : outside c := by
  rw [eq_of_beq h]
  decide

theorem OWS_of_SP {c : UInt16} (h : SP c) : OWS c := by
  rw [eq_of_beq h]
  decide

theorem OWS_of_outside {c : UInt16} (h : OWS c) : outside c := by
  simp [outside, h]

theorem outside_of_DIGIT {c : UInt16} (h : DIGIT c) : outside c = false := by
  simp only [DIGIT, Bool.and_eq_true, decide_eq_true_eq] at h
  simp only [outside, OWS, Bool.or_eq_false_iff, beq_eq_false_iff_ne]
  grind

theorem outside_of_ALPHA {c : UInt16} (h : ALPHA c || c == 0x2a) : outside c = false := by
  simp only [ALPHA, Bool.or_eq_true, Bool.and_eq_true, decide_eq_true_eq, beq_iff_eq] at h
  simp only [outside, OWS, Bool.or_eq_false_iff, beq_eq_false_iff_ne]
  grind

theorem outside_of_keyStart {c : UInt16} (h : keyStart c) : outside c = false := by
  simp only [keyStart, Bool.or_eq_true, Bool.and_eq_true, decide_eq_true_eq, beq_iff_eq] at h
  simp only [outside, OWS, Bool.or_eq_false_iff, beq_eq_false_iff_ne]
  grind

theorem sign_first {negative : Bool} {ds t : Text} (hds : ∀ c ∈ ds, DIGIT c)
    (hpos : 1 ≤ ds.length) : StartsWithout outside (sign negative ++ (ds ++ t)) := by
  cases negative with
  | true => exact startsWithout_cons.mpr (by decide)
  | false =>
    obtain ⟨d, ds, rfl⟩ := List.exists_cons_of_ne_nil (List.length_pos_iff.mp hpos)
    exact startsWithout_cons.mpr (outside_of_DIGIT (hds d (by simp)))

theorem Key.first {input k rest : Text} (h : Key input k rest) : StartsWithout outside input := by
  obtain ⟨rfl, ⟨c, hc, hfirst⟩, -⟩ := h
  cases k with
  | nil => simp at hc
  | cons d k =>
    obtain rfl : d = c := by simpa using hc
    exact startsWithout_cons.mpr (outside_of_keyStart hfirst)

theorem Bare.first {input : Text} {v : BareItem} {rest : Text} (h : Bare input v rest) :
    StartsWithout outside input := by
  cases h with
  | integer h =>
    obtain ⟨negative, ds, rfl, hds, hpos, -⟩ := h
    rw [List.append_assoc]
    exact sign_first hds hpos
  | decimal h =>
    obtain ⟨negative, ds, fs, rfl, hds, -, hpos, -⟩ := h
    rw [List.append_assoc]
    exact sign_first hds hpos
  | token h =>
    obtain ⟨rfl, ⟨c, hc, hfirst⟩, -, -⟩ := h
    intro d hd
    rw [List.head?_append, hc, Option.some_or, Option.mem_some_iff] at hd
    exact hd ▸ outside_of_ALPHA hfirst
  | bytes h =>
    obtain ⟨symbols, pads, rfl, -⟩ := h
    exact startsWithout_cons.mpr (by decide)
  | string | boolean | date | displayString => exact startsWithout_cons.mpr (by decide)

theorem Item.first {input : Text} {i : StructuredFields.Item} {rest : Text}
    (h : Item input i rest) : StartsWithout outside input := by
  obtain ⟨s, hb, -⟩ := h
  exact hb.first

theorem InnerItems.space {input rest : Text} {is : List StructuredFields.Item}
    (h : InnerItems input is rest) : InnerItems (0x20 :: input) is rest := by
  have hsp : (0x20 :: input).dropWhile SP = input.dropWhile SP :=
    List.dropWhile_cons_of_pos (by decide)
  cases h with
  | close h => exact .close (hsp ▸ h)
  | item _ hhead hi hnext his => exact .item (by simp) (hsp ▸ hhead) (hsp ▸ hi) hnext his

theorem InnerItems.item_append {s t rest : Text} {i : StructuredFields.Item}
    {is : List StructuredFields.Item} (hi : Item (s ++ t) i t)
    (ht : t.head? = some 0x20 ∨ t.head? = some 0x29) (his : InnerItems t is rest) :
    InnerItems (s ++ t) (i :: is) rest := by
  have hfirst := hi.first
  have hsp := dropWhile_of_startsWithout (hfirst.mono fun _ => SP_of_outside)
  refine .item ?_ ?_ (hsp.symm ▸ hi) ht his
  · intro he
    have := hi.length_lt
    simp [he] at this
  · rw [hsp]
    intro he
    exact absurd (hfirst 0x29 he) (by decide)

theorem Member.first {input : Text} {m : StructuredFields.Member} {rest : Text}
    (h : Member input m rest) : StartsWithout OWS input := by
  cases h with
  | innerList h =>
    obtain ⟨s, s', rfl, -⟩ := h
    exact startsWithout_cons.mpr (by decide)
  | item _ h => exact h.first.mono fun _ => OWS_of_outside

theorem Entry.first {input : Text} {e : Text × StructuredFields.Member} {rest : Text}
    (h : Entry input e rest) : StartsWithout OWS input := by
  cases h with
  | explicit hk | implicit hk => exact hk.first.mono fun _ => OWS_of_outside

/-- An element, a comma, a space and more elements. -/
theorem Separated.append {α : Type} {element : Text → α → Text → Prop} {s t : Text} {a : α}
    {as : List α} (ha : element (s ++ 0x2c :: 0x20 :: t) a (0x2c :: 0x20 :: t)) (hne : t ≠ [])
    (ht : StartsWithout OWS t) (has : Separated element t as) :
    Separated element (s ++ 0x2c :: 0x20 :: t) (a :: as) := by
  refine .cons (by simp) ha ⟨0x20 :: t, ?_, ?_, hne⟩ has
  · exact List.dropWhile_cons_of_neg (by decide)
  · rw [List.dropWhile_cons_of_pos (by decide), dropWhile_of_startsWithout ht]

end AgentSig.Rfc9651
