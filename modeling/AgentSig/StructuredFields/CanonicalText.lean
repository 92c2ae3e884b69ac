import AgentSig.StructuredFields.RoundTrip

/-!
# The canonical text of a value

The text that the writer appends for a value depends on the value alone: limits and the text
written before only decide whether it is written. A value is serializable when it is in the
ranges that RFC 9651, Section 4.1 asks for, and a serializable value whose charges are within
the limits is written, as its text, whenever that fits the output.

## Main definitions

* `BareItem.text`, `Item.text`, `Member.text`, `Field.text`: the canonical text of a value
* `BareItem.Serializable`, …, `Field.Serializable`: the value is in the serializable ranges
* `Appends L op s n`: `op` appends `s` and charges `n` occurrences

## Main results

* `Appends.bind`: what two operations append, one after the other
* `Writer.bare_appends`, `Writer.item_appends`, `Writer.member_appends`
* `serialize_of_serializable`: **a serializable field that fits is written as its text**
-/

namespace AgentSig.StructuredFields

open Commons

variable {L : Limits}

/-! ## Texts -/

/-- The integer of a number; a fraction has none and is never written. -/
def Number.int (n : Number) : ℤ := n.toInt?.getD 0

/-- The text of a bare item. -/
def BareItem.text : BareItem → Text
  | .integer n => Writer.integerText n.int
  | .date n => 64 :: Writer.integerText n.int
  | .decimal n => Writer.decimalText n.int
  | .boolean b => [63, if b then 49 else 48]
  | .token t => t
  | .string t => 34 :: (Writer.escape t ++ [34])
  | .displayString t =>
    37 :: 34 :: ((utf8Encode (characters t)).flatMap Writer.octetText ++ [34])
  | .bytes bs => 58 :: (Base64.padded bs ++ [58])

/-- The text of the value of a parameter: Boolean true is left out. -/
def parameterValueText (b : BareItem) : Text := if b = .boolean true then [] else 61 :: b.text

/-- The text of parameters. -/
def parametersText (ps : Parameters) : Text :=
  ps.flatMap fun p => 59 :: (p.1 ++ parameterValueText p.2)

/-- The text of an item. -/
def Item.text (i : Item) : Text := i.bare.text ++ parametersText i.parameters

/-- Texts with a separator in between. -/
def separatedText {α : Type} (separator : Text) (text : α → Text) : List α → Text
  | [] => []
  | [a] => text a
  | a :: b :: rest => text a ++ (separator ++ separatedText separator text (b :: rest))

/-- The text of a member. -/
def Member.text : Member → Text
  | .item i => i.text
  | .innerList l => 40 :: (separatedText [32] Item.text l.items ++ 41 :: parametersText l.parameters)

/-- The text of a dictionary entry: Boolean true is left out. -/
def entryText (e : Text × Member) : Text :=
  e.1 ++ match e.2 with
    | .item ⟨.boolean true, ps⟩ => parametersText ps
    | m => 61 :: m.text

/-- The text of a field. -/
def Field.text : Field → Text
  | .item i => i.text
  | .list ms => separatedText [44, 32] Member.text ms
  | .dictionary es => separatedText [44, 32] entryText es

/-! ## Serializable values -/

/-- The range of integers, and of decimals in thousandths. -/
def Number.Serializable (n : Number) : Prop :=
  ∃ z, n.canonical = .integer z ∧ z.natAbs ≤ 999999999999999

/-- The bare item is in the serializable range. -/
def BareItem.Serializable : BareItem → Prop
  | .integer n | .date n | .decimal n => n.Serializable
  | .token t => Writer.tokenPattern t
  | .string t => ∀ c ∈ t, Rfc9651.printable c
  | .displayString t => WellFormed t
  | .bytes _ | .boolean _ => True

/-- Keys are written once each, and keys and values are in the serializable range. -/
structure ParametersSerializable (ps : Parameters) : Prop where
  distinct : (ps.map (·.1)).Nodup
  values : ∀ p ∈ ps, Writer.keyPattern p.1 ∧ p.2.Serializable

/-- The item is in the serializable range. -/
structure Item.Serializable (i : Item) : Prop where
  bare : i.bare.Serializable
  parameters : ParametersSerializable i.parameters

/-- The member is in the serializable range. -/
def Member.Serializable : Member → Prop
  | .item i => i.Serializable
  | .innerList l => (∀ i ∈ l.items, i.Serializable) ∧ ParametersSerializable l.parameters

/-- The field is in the serializable range. -/
def Field.Serializable : Field → Prop
  | .item i => i.Serializable
  | .list ms => ∀ m ∈ ms, m.Serializable
  | .dictionary es => (es.map (·.1)).Nodup ∧
      ∀ e ∈ es, Writer.keyPattern e.1 ∧ e.2.Serializable

/-! ## Operations that append -/

/-- `op` appends `s` and charges `n` occurrences: it does nothing else, and it does not fail when
both fit. -/
structure Appends (L : Limits) (op : Writer → Except SfError Writer) (s : Text) (n : ℕ) : Prop where
  fits : ∀ w : Writer, w.occurrences + n ≤ L.get .maxTotalOccurrences →
    w.text.length + s.length ≤ L.get .maxOutputBytes → ∃ w', op w = .ok w'
  result : ∀ {w w' : Writer}, op w = .ok w' → w' = ⟨w.occurrences + n, w.text ++ s⟩
  room : ∀ {w w' : Writer}, op w = .ok w' → s ≠ [] →
    w.text.length + s.length ≤ L.get .maxOutputBytes

theorem Appends.eq_ok {op : Writer → Except SfError Writer} {s : Text} {n : ℕ}
    (h : Appends L op s n) {w : Writer} (hocc : w.occurrences + n ≤ L.get .maxTotalOccurrences)
    (hlen : w.text.length + s.length ≤ L.get .maxOutputBytes) :
    op w = .ok ⟨w.occurrences + n, w.text ++ s⟩ := by
  obtain ⟨w', hw'⟩ := h.fits w hocc hlen
  rw [hw', h.result hw']

theorem Appends.refl : Appends L (fun w => .ok w) [] 0 := by
  constructor
  · intro w _ _
    exact ⟨w, rfl⟩
  · intro w w' h
    rw [← Except.ok.inj h]
    simp
  · intro w w' _ hne
    exact absurd rfl hne

theorem Appends.bind {op op' : Writer → Except SfError Writer} {s t : Text} {n m : ℕ}
    (h : Appends L op s n) (h' : Appends L op' t m) :
    Appends L (fun w => op w >>= op') (s ++ t) (n + m) := by
  constructor
  · intro w hocc hlen
    rw [List.length_append] at hlen
    rw [h.eq_ok (by omega) (by omega), ok_bind]
    apply h'.fits
    · dsimp only
      omega
    · rw [List.length_append]
      omega
  · intro w w' hw'
    obtain ⟨w₁, hw₁, hw'⟩ := bind_eq_ok.mp hw'
    rw [h'.result hw', h.result hw₁]
    simp [Nat.add_assoc]
  · intro w w' hw' hne
    obtain ⟨w₁, hw₁, hw'⟩ := bind_eq_ok.mp hw'
    rw [List.length_append]
    by_cases ht : t = []
    · subst ht
      exact h.room hw₁ (by simpa using hne)
    · have hroom := h'.room hw' ht
      rw [h.result hw₁, List.length_append] at hroom
      omega

theorem Appends.congr {op op' : Writer → Except SfError Writer} {s s' : Text} {n n' : ℕ}
    (h : Appends L op s n) (hop : ∀ w, op' w = op w) (hs : s = s') (hn : n = n') :
    Appends L op' s' n' := by
  obtain rfl : op' = op := funext hop
  subst hs hn
  exact h

namespace Writer

theorem append_appends (s : Text) : Appends L (append L s) s 0 := by
  constructor
  · intro w _ hlen
    rw [append, reserve, Limits.check_of_le hlen]
    exact ⟨_, rfl⟩
  · intro w w' h
    simp only [append, bind_eq_ok, pure_eq_ok] at h
    obtain ⟨_, _, rfl⟩ := h
    rfl
  · intro w w' h _
    simp only [append, reserve, bind_eq_ok, Limits.check_eq_ok, exists_const] at h
    exact h.1

theorem consumeOccurrence_appends : Appends L (consumeOccurrence L) [] 1 := by
  constructor
  · intro w hocc _
    rw [consumeOccurrence, Limits.check_of_le hocc]
    exact ⟨_, rfl⟩
  · intro w w' h
    simp only [consumeOccurrence, bind_eq_ok, pure_eq_ok] at h
    obtain ⟨_, _, rfl⟩ := h
    rw [List.append_nil]
  · intro w w' _ hne
    exact absurd rfl hne

/-- An operation that makes checks of its own and then appends. -/
theorem appends_of_checks {op : Writer → Except SfError Writer} {s : Text}
    (hfits : ∀ w : Writer, w.text.length + s.length ≤ L.get .maxOutputBytes → op w = append L s w)
    (hresult : ∀ {w w' : Writer}, op w = .ok w' → append L s w = .ok w') : Appends L op s 0 := by
  constructor
  · intro w hocc hlen
    rw [hfits w hlen]
    exact (append_appends s).fits w hocc hlen
  · intro w w' h
    exact (append_appends s).result (hresult h)
  · intro w w' h
    exact (append_appends s).room (hresult h)

theorem key_appends {seen : List Text} {k : Text} (hpattern : keyPattern k) (hseen : k ∉ seen)
    (hlen : k.length ≤ L.get .maxKeyLength) : Appends L (key L seen k) k 0 := by
  apply appends_of_checks
  · intro w hout
    rw [key, Limits.check_of_le hlen, ok_bind, require_of hpattern, ok_bind, require_of hseen,
      ok_bind, reserve, Limits.check_of_le hout, ok_bind]
  · intro w w' h
    simp only [key, bind_eq_ok] at h
    obtain ⟨_, _, _, _, _, _, _, _, h⟩ := h
    exact h

/-! ## Bare items -/

theorem integer_of_serializable {n : Number} (h : n.Serializable) : integer n = .ok n.int := by
  obtain ⟨z, hz, hle⟩ := h
  have hint : n.int = z := by rw [Number.int, canonical_eq_integer.mp hz, Option.getD_some]
  rw [hint]
  exact integer_eq_ok.mpr ⟨hz, hle⟩

theorem length_le_escape (t : Text) : t.length ≤ (escape t).length := by
  induction t with
  | nil => exact Nat.zero_le _
  | cons c t ih =>
    rw [escape, List.flatMap_cons, ← escape, List.length_append, List.length_cons]
    split <;> simp <;> omega

/-- The loop over a string measures its escaped text. -/
theorem measureString_of_printable {w : Writer} {t : Text} (ht : ∀ c ∈ t, Rfc9651.printable c)
    {n : ℕ} (h : w.text.length + (n + (escape t).length) ≤ L.get .maxOutputBytes) :
    w.measureString L n t = .ok () := by
  induction t generalizing n with
  | nil => rfl
  | cons c t ih =>
    obtain ⟨hc, ht⟩ := List.forall_mem_cons.mp ht
    have hsize : (escape (c :: t)).length = (if c = 34 ∨ c = 92 then 2 else 1) + (escape t).length := by
      rw [escape, List.flatMap_cons, ← escape, List.length_append]
      split <;> rfl
    rw [hsize] at h
    have hreserve : w.reserve L (n + if c = 34 ∨ c = 92 then 2 else 1) = .ok () :=
      Limits.check_of_le (by omega)
    simp only [measureString, require_of (printable_iff.mp hc), ok_bind, hreserve]
    exact ih ht (by omega)

theorem string_appends {t : Text} (ht : ∀ c ∈ t, Rfc9651.printable c)
    (hlen : t.length ≤ L.get .maxDecodedBytes) :
    Appends L (string L t) (34 :: (escape t ++ [34])) 0 := by
  apply appends_of_checks
  · intro w hout
    have hsize : (34 :: (escape t ++ [34])).length = 2 + (escape t).length := by
      simp only [List.length_cons, List.length_append, List.length_nil]
      omega
    have hescape := length_le_escape t
    have hreserve : w.reserve L (2 + t.length) = .ok () := Limits.check_of_le (by omega)
    have hmeasure : w.measureString L 2 t = .ok () := measureString_of_printable ht (by omega)
    simp only [string, Limits.check_of_le hlen, ok_bind, hreserve, hmeasure]
  · intro w w' h
    simp only [string, bind_eq_ok] at h
    obtain ⟨_, _, _, _, _, _, h⟩ := h
    exact h

/-! ### Display strings -/

/-- An octet outside ASCII is escaped. -/
theorem length_octetText_of_le {b : UInt8} (h : 128 ≤ b.toNat) : (octetText b).length = 3 := by
  have hb : 126 < b := by
    rw [UInt8.lt_iff_toNat_lt]
    exact lt_of_lt_of_le (by decide) h
  rw [octetText, if_pos (.inr (.inl hb))]
  rfl

theorem length_octetText_ofNat {n : ℕ} (h : n ≤ 127) : (octetText (.ofNat n)).length =
    if 32 ≤ n ∧ n ≤ 126 ∧ n ≠ 34 ∧ n ≠ 37 then 1 else 3 := by
  have : ∀ k : Fin 128, (octetText (.ofNat k)).length =
      if 32 ≤ k.val ∧ k.val ≤ 126 ∧ k.val ≠ 34 ∧ k.val ≠ 37 then 1 else 3 := by decide
  exact this ⟨n, by omega⟩

/-- The octets of a character outside ASCII are outside ASCII. -/
theorem le_toNat_of_mem_utf8EncodeChar {c : Char} (hc : 127 < c.toNat) :
    ∀ b ∈ String.utf8EncodeChar c, 128 ≤ b.toNat := by
  have hc : ¬ c.val.toNat ≤ 127 := Nat.not_le.mpr hc
  intro b hb
  simp only [String.utf8EncodeChar, if_neg hc] at hb
  split at hb <;> [skip; split at hb] <;>
    simp only [List.mem_cons, List.not_mem_nil, or_false] at hb <;>
    rcases hb with rfl | rfl | rfl | rfl <;>
    · rw [UInt8.toNat_ofNat']
      omega

theorem length_flatMap_octetText {bs : List UInt8} (h : ∀ b ∈ bs, 128 ≤ b.toNat) :
    (bs.flatMap octetText).length = bs.length * 3 := by
  induction bs with
  | nil => rfl
  | cons b bs ih =>
    obtain ⟨hb, hbs⟩ := List.forall_mem_cons.mp h
    rw [List.flatMap_cons, List.length_append, length_octetText_of_le hb, ih hbs, List.length_cons]
    omega

/-- The text of a character: itself, or three characters for each octet. -/
theorem length_characterText (c : Char) :
    ((String.utf8EncodeChar c).flatMap octetText).length =
      if 32 ≤ c.toNat ∧ c.toNat ≤ 126 ∧ c.toNat ≠ 34 ∧ c.toNat ≠ 37 then 1 else c.utf8Size * 3 := by
  by_cases hc : c.toNat ≤ 127
  · have hencode : String.utf8EncodeChar c = [.ofNat c.toNat] := if_pos hc
    rw [hencode, List.flatMap_singleton, length_octetText_ofNat hc, utf8Size_eq, if_pos hc]
  · rw [length_flatMap_octetText (le_toNat_of_mem_utf8EncodeChar (by omega)),
      String.length_utf8EncodeChar, if_neg (by omega)]

/-- The text of the octets of some units. -/
def displayText (t : Text) : Text := (utf8Encode (characters t)).flatMap octetText

theorem length_displayText_pair {high low : UInt16} {t : Text} (hh : highSurrogate high)
    (hl : lowSurrogate low) :
    (displayText (high :: low :: t)).length = 12 + (displayText t).length := by
  have hn := toNat_pairCharacter hh hl
  rw [displayText, characters_pair hh hl, utf8Encode, List.flatMap_cons, List.flatMap_append,
    List.length_append, length_characterText, utf8Size_eq, if_neg (by omega), if_neg (by omega),
    if_neg (by omega), if_neg (by omega)]
  rfl

theorem length_displayText_single {c : UInt16} {t : Text} (hh : highSurrogate c = false)
    (hl : lowSurrogate c = false) : (displayText (c :: t)).length =
      (if 32 ≤ c ∧ c ≤ 126 ∧ c ≠ 34 ∧ c ≠ 37 then 1
        else (if c < 0x80 then 1 else if c < 0x800 then 2 else 3) * 3) + (displayText t).length := by
  have hrange : (32 ≤ c ∧ c ≤ 126 ∧ c ≠ 34 ∧ c ≠ 37) ↔
      32 ≤ c.toNat ∧ c.toNat ≤ 126 ∧ c.toNat ≠ 34 ∧ c.toNat ≠ 37 := by
    simp only [UInt16.le_iff_toNat_le, ne_eq, ← UInt16.toNat_inj]
    exact Iff.rfl
  have hsize : (Char.ofNat c.toNat).utf8Size = if c < 0x80 then 1 else if c < 0x800 then 2 else 3 := by
    have h := utf8Length_single (t := []) hh hl
    rw [utf8Length, characters_single hh hl, length_utf8Encode_cons] at h
    exact Nat.add_right_cancel h
  rw [displayText, characters_single hh hl, utf8Encode, List.flatMap_cons, List.flatMap_append,
    List.length_append, length_characterText, toNat_single hh hl, hsize]
  simp only [hrange]
  rfl

/-- The loop over a display string measures its octets and its text. -/
theorem measureDisplayString_of_wellFormed {w : Writer} {t : Text} (ht : WellFormed t) {n k : ℕ}
    (hdecoded : n + utf8Length t ≤ L.get .maxDecodedBytes)
    (hencoded : w.text.length + (k + (displayText t).length) ≤ L.get .maxOutputBytes) :
    w.measureDisplayString L n k t = .ok () := by
  induction ht generalizing n k with
  | nil => rfl
  | @pair high low t hh hl _ ih =>
    rw [utf8Length_pair hh hl] at hdecoded
    rw [length_displayText_pair hh hl] at hencoded
    have hreserve : w.reserve L (k + 12) = .ok () := Limits.check_of_le (by omega)
    have hcheck : L.check .maxDecodedBytes (n + 4) = .ok () := Limits.check_of_le (by omega)
    rw [measureDisplayString]
    simp only [if_pos hh, require_of hl, hcheck, hreserve, ok_bind]
    exact ih (by omega) (by omega)
  | @single c t hh hl _ ih =>
    rw [utf8Length_single hh hl] at hdecoded
    rw [length_displayText_single hh hl] at hencoded
    rw [measureDisplayString.eq_def]
    simp only [hh, hl, Bool.false_eq_true, if_false]
    set size := if c < 0x80 then 1 else if c < 0x800 then 2 else 3
    set written := if 32 ≤ c ∧ c ≤ 126 ∧ c ≠ 34 ∧ c ≠ 37 then 1 else size * 3
    have hcheck : L.check .maxDecodedBytes (n + size) = .ok () := Limits.check_of_le (by omega)
    have hreserve : w.reserve L (k + written) = .ok () := Limits.check_of_le (by omega)
    simp only [hcheck, hreserve, ok_bind]
    exact ih (by omega) (by omega)

/-- A text has no more units than octets. -/
theorem length_le_utf8Length {t : Text} (ht : WellFormed t) : t.length ≤ utf8Length t := by
  induction ht with
  | nil => exact Nat.zero_le _
  | pair hh hl _ ih =>
    rw [utf8Length_pair hh hl]
    simp only [List.length_cons]
    omega
  | single hh hl _ ih =>
    rw [utf8Length_single hh hl]
    simp only [List.length_cons]
    split <;> [skip; split] <;> omega

/-- A text has no more units than its octets have characters. -/
theorem length_le_displayText {t : Text} (ht : WellFormed t) :
    t.length ≤ (displayText t).length := by
  induction ht with
  | nil => exact Nat.zero_le _
  | pair hh hl _ ih =>
    rw [length_displayText_pair hh hl]
    simp only [List.length_cons]
    omega
  | single hh hl _ ih =>
    rw [length_displayText_single hh hl]
    simp only [List.length_cons]
    split <;> [skip; split <;> [skip; split]] <;> omega

theorem displayString_appends {t : Text} (ht : WellFormed t)
    (hlen : utf8Length t ≤ L.get .maxDecodedBytes) :
    Appends L (displayString L t) (37 :: 34 :: (displayText t ++ [34])) 0 := by
  apply appends_of_checks
  · intro w hout
    have hsize : (37 :: 34 :: (displayText t ++ [34])).length = 3 + (displayText t).length := by
      simp only [List.length_cons, List.length_append, List.length_nil]
      omega
    have hunits := length_le_displayText ht
    have hcheck : L.check .maxDecodedBytes t.length = .ok () :=
      Limits.check_of_le ((length_le_utf8Length ht).trans hlen)
    have hreserve : w.reserve L (3 + t.length) = .ok () := Limits.check_of_le (by omega)
    have hmeasure : w.measureDisplayString L 0 3 t = .ok () :=
      measureDisplayString_of_wellFormed ht (by omega) (by omega)
    simp only [displayString, hcheck, ok_bind, hreserve, hmeasure]
    rfl
  · intro w w' h
    simp only [displayString, bind_eq_ok] at h
    obtain ⟨_, _, _, _, _, _, h⟩ := h
    exact h

/-! ### Byte sequences -/

/-- The padded text has four symbols for each group of three octets. -/
theorem length_padded (bs : List UInt8) :
    (Base64.padded bs).length = 4 * ((bs.length + 2) / 3) := by
  rw [Base64.padded, List.length_append, List.length_map, List.length_replicate, Base64.padding,
    Base64.length_encode]
  omega

theorem bytes_appends {bs : List UInt8} (hlen : bs.length ≤ L.get .maxDecodedBytes) :
    Appends L (bare L (.bytes bs)) (58 :: (Base64.padded bs ++ [58])) 0 := by
  apply appends_of_checks
  · intro w hout
    have hsize : (58 :: (Base64.padded bs ++ [58])).length = 2 + 4 * ((bs.length + 2) / 3) := by
      simp only [List.length_cons, List.length_append, List.length_nil, length_padded]
      omega
    have hreserve : w.reserve L (2 + 4 * ((bs.length + 2) / 3)) = .ok () :=
      Limits.check_of_le (by omega)
    simp only [bare, Limits.check_of_le hlen, hreserve, ok_bind]
  · intro w w' h
    simp only [bare, bind_eq_ok] at h
    obtain ⟨_, _, _, _, h⟩ := h
    exact h

/-- **A serializable bare item is written as its text.** -/
theorem bare_appends {b : BareItem} (h : b.Serializable) (hw : b.Within L) :
    Appends L (bare L b) b.text 0 := by
  cases b with
  | integer n | decimal n | date n =>
    refine (append_appends _).congr (fun w => ?_) rfl rfl
    rw [bare, integer_of_serializable h, ok_bind]
    rfl
  | boolean b => exact append_appends _
  | token t =>
    refine (append_appends t).congr (fun w => ?_) rfl rfl
    rw [bare, Limits.check_of_le hw, ok_bind, require_of (show tokenPattern t from h), ok_bind]
  | string t => exact string_appends h hw
  | displayString t => exact displayString_appends h hw
  | bytes bs => exact bytes_appends hw

/-! ## Parameters, items and members -/

theorem parameterValue_appends {b : BareItem} (h : b.Serializable) (hw : b.Within L) :
    Appends L (parameterValue L b) (parameterValueText b) 0 := by
  by_cases hb : b = .boolean true
  · refine Appends.refl.congr (fun w => ?_) ?_ rfl
    · rw [parameterValue, if_pos hb]
      rfl
    · rw [parameterValueText, if_pos hb]
  · refine ((append_appends [61]).bind (bare_appends h hw)).congr (fun w => ?_) ?_ rfl
    · rw [parameterValue, if_neg hb]
    · rw [parameterValueText, if_neg hb]
      rfl

theorem parametersLoop_appends {ps : Parameters} (hdistinct : (ps.map (·.1)).Nodup)
    (hvalues : ∀ p ∈ ps, keyPattern p.1 ∧ p.2.Serializable)
    (hw : ∀ p ∈ ps, p.1.length ≤ L.get .maxKeyLength ∧ p.2.Within L) {seen : List Text}
    (hseen : ∀ p ∈ ps, p.1 ∉ seen) :
    Appends L (parametersLoop L seen ps) (parametersText ps) ps.length := by
  induction ps generalizing seen with
  | nil => exact Appends.refl
  | cons p ps ih =>
    obtain ⟨k, b⟩ := p
    rw [List.map_cons, List.nodup_cons] at hdistinct
    obtain ⟨⟨hpattern, hb⟩, hvalues⟩ := List.forall_mem_cons.mp hvalues
    obtain ⟨⟨hlen, hbw⟩, hw⟩ := List.forall_mem_cons.mp hw
    obtain ⟨hk, hseen⟩ := List.forall_mem_cons.mp hseen
    -- Later keys differ from `k` as well.
    have hrest : ∀ p ∈ ps, p.1 ∉ k :: seen := by
      intro p hp hmem
      rcases List.mem_cons.mp hmem with rfl | hmem
      · exact hdistinct.1 (List.mem_map.mpr ⟨p, hp, rfl⟩)
      · exact hseen p hp hmem
    refine (consumeOccurrence_appends.bind ((append_appends [59]).bind
      ((key_appends hpattern hk hlen).bind ((parameterValue_appends hb hbw).bind
        (ih hdistinct.2 hvalues hw hrest))))).congr (fun w => ?_) ?_ ?_
    · rfl
    · simp [parametersText]
    · simp [Nat.add_comm]

theorem parameters_appends {ps : Parameters} (h : ParametersSerializable ps)
    (hw : ParametersWithin L ps) : Appends L (parameters L ps) (parametersText ps) ps.length := by
  have hseen : ∀ p ∈ ps, p.1 ∉ ([] : List Text) := by simp
  refine (parametersLoop_appends h.distinct h.values hw.2 hseen).congr (fun w => ?_) rfl rfl
  rw [parameters, Limits.check_of_le hw.1, ok_bind]

theorem item_appends {i : Item} (h : i.Serializable) (hw : i.Within L) :
    Appends L (item L i) i.text i.occurrences := by
  refine (consumeOccurrence_appends.bind ((bare_appends h.bare hw.1).bind
    (parameters_appends h.parameters hw.2))).congr (fun w => rfl) rfl ?_
  rw [Nat.zero_add]
  rfl

theorem separated_appends {α : Type} {separator : Text} {element : α → Writer → Except SfError Writer}
    {text : α → Text} {charge : α → ℕ} {as : List α}
    (h : ∀ a ∈ as, Appends L (element a) (text a) (charge a)) :
    Appends L (separated L separator element as) (separatedText separator text as)
      (as.map charge).sum := by
  induction as with
  | nil => exact Appends.refl
  | cons a as ih =>
    obtain ⟨ha, has⟩ := List.forall_mem_cons.mp h
    cases as with
    | nil => exact ha.congr (fun w => rfl) rfl (by simp)
    | cons b as =>
      exact (ha.bind ((append_appends separator).bind (ih has))).congr (fun w => rfl) rfl (by simp)

theorem member_appends {m : Member} (h : m.Serializable) (hw : m.Within L) :
    Appends L (member L m) m.text m.occurrences := by
  cases m with
  | item i => exact item_appends h hw
  | innerList l =>
    have hitems : Appends L (separated L [32] (item L) l.items) _ _ :=
      separated_appends fun i hi => item_appends (h.1 i hi) (hw.2.1 i hi)
    refine (consumeOccurrence_appends.bind ((append_appends [40]).bind (hitems.bind
      ((append_appends [41]).bind (parameters_appends h.2 hw.2.2))))).congr (fun w => ?_) ?_ ?_
    · simp only [member, Limits.check_of_le hw.1, ok_bind]
    · simp [Member.text]
    · simp [Member.occurrences, InnerList.occurrences, Nat.add_assoc]

/-! ## Dictionaries and fields -/

theorem entry_appends {e : Text × Member} (hpattern : keyPattern e.1) (h : e.2.Serializable)
    (hw : e.1.length ≤ L.get .maxKeyLength ∧ e.2.Within L) {seen : List Text} (hseen : e.1 ∉ seen) :
    Appends L (entry L seen e) (entryText e) e.2.occurrences := by
  obtain ⟨k, m⟩ := e
  have hk : Appends L (key L seen k) k 0 := key_appends hpattern hseen hw.1
  by_cases hm : ∃ ps, m = .item ⟨.boolean true, ps⟩
  · obtain ⟨ps, rfl⟩ := hm
    refine (hk.bind (consumeOccurrence_appends.bind
      (parameters_appends h.parameters hw.2.2))).congr (fun w => rfl) rfl ?_
    rw [Nat.zero_add]
    rfl
  · refine (hk.bind ((append_appends [61]).bind (member_appends h hw.2))).congr
      (fun w => ?_) ?_ ?_
    · rw [entry]
      congr 1
      funext w'
      split
      · rename_i heq
        exact absurd ⟨_, heq⟩ hm
      · rfl
    · rw [entryText]
      split
      · rename_i heq
        exact absurd ⟨_, heq⟩ hm
      · rfl
    · simp

theorem entriesLoop_appends {es : List (Text × Member)} (hdistinct : (es.map (·.1)).Nodup)
    (hvalues : ∀ e ∈ es, keyPattern e.1 ∧ e.2.Serializable)
    (hw : ∀ e ∈ es, e.1.length ≤ L.get .maxKeyLength ∧ e.2.Within L) {seen : List Text}
    (hseen : ∀ e ∈ es, e.1 ∉ seen) :
    Appends L (entriesLoop L seen es) (separatedText [44, 32] entryText es)
      (es.map fun e => e.2.occurrences).sum := by
  induction es generalizing seen with
  | nil => exact Appends.refl
  | cons e es ih =>
    rw [List.map_cons, List.nodup_cons] at hdistinct
    obtain ⟨⟨hpattern, hm⟩, hvalues⟩ := List.forall_mem_cons.mp hvalues
    obtain ⟨hew, hw⟩ := List.forall_mem_cons.mp hw
    obtain ⟨hk, hseen⟩ := List.forall_mem_cons.mp hseen
    have he := entry_appends hpattern hm hew hk
    have hrest : ∀ e' ∈ es, e'.1 ∉ e.1 :: seen := by
      intro e' he' hmem
      rcases List.mem_cons.mp hmem with heq | hmem
      · exact hdistinct.1 (List.mem_map.mpr ⟨e', he', heq⟩)
      · exact hseen e' he' hmem
    cases es with
    | nil => exact he.congr (fun w => rfl) rfl (by simp)
    | cons e' es =>
      exact (he.bind ((append_appends [44, 32]).bind (ih hdistinct.2 hvalues hw hrest))).congr
        (fun w => rfl) rfl (by simp)

theorem field_appends {f : Field} (h : f.Serializable) (hw : f.Within L) :
    Appends L (field L f) f.text f.occurrences := by
  cases f with
  | item i => exact item_appends h hw.2
  | list ms =>
    refine (separated_appends fun m hm => member_appends (h m hm) (hw.2.2 m hm)).congr
      (fun w => ?_) rfl rfl
    rw [field, Limits.check_of_le hw.2.1, ok_bind]
  | dictionary es =>
    have hseen : ∀ e ∈ es, e.1 ∉ ([] : List Text) := by simp
    refine (entriesLoop_appends h.1 h.2 hw.2.2 hseen).congr (fun w => ?_) rfl rfl
    rw [field, Limits.check_of_le hw.2.1, ok_bind]

end Writer

/-- **A serializable field is written as its text**, whenever its charges and its text fit. -/
theorem serialize_of_serializable {f : Field} (h : f.Serializable) (hw : f.Within L)
    (hlen : f.text.length ≤ L.get .maxOutputBytes) : serialize L f = .ok f.text := by
  have hocc : (⟨0, []⟩ : Writer).occurrences + f.occurrences ≤ L.get .maxTotalOccurrences := by
    rw [Nat.zero_add]
    exact hw.1
  have hout : (⟨0, []⟩ : Writer).text.length + f.text.length ≤ L.get .maxOutputBytes := by
    rwa [List.length_nil, Nat.zero_add]
  rw [serialize, (Writer.field_appends h hw).eq_ok hocc hout, ok_bind]
  rfl

/-- What a serializable field is written as is its text, and it fits the output. -/
theorem text_of_serialize {f : Field} {c : Text} (h : f.Serializable)
    (hc : serialize L f = .ok c) : c = f.text ∧ c.length ≤ L.get .maxOutputBytes := by
  have hw := (serialize_spec hc).1
  simp only [serialize, bind_eq_ok, pure_eq_ok] at hc
  obtain ⟨w, hwritten, rfl⟩ := hc
  have happends := Writer.field_appends h hw
  have htext : w.text = f.text := by
    rw [happends.result hwritten]
    rfl
  refine ⟨htext, ?_⟩
  rw [htext]
  by_cases hne : f.text = []
  · simp [hne]
  · simpa using happends.room hwritten hne

end AgentSig.StructuredFields
