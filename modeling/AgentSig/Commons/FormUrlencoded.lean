import AgentSig.Commons.Unicode

/-!
# Form encoding

The format `application/x-www-form-urlencoded`. A parser splits at `&` and at the first `=`, reads `+` as a
space, decodes escapes, and decodes UTF-8 with U+FFFD for what is invalid, so that every text is a form. A
serializer escapes all octets but a few.

## Main definitions

* `utf8DecodeLossy`: UTF-8 octets, with U+FFFD for each maximal part that is invalid
* `percentDecode`: escapes, where they are valid
* `formPairs t`: the names and values of a form
* `formSerialize t`: a name or a value in a form

## Main results

* `formPairs_cons_mark`: a question mark before a form belongs to the name of its first pair
* `formSerialize_cons_mark`: a question mark is escaped
-/

namespace Commons

/-! ## Lossy UTF-8 -/

/-- The state of a UTF-8 decoder: the bits of a character, how many octets of it are missing, and the bounds
of the next one. -/
structure Utf8State where
  bits : ℕ
  missing : ℕ
  lower : ℕ
  upper : ℕ
  deriving DecidableEq, Repr

/-- The state between two characters. -/
def Utf8State.between : Utf8State := ⟨0, 0, 0x80, 0xbf⟩

/-- The first octet of a character, with what it decodes at once. -/
def utf8First (b : UInt8) : List Char × Utf8State :=
  let n := b.toNat
  if n ≤ 0x7f then ([.ofNat n], .between)
  else if 0xc2 ≤ n ∧ n ≤ 0xdf then ([], ⟨n % 0x20, 1, 0x80, 0xbf⟩)
  else if 0xe0 ≤ n ∧ n ≤ 0xef then
    ([], ⟨n % 0x10, 2, if n = 0xe0 then 0xa0 else 0x80, if n = 0xed then 0x9f else 0xbf⟩)
  else if 0xf0 ≤ n ∧ n ≤ 0xf4 then
    ([], ⟨n % 0x08, 3, if n = 0xf0 then 0x90 else 0x80, if n = 0xf4 then 0x8f else 0xbf⟩)
  else (['\uFFFD'], .between)

/-- An octet. If it cannot go on with a character, the character is invalid and the octet starts another. -/
def utf8Next (s : Utf8State) (b : UInt8) : List Char × Utf8State :=
  if s.missing = 0 then utf8First b
  else if b.toNat < s.lower ∨ s.upper < b.toNat then ('\uFFFD' :: (utf8First b).1, (utf8First b).2)
  else
    let bits := s.bits * 0x40 + b.toNat % 0x40
    if s.missing = 1 then ([.ofNat bits], .between) else ([], ⟨bits, s.missing - 1, 0x80, 0xbf⟩)

/-- The characters of the octets that follow a state. -/
def utf8DecodeFrom : Utf8State → List UInt8 → List Char
  | s, [] => if s.missing = 0 then [] else ['\uFFFD']
  | s, b :: bs => (utf8Next s b).1 ++ utf8DecodeFrom (utf8Next s b).2 bs

/-- UTF-8 decoding without BOM, with U+FFFD for what is invalid. -/
def utf8DecodeLossy (bs : List UInt8) : List Char := utf8DecodeFrom .between bs

theorem utf8DecodeLossy_cons {b : UInt8} (h : b.toNat ≤ 0x7f) (bs : List UInt8) :
    utf8DecodeLossy (b :: bs) = .ofNat b.toNat :: utf8DecodeLossy bs := by
  simp [utf8DecodeLossy, utf8DecodeFrom, utf8Next, utf8First, Utf8State.between, h]

/-! ## Escapes -/

/-- The value of a hexadecimal digit. -/
def hexValue (b : UInt8) : Option ℕ :=
  let n := b.toNat
  if 48 ≤ n ∧ n ≤ 57 then some (n - 48)
  else if 65 ≤ n ∧ n ≤ 70 then some (n - 55)
  else if 97 ≤ n ∧ n ≤ 102 then some (n - 87)
  else none

/-- Percent-decoding: an escape that is not valid stays as it is. -/
def percentDecode : List UInt8 → List UInt8
  | 37 :: high :: low :: bs =>
    match hexValue high, hexValue low with
    | some h, some l => .ofNat (h * 16 + l) :: percentDecode bs
    | _, _ => 37 :: percentDecode (high :: low :: bs)
  | b :: bs => b :: percentDecode bs
  | [] => []

theorem percentDecode_cons {b : UInt8} (h : b ≠ 37) (bs : List UInt8) :
    percentDecode (b :: bs) = b :: percentDecode bs := by
  rw [percentDecode]
  rintro high low bs rfl
  exact absurd rfl h

/-! ## Forms -/

/-- A name or a value of a form, decoded. -/
def formDecode (bs : List UInt8) : Text :=
  units (utf8DecodeLossy (percentDecode (bs.map fun b => if b = 43 then 32 else b)))

/-- The name and the value of a part of a form. -/
def formPair (part : List UInt8) : Text × Text :=
  (formDecode (part.takeWhile (· != 61)), formDecode (part.dropWhile (· != 61)).tail)

/-- The names and values of a form in octets. -/
def formParse (bs : List UInt8) : List (Text × Text) :=
  ((bs.splitOn 38).filter (· ≠ [])).map formPair

/-- The names and values of a form. -/
def formPairs (t : Text) : List (Text × Text) := formParse (utf8Encode (characters t))

/-- An upper-case hexadecimal digit. -/
def hexUnit (n : ℕ) : UInt16 := .ofNat (if n < 10 then 48 + n else 55 + n)

/-- An octet in a form. -/
def formByte (b : UInt8) : Text :=
  let n := b.toNat
  if n = 32 then [43]
  else if (48 ≤ n ∧ n ≤ 57) ∨ (65 ≤ n ∧ n ≤ 90) ∨ (97 ≤ n ∧ n ≤ 122) ∨ n = 42 ∨ n = 45 ∨ n = 46 ∨ n = 95 then
    [.ofNat n]
  else [37, hexUnit (n / 16), hexUnit (n % 16)]

/-- A name or a value in a form. -/
def formSerialize (t : Text) : Text := (utf8Encode (characters t)).flatMap formByte

theorem formDecode_cons_mark (bs : List UInt8) : formDecode (63 :: bs) = 63 :: formDecode bs := by
  unfold formDecode
  rw [List.map_cons, if_neg (by decide), percentDecode_cons (by decide), utf8DecodeLossy_cons (by decide)]
  rfl

theorem formPair_cons_mark (part : List UInt8) :
    formPair (63 :: part) = (63 :: (formPair part).1, (formPair part).2) := by
  have htake : (63 :: part).takeWhile (· != 61) = 63 :: part.takeWhile (· != 61) := by simp
  have hdrop : (63 :: part).dropWhile (· != 61) = part.dropWhile (· != 61) := by simp
  rw [formPair, htake, hdrop, formDecode_cons_mark, formPair]

theorem utf8Encode_cons_mark (t : Text) :
    utf8Encode (characters (63 :: t)) = 63 :: utf8Encode (characters t) := by
  rw [characters_single (by decide) (by decide)]
  rfl

/-- A question mark before a form belongs to the name of its first pair, or is a name of its own. -/
theorem formPairs_cons_mark (t : Text) :
    (formPairs (63 :: t) = ([63], []) :: formPairs t) ∨
      ∃ name value others, formPairs t = (name, value) :: others ∧
        formPairs (63 :: t) = (63 :: name, value) :: others := by
  unfold formPairs formParse
  rw [utf8Encode_cons_mark]
  generalize utf8Encode (characters t) = bs
  have hsplit : (63 :: bs).splitOn 38 = (bs.splitOn 38).modifyHead (63 :: ·) := by
    rw [List.splitOn, List.splitOnP_cons_eq_if_modifyHead]
    rfl
  rw [hsplit]
  cases hparts : bs.splitOn 38 with
  | nil => exact absurd hparts (List.splitOnP_ne_nil _ _)
  | cons part parts =>
    rw [List.modifyHead_cons]
    by_cases hempty : part = []
    · left
      subst hempty
      simp [formPair, formDecode, percentDecode, utf8DecodeLossy, utf8DecodeFrom, utf8Next, utf8First,
        Utf8State.between, units, characterUnits]
    · right
      refine ⟨(formPair part).1, (formPair part).2, (parts.filter (· ≠ [])).map formPair, ?_, ?_⟩
      · simp [hempty]
      · simp [formPair_cons_mark]

theorem formSerialize_cons_mark (t : Text) : formSerialize (63 :: t) = ascii "%3F" ++ formSerialize t := by
  unfold formSerialize
  rw [utf8Encode_cons_mark, List.flatMap_cons]
  rfl

end Commons
