import AgentSig.Commons.Base64
import AgentSig.StructuredFields.Parser

/-!
# The serializer

The canonical text of a field (RFC 9651, Section 4.1). A writer appends to its text, and
charges counts and output against the limits before it grows. Values come from the semantic
model, so the checks of the source on their shape have no counterpart here; what a value of
the right shape can still violate is checked.

## Main definitions

* `Writer`: the text written and the occurrences charged so far
* `Writer.key`, `Writer.parameters`, `Writer.bare`, `Writer.member`, `Writer.field`
* `serialize`, `serializeMember`: the text of a field, of a member
-/

namespace AgentSig.StructuredFields

open Commons

/-- The state of the writer and of its budget. -/
structure Writer where
  occurrences : ℕ
  text : Text

namespace Writer

/-- `fail`. -/
def fail {α : Type} (reason : SerializationReason) : Except SfError α :=
  .error (.serialization reason)

/-- `reserve`. -/
def reserve (L : Limits) (w : Writer) (length : ℕ) : Except SfError Unit :=
  L.check .maxOutputBytes (w.text.length + length)

/-- `append`. -/
def append (L : Limits) (value : Text) (w : Writer) : Except SfError Writer := do
  w.reserve L value.length
  return { w with text := w.text ++ value }

/-- `consumeOccurrence`. -/
def consumeOccurrence (L : Limits) (w : Writer) : Except SfError Writer := do
  L.check .maxTotalOccurrences (w.occurrences + 1)
  return { w with occurrences := w.occurrences + 1 }

/-- The pattern of a key: a lowercase letter or an asterisk, then key characters. -/
def keyPattern : Text → Bool
  | [] => false
  | c :: rest => keyFirst c && rest.all keyRest

/-- `key`, with the keys seen before. -/
def key (L : Limits) (seen : List Text) (key : Text) (w : Writer) : Except SfError Writer := do
  L.check .maxKeyLength key.length
  require (keyPattern key) (.serialization .invalidKey)
  require (key ∉ seen) (.serialization .duplicateKey)
  w.reserve L key.length
  w.append L key

/-- `integer`. -/
def integer (value : Number) : Except SfError ℤ :=
  match value.safeInteger? with
  | some z => do
    require (z.natAbs ≤ 999999999999999) (.serialization .invalidNumber)
    return z
  | none => fail .invalidNumber

/-- `String` of an integer. -/
def integerText (z : ℤ) : Text := (if z < 0 then [45] else []) ++ decimal z.natAbs

/-- `padStart(3, "0")`. -/
def padStart (t : Text) : Text := List.replicate (3 - t.length) 48 ++ t

/-- `replace(/0+$/, "")`. -/
def dropTrailingZeros (t : Text) : Text := (t.reverse.dropWhile (· == 48)).reverse

/-- The fraction of a decimal: at most three digits, and at least one. -/
def fractionText (n : ℕ) : Text :=
  let digits := dropTrailingZeros (padStart (decimal n))
  if digits = [] then [48] else digits

/-- The text of a decimal in thousandths. -/
def decimalText (z : ℤ) : Text :=
  (if z < 0 then [45] else []) ++ decimal (z.natAbs / 1000) ++ 46 :: fractionText (z.natAbs % 1000)

/-- The pattern of a token: a letter or an asterisk, then token characters. -/
def tokenPattern : Text → Bool
  | [] => false
  | c :: rest => (alpha c || c == 42) && rest.all tokenRest

/-- A backslash before each quote and each backslash. -/
def escape (t : Text) : Text := t.flatMap fun c => if c = 34 ∨ c = 92 then [92, c] else [c]

/-- The loop that validates and measures a string. -/
def measureString (L : Limits) (w : Writer) : (encodedSize : ℕ) → Text → Except SfError Unit
  | _, [] => .ok ()
  | encodedSize, c :: rest => do
    require (32 ≤ c ∧ c ≤ 126) (.serialization .invalidString)
    let encodedSize := encodedSize + if c = 34 ∨ c = 92 then 2 else 1
    w.reserve L encodedSize
    measureString L w encodedSize rest

/-- `string`. -/
def string (L : Limits) (value : Text) (w : Writer) : Except SfError Writer := do
  L.check .maxDecodedBytes value.length
  w.reserve L (2 + value.length)
  w.measureString L 2 value
  w.append L (34 :: (escape value ++ [34]))

/-- The loop that validates and measures a display string. -/
def measureDisplayString (L : Limits) (w : Writer) :
    (decodedSize encodedSize : ℕ) → Text → Except SfError Unit
  | _, _, [] => .ok ()
  | decodedSize, encodedSize, code :: rest =>
    if highSurrogate code then
      match rest with
      | low :: rest => do
        require (lowSurrogate low) (.serialization .invalidUnicode)
        L.check .maxDecodedBytes (decodedSize + 4)
        w.reserve L (encodedSize + 12)
        measureDisplayString L w (decodedSize + 4) (encodedSize + 12) rest
      | [] => fail .invalidUnicode
    else if lowSurrogate code then fail .invalidUnicode
    else do
      let byteCount := if code < 0x80 then 1 else if code < 0x800 then 2 else 3
      let encodedSize := encodedSize +
        if 32 ≤ code ∧ code ≤ 126 ∧ code ≠ 34 ∧ code ≠ 37 then 1 else byteCount * 3
      L.check .maxDecodedBytes (decodedSize + byteCount)
      w.reserve L encodedSize
      measureDisplayString L w (decodedSize + byteCount) encodedSize rest

/-- A lowercase hexadecimal digit. -/
def hexDigit (n : ℕ) : UInt16 := .ofNat (if n < 10 then 48 + n else 87 + n)

/-- The text of one octet of a display string. -/
def octetText (byte : UInt8) : Text :=
  if byte < 32 ∨ 126 < byte ∨ byte = 34 ∨ byte = 37 then
    [37, hexDigit (byte.toNat / 16), hexDigit (byte.toNat % 16)]
  else [byte.toUInt16]

/-- `displayString`. -/
def displayString (L : Limits) (value : Text) (w : Writer) : Except SfError Writer := do
  L.check .maxDecodedBytes value.length
  w.reserve L (3 + value.length)
  w.measureDisplayString L 0 3 value
  w.append L (37 :: 34 :: ((utf8Encode (characters value)).flatMap octetText ++ [34]))

/-- `bare`. -/
def bare (L : Limits) (b : BareItem) (w : Writer) : Except SfError Writer :=
  match b with
  | .integer value => do
    let z ← integer value
    w.append L (integerText z)
  | .date epochSeconds => do
    let z ← integer epochSeconds
    w.append L (64 :: integerText z)
  | .decimal thousandths => do
    let z ← integer thousandths
    w.append L (decimalText z)
  | .boolean value => w.append L [63, if value then 49 else 48]
  | .token value => do
    L.check .maxTokenLength value.length
    require (tokenPattern value) (.serialization .invalidToken)
    w.append L value
  | .string value => w.string L value
  | .displayString value => w.displayString L value
  | .bytes value => do
    L.check .maxDecodedBytes value.length
    w.reserve L (2 + 4 * ((value.length + 2) / 3))
    w.append L (58 :: (Base64.padded value ++ [58]))

/-- The value of a parameter: Boolean true is left out. -/
def parameterValue (L : Limits) (value : BareItem) (w : Writer) : Except SfError Writer :=
  if value = .boolean true then return w
  else do
    let w ← w.append L [61]
    w.bare L value

/-- The loop of `parameters`, with the keys seen before. -/
def parametersLoop (L : Limits) (seen : List Text) : Parameters → Writer → Except SfError Writer
  | [], w => return w
  | (key, value) :: rest, w => do
    let w ← w.consumeOccurrence L
    let w ← w.append L [59]
    let w ← w.key L seen key
    let w ← w.parameterValue L value
    parametersLoop L (key :: seen) rest w

/-- `parameters`. -/
def parameters (L : Limits) (ps : Parameters) (w : Writer) : Except SfError Writer := do
  L.check .maxParameters ps.length
  parametersLoop L [] ps w

/-- `member` of an item. -/
def item (L : Limits) (i : Item) (w : Writer) : Except SfError Writer := do
  let w ← w.consumeOccurrence L
  let w ← w.bare L i.bare
  w.parameters L i.parameters

/-- The loop over members: each but the first follows `separator`. -/
def separated {α : Type} (L : Limits) (separator : Text)
    (element : α → Writer → Except SfError Writer) : List α → Writer → Except SfError Writer
  | [], w => return w
  | [a], w => element a w
  | a :: b :: rest, w => do
    let w ← element a w
    let w ← w.append L separator
    separated L separator element (b :: rest) w

/-- `member`. -/
def member (L : Limits) (m : Member) (w : Writer) : Except SfError Writer :=
  match m with
  | .item i => w.item L i
  | .innerList l => do
    let w ← w.consumeOccurrence L
    L.check .maxInnerListItems l.items.length
    let w ← w.append L [40]
    let w ← separated L [32] (item L) l.items w
    let w ← w.append L [41]
    w.parameters L l.parameters

/-- One entry of a dictionary, with the keys seen before. -/
def entry (L : Limits) (seen : List Text) (e : Text × Member) (w : Writer) :
    Except SfError Writer := do
  let w ← w.key L seen e.1
  match e.2 with
  | .item ⟨.boolean true, ps⟩ => do
    let w ← w.consumeOccurrence L
    w.parameters L ps
  | m => do
    let w ← w.append L [61]
    w.member L m

/-- The loop over the entries of a dictionary, with the keys seen before. -/
def entriesLoop (L : Limits) (seen : List Text) :
    List (Text × Member) → Writer → Except SfError Writer
  | [], w => return w
  | [e], w => w.entry L seen e
  | e :: e' :: rest, w => do
    let w ← w.entry L seen e
    let w ← w.append L [44, 32]
    entriesLoop L (e.1 :: seen) (e' :: rest) w

/-- `field`. -/
def field (L : Limits) (f : Field) (w : Writer) : Except SfError Writer :=
  match f with
  | .item i => w.item L i
  | .list members => do
    L.check .maxMembers members.length
    separated L [44, 32] (member L) members w
  | .dictionary entries => do
    L.check .maxMembers entries.length
    entriesLoop L [] entries w

end Writer

/-- `serialize`. -/
def serialize (L : Limits) (f : Field) : Except SfError Text := do
  let w ← Writer.field L f ⟨0, []⟩
  return w.text

/-- `serializeMember`. -/
def serializeMember (L : Limits) (m : Member) : Except SfError Text := do
  let w ← Writer.member L m ⟨0, []⟩
  return w.text

end AgentSig.StructuredFields
