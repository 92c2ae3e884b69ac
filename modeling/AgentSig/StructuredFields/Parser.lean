import AgentSig.Commons.Base64
import AgentSig.StructuredFields.Types

/-!
# The wire parser

`parseRaw` reads one combined field value into a raw document that keeps every occurrence
and its span. The parser is a cursor into the text: its position, the units that remain and
the occurrences charged so far. A loop that parses nested values runs on fuel; the fuel is
the number of remaining units, and every round takes at least one.

## Main definitions

* `Cursor`: the state of the parser
* `key`, `bare`, `parameters`, `item`, `innerList`, `member`, `list`, `dictionary`: the
  productions
* `parseRaw`: the raw document of an input
-/

namespace AgentSig.StructuredFields

open Commons

/-! ## Raw documents -/

/-- Half-open offsets into the source text. -/
structure Span where
  start : ℕ
  stop : ℕ
  deriving DecidableEq, Repr

/-- A bare item with its span. -/
structure RawBareItem extends Span where
  value : BareItem
  deriving DecidableEq, Repr

/-- One occurrence of a parameter. Without a bare item it is an implicit Boolean true. -/
structure RawParameter extends Span where
  key : Text
  keySpan : Span
  bare : Option RawBareItem
  deriving DecidableEq, Repr

/-- An item. Only an implicit Boolean true of a dictionary has no bare item. -/
structure RawItem extends Span where
  bare : Option RawBareItem
  parameters : List RawParameter
  deriving DecidableEq, Repr

/-- An inner list. -/
structure RawInnerList extends Span where
  items : List RawItem
  parameters : List RawParameter
  deriving DecidableEq, Repr

/-- A member. -/
inductive RawMember
  | item (item : RawItem)
  | innerList (list : RawInnerList)
  deriving DecidableEq, Repr

/-- The parameters of a member. -/
def RawMember.parameters : RawMember → List RawParameter
  | .item i => i.parameters
  | .innerList l => l.parameters

/-- One occurrence of a dictionary entry. -/
structure RawDictionaryEntry extends Span where
  key : Text
  keySpan : Span
  implicit : Bool
  member : RawMember
  deriving DecidableEq, Repr

/-- A list. -/
structure RawList extends Span where
  members : List RawMember
  deriving DecidableEq, Repr

/-- A dictionary with all occurrences, including repeated keys. -/
structure RawDictionary extends Span where
  entries : List RawDictionaryEntry
  deriving DecidableEq, Repr

/-- A field. -/
inductive RawField
  | item (item : RawItem)
  | list (list : RawList)
  | dictionary (dictionary : RawDictionary)
  deriving DecidableEq, Repr

/-- The raw document of a text. -/
structure RawDocument where
  fieldType : FieldType
  source : Text
  root : RawField
  deriving DecidableEq, Repr

/-! ## Character classes -/

/-- `digit`. -/
def digit (code : UInt16) : Bool := 48 ≤ code && code ≤ 57

/-- `alpha`. -/
def alpha (code : UInt16) : Bool := (65 ≤ code && code ≤ 90) || (97 ≤ code && code ≤ 122)

/-- `keyFirst`. -/
def keyFirst (code : UInt16) : Bool := (97 ≤ code && code ≤ 122) || code == 42

/-- `keyRest`. -/
def keyRest (code : UInt16) : Bool :=
  keyFirst code || digit code || code == 95 || code == 45 || code == 46

/-- `tokenRest`. -/
def tokenRest (code : UInt16) : Bool :=
  alpha code || digit code || (ascii "!#$%&'*+-.^_`|~:/").contains code

/-- `hex`. -/
def hex (code : UInt16) : Bool := digit code || (97 ≤ code && code ≤ 102)

/-- The space characters that `spaces` skips. -/
def space (allowTab : Bool) (code : UInt16) : Bool := code == 32 || (allowTab && code == 9)

/-! ## The cursor -/

/-- The state of the parser and of its budget. -/
structure Cursor where
  position : ℕ
  rest : Text
  occurrences : ℕ

/-- `code`: the unit under the cursor, none at the end. -/
def Cursor.code (c : Cursor) : Option UInt16 := c.rest.head?

/-- The cursor `n` units further, at `rest`. -/
def Cursor.moveTo (c : Cursor) (n : ℕ) (rest : Text) : Cursor :=
  { c with position := c.position + n, rest := rest }

/-- `position++`. -/
def Cursor.next (c : Cursor) : Cursor := c.moveTo 1 c.rest.tail

/-- `fail`. -/
def Cursor.fail {α : Type} (c : Cursor) (reason : SyntaxReason) : Except SfError α :=
  .error (.invalidSyntax reason c.position)

/-- `spaces`. -/
def Cursor.spaces (c : Cursor) (allowTab : Bool) : Cursor :=
  c.moveTo (c.rest.takeWhile (space allowTab)).length (c.rest.dropWhile (space allowTab))

/-- `consumeOccurrence`. -/
def Cursor.consumeOccurrence (L : Limits) (c : Cursor) : Except SfError Cursor := do
  L.check .maxTotalOccurrences (c.occurrences + 1)
  return { c with occurrences := c.occurrences + 1 }

/-! ## Leaves -/

/-- The loop of `key` and of `token`: take units in `p`, charging each to `limit`. -/
def scan (L : Limits) (limit : LimitName) (p : UInt16 → Bool) :
    ℕ → Text → Except SfError (Text × Text)
  | _, [] => .ok ([], [])
  | taken, u :: rest =>
    if p u then do
      L.check limit (taken + 1)
      let (run, rest) ← scan L limit p (taken + 1) rest
      return (u :: run, rest)
    else .ok ([], u :: rest)

/-- `key`. -/
def key (L : Limits) (c : Cursor) : Except SfError ((Text × Span) × Cursor) := do
  require (c.code.any keyFirst) (.invalidSyntax .invalidKey c.position)
  let (key, rest) ← scan L .maxKeyLength keyRest 0 c.rest
  let c' := c.moveTo key.length rest
  return ((key, ⟨c.position, c'.position⟩), c')

/-- `token`. -/
def token (L : Limits) (c : Cursor) : Except SfError (Text × Cursor) := do
  let (token, rest) ← scan L .maxTokenLength tokenRest 0 c.rest
  return (token, c.moveTo token.length rest)

/-- The two digit loops of `number`: at most `max` digits from offset `start`. -/
def digitLoop (max start : ℕ) : ℕ → ℕ → Text → Except SfError (ℕ × ℕ × Text)
  | count, value, [] => .ok (count, value, [])
  | count, value, u :: rest =>
    if digit u then do
      require (count < max) (.invalidSyntax .invalidNumber (start + count))
      digitLoop max start (count + 1) (value * 10 + (u.toNat - 48)) rest
    else .ok (count, value, u :: rest)

/-- The result of `number`. -/
inductive Numeric
  | integer (value : ℤ)
  | decimal (thousandths : ℤ)
  deriving DecidableEq, Repr

/-- The bare item of a number. -/
def Numeric.bare : Numeric → BareItem
  | .integer z => .integer (.integer z)
  | .decimal z => .decimal (.integer z)

/-- `signed`: never `-0`. -/
def signed (negative : Bool) (value : ℕ) : ℤ := if negative then -value else value

/-- `number`. -/
def number (c : Cursor) : Except SfError (Numeric × Cursor) := do
  let negative := c.code = some 45
  let c₁ := if negative then c.next else c
  require (c₁.code.any digit) (.invalidSyntax .invalidNumber c₁.position)
  let (count, integer, rest) ← digitLoop 15 c₁.position 0 0 c₁.rest
  let c₂ := c₁.moveTo count rest
  if c₂.code = some 46 then do
    require (count ≤ 12) (.invalidSyntax .invalidNumber c.position)
    let c₃ := c₂.next
    let (digits, fraction, rest) ← digitLoop 3 c₃.position 0 0 c₃.rest
    let c₄ := c₃.moveTo digits rest
    require (digits ≠ 0) (.invalidSyntax .invalidNumber c₄.position)
    return (.decimal (signed negative (integer * 1000 + fraction * 10 ^ (3 - digits))), c₄)
  else
    return (.integer (signed negative integer), c₂)

/-- The loop of `string`, from offset `position` with `length` units decoded. -/
def stringLoop (L : Limits) : (position length : ℕ) → Text → Except SfError (Text × ℕ × Text)
  | position, _, [] => .error (.invalidSyntax .unexpectedEnd position)
  | position, length, u :: rest =>
    if u = 34 then .ok ([], position + 1, rest)
    else if u = 92 then
      match rest with
      | v :: rest => do
        require (v = 34 ∨ v = 92) (.invalidSyntax .invalidEscape (position + 1))
        L.check .maxDecodedBytes (length + 1)
        let (output, position, rest) ← stringLoop L (position + 2) (length + 1) rest
        return (v :: output, position, rest)
      | [] => .error (.invalidSyntax .invalidEscape (position + 1))
    else do
      require (32 ≤ u ∧ u ≤ 126) (.invalidSyntax .unexpectedCharacter position)
      L.check .maxDecodedBytes (length + 1)
      let (output, position, rest) ← stringLoop L (position + 1) (length + 1) rest
      return (u :: output, position, rest)

/-- `string`. -/
def string (L : Limits) (c : Cursor) : Except SfError (Text × Cursor) := do
  let (output, position, rest) ← stringLoop L (c.position + 1) 0 c.rest.tail
  return (output, { c with position := position, rest := rest })

/-- The loop of `bytes`: the units up to a colon, the number of symbols and of pads. -/
def bytesLoop (L : Limits) :
    (position content padding : ℕ) → Text → Except SfError (Text × ℕ × ℕ × Text)
  | _, content, padding, [] => .ok ([], content, padding, [])
  | position, content, padding, u :: rest =>
    if u = 58 then .ok ([], content, padding, u :: rest)
    else if u = 61 then do
      require (padding + 1 ≤ 2) (.invalidSyntax .invalidBase64 position)
      let (run, n, k, rest) ← bytesLoop L (position + 1) content (padding + 1) rest
      return (u :: run, n, k, rest)
    else do
      require (padding = 0 ∧ (alpha u || digit u || u == 43 || u == 47))
        (.invalidSyntax .invalidBase64 position)
      L.check .maxDecodedBytes ((content + 1) * 6 / 8)
      let (run, n, k, rest) ← bytesLoop L (position + 1) (content + 1) padding rest
      return (u :: run, n, k, rest)

/-- `Buffer.from(text, "base64")` on symbols followed by pads: pads end the content. -/
def bufferFromBase64 (text : Text) : List UInt8 :=
  (Base64.decodeText (text.takeWhile (· ≠ 61))).getD []

/-- `bytes`. -/
def bytes (L : Limits) (c : Cursor) : Except SfError (List UInt8 × Cursor) := do
  let c₁ := c.next
  let (text, contentLength, padding, rest) ← bytesLoop L c₁.position 0 0 c₁.rest
  let c₂ := c₁.moveTo text.length rest
  require (c₂.code = some 58) (.invalidSyntax .unexpectedEnd c₂.position)
  let remainder := contentLength % 4
  let expectedPadding := (4 - remainder) % 4
  require (remainder ≠ 1 ∧ padding ≤ expectedPadding) (.invalidSyntax .invalidBase64 c₁.position)
  return (bufferFromBase64 text, c₂.next)

/-- `nibble`. -/
def nibble (value : UInt16) : ℕ := if value ≤ 57 then value.toNat - 48 else value.toNat - 87

/-- The loop of `displayString`: the octets before the closing quote, from offset `position`. -/
def displayLoop (L : Limits) :
    (position length : ℕ) → Text → Except SfError (List UInt8 × ℕ × Text)
  | position, _, [] => .error (.invalidSyntax .unexpectedEnd position)
  | position, length, u :: rest =>
    if u = 34 then .ok ([], position + 1, rest)
    else if ¬(32 ≤ u ∧ u ≤ 126) then .error (.invalidSyntax .unexpectedCharacter position)
    else if u = 37 then
      match rest with
      | first :: second :: rest => do
        require (hex first && hex second) (.invalidSyntax .invalidEscape (position + 1))
        L.check .maxDecodedBytes (length + 1)
        let (octets, position, rest) ← displayLoop L (position + 3) (length + 1) rest
        return (.ofNat (nibble first * 16 + nibble second) :: octets, position, rest)
      | _ => .error (.invalidSyntax .invalidEscape (position + 1))
    else do
      L.check .maxDecodedBytes (length + 1)
      let (octets, position, rest) ← displayLoop L (position + 1) (length + 1) rest
      return (u.toUInt8 :: octets, position, rest)

/-- `displayString`. -/
def displayString (L : Limits) (c : Cursor) : Except SfError (Text × Cursor) := do
  let c₁ := c.next
  require (c₁.code = some 34) (.invalidSyntax .unexpectedCharacter c₁.position)
  let (octets, position, rest) ← displayLoop L (c₁.position + 1) 0 c₁.rest.tail
  match utf8Decode octets with
  | some cs => return (units cs, { c with position := position, rest := rest })
  | none => .error (.invalidSyntax .invalidUtf8 position)

/-- The branches of `bare`: the value by its first unit. -/
def bareBranch (L : Limits) (c : Cursor) : Except SfError (BareItem × Cursor) :=
  match c.code with
  | none => c.fail .unexpectedEnd
  | some code =>
    if digit code || code == 45 then do
      let (value, c') ← number c
      return (value.bare, c')
    else if code = 34 then do
      let (value, c') ← string L c
      return (.string value, c')
    else if alpha code || code == 42 then do
      let (value, c') ← token L c
      return (.token value, c')
    else if code = 58 then do
      let (value, c') ← bytes L c
      return (.bytes value, c')
    else if code = 63 then do
      let c₁ := c.next
      require (c₁.code = some 48 ∨ c₁.code = some 49) (.invalidSyntax .invalidBoolean c₁.position)
      return (.boolean (c₁.code = some 49), c₁.next)
    else if code = 64 then do
      match ← number c.next with
      | (.integer value, c') => return (.date (.integer value), c')
      | (.decimal _, _) => c.fail .invalidNumber
    else if code = 37 then do
      let (value, c') ← displayString L c
      return (.displayString value, c')
    else c.fail .unexpectedCharacter

/-- `bare`. -/
def bare (L : Limits) (c : Cursor) : Except SfError (RawBareItem × Cursor) := do
  let (value, c') ← bareBranch L c
  return (⟨⟨c.position, c'.position⟩, value⟩, c')

/-! ## Nested productions -/

/-- The value of a parameter: explicit after an equals sign, else left out. -/
def parameterValue (L : Limits) (c : Cursor) : Except SfError (Option RawBareItem × Cursor) :=
  if c.code = some 61 then do
    let (bare, c') ← bare L c.next
    return (some bare, c')
  else return (none, c)

/-- The loop of `parameters`, with `count` parameters read. -/
def parametersLoop (L : Limits) : (fuel count : ℕ) → Cursor →
    Except SfError (List RawParameter × Cursor)
  | 0, _, c => if c.code = some 59 then c.fail .unexpectedEnd else .ok ([], c)
  | fuel + 1, count, c =>
    if c.code = some 59 then do
      L.check .maxParameters (count + 1)
      let c₁ ← c.consumeOccurrence L
      let ((key, keySpan), c₂) ← key L (c₁.next.spaces false)
      let (bare, c₃) ← parameterValue L c₂
      let (parameters, c₄) ← parametersLoop L fuel (count + 1) c₃
      return (⟨⟨c.position, c₃.position⟩, key, keySpan, bare⟩ :: parameters, c₄)
    else .ok ([], c)

/-- `parameters`. -/
def parameters (L : Limits) (c : Cursor) : Except SfError (List RawParameter × Cursor) :=
  parametersLoop L c.rest.length 0 c

/-- `item`. -/
def item (L : Limits) (c : Cursor) : Except SfError (RawItem × Cursor) := do
  let c₁ ← c.consumeOccurrence L
  let (bare, c₂) ← bare L c₁
  let (parameters, c₃) ← parameters L c₂
  return (⟨⟨c.position, c₃.position⟩, some bare, parameters⟩, c₃)

/-- The loop of `innerList`: the items and the cursor after the closing parenthesis. -/
def innerListLoop (L : Limits) : (fuel count : ℕ) → Cursor →
    Except SfError (List RawItem × Cursor)
  | 0, _, c => c.fail .unexpectedEnd
  | fuel + 1, count, c => do
    require (c.rest ≠ []) (.invalidSyntax .unexpectedEnd c.position)
    let c₁ := c.spaces false
    if c₁.code = some 41 then .ok ([], c₁.next)
    else do
      L.check .maxInnerListItems (count + 1)
      let (item, c₂) ← item L c₁
      require (c₂.code = some 32 ∨ c₂.code = some 41) (.invalidSyntax .unexpectedCharacter c₂.position)
      let (items, c₃) ← innerListLoop L fuel (count + 1) c₂
      return (item :: items, c₃)

/-- `innerList`. -/
def innerList (L : Limits) (c : Cursor) : Except SfError (RawInnerList × Cursor) := do
  let c₁ ← c.consumeOccurrence L
  let (items, c₂) ← innerListLoop L c₁.next.rest.length 0 c₁.next
  let (parameters, c₃) ← parameters L c₂
  return (⟨⟨c.position, c₃.position⟩, items, parameters⟩, c₃)

/-- `member`. -/
def member (L : Limits) (c : Cursor) : Except SfError (RawMember × Cursor) := do
  if c.code = some 40 then do
    let (list, c') ← innerList L c
    return (.innerList list, c')
  else do
    let (item, c') ← item L c
    return (.item item, c')

/-- `separator`: whether another member follows. -/
def separator (c : Cursor) : Except SfError (Bool × Cursor) := do
  let c₁ := c.spaces true
  if c₁.rest = [] then return (false, c₁)
  else do
    require (c₁.code = some 44) (.invalidSyntax .unexpectedCharacter c₁.position)
    let c₂ := c₁.next.spaces true
    require (c₂.rest ≠ []) (.invalidSyntax .unexpectedEnd c₂.position)
    return (true, c₂)

/-- The loop of `list` and of `dictionary`, with `count` elements read. -/
def membersLoop {α : Type} (L : Limits) (element : Cursor → Except SfError (α × Cursor)) :
    (fuel count : ℕ) → Cursor → Except SfError (List α × Cursor)
  | 0, _, c => if c.rest = [] then .ok ([], c) else c.fail .unexpectedEnd
  | fuel + 1, count, c =>
    if c.rest = [] then .ok ([], c)
    else do
      L.check .maxMembers (count + 1)
      let (first, c₁) ← element c
      let (more, c₂) ← separator c₁
      if more then do
        let (others, c₃) ← membersLoop L element fuel (count + 1) c₂
        return (first :: others, c₃)
      else return ([first], c₂)

/-- `list`. -/
def list (L : Limits) (c : Cursor) : Except SfError (RawList × Cursor) := do
  let (members, c') ← membersLoop L (member L) c.rest.length 0 c
  return (⟨⟨c.position, c'.position⟩, members⟩, c')

/-- One entry of `dictionary`. -/
def entry (L : Limits) (c : Cursor) : Except SfError (RawDictionaryEntry × Cursor) := do
  let ((key, keySpan), c₁) ← key L c
  if c₁.code = some 61 then do
    let (member, c₂) ← member L c₁.next
    return (⟨⟨c.position, c₂.position⟩, key, keySpan, false, member⟩, c₂)
  else do
    let c₂ ← c₁.consumeOccurrence L
    let (parameters, c₃) ← parameters L c₂
    return (⟨⟨c.position, c₃.position⟩, key, keySpan, true,
      .item ⟨⟨c₂.position, c₃.position⟩, none, parameters⟩⟩, c₃)

/-- `dictionary`. -/
def dictionary (L : Limits) (c : Cursor) : Except SfError (RawDictionary × Cursor) := do
  let (entries, c') ← membersLoop L (entry L) c.rest.length 0 c
  return (⟨⟨c.position, c'.position⟩, entries⟩, c')

/-- The root of a field, by its type. -/
def fieldRoot (L : Limits) (type : FieldType) (c : Cursor) : Except SfError (RawField × Cursor) :=
  match type with
  | .dictionary => do
    let (root, c') ← dictionary L c
    return (.dictionary root, c')
  | .list => do
    let (root, c') ← list L c
    return (.list root, c')
  | .item => do
    let (root, c') ← item L c
    return (.item root, c')

/-- `field`. -/
def field (L : Limits) (type : FieldType) (c : Cursor) : Except SfError RawField := do
  let (root, c₁) ← fieldRoot L type (c.spaces false)
  let c₂ := c₁.spaces false
  require (c₂.rest = []) (.invalidSyntax .trailingData c₂.position)
  return root

/-- The input of `parseRaw`: a string or octets. -/
inductive Input
  | text (t : Text)
  | octets (bs : List UInt8)

/-- The units of an input; octets are read as Latin-1. -/
def Input.units : Input → Text
  | .text t => t
  | .octets bs => bs.map UInt8.toUInt16

/-- `parseRaw`. -/
def parseRaw (L : Limits) (input : Input) (type : FieldType) : Except SfError RawDocument := do
  let source := input.units
  L.check .maxInputBytes source.length
  match source.findIdx? fun code => ¬ code ≤ 127 with
  | some index => .error (.invalidSyntax .nonAscii index)
  | none => do
    let root ← field L type ⟨0, source, 0⟩
    return ⟨type, source, root⟩

end AgentSig.StructuredFields
