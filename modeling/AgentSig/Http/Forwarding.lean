import AgentSig.Commons.OrderedMap
import AgentSig.Http.Authority

/-!
# Forwarding fields

A trusted ingress states the host and the protocol of a request, and its client, in a field of its own: one
element of `Forwarded`, or the family of `X-Forwarded` fields.

## Main definitions

* `ForwardedName`, `parseForwarded`: the pairs of a forwarded element
* `forwardedNode`, `xForwardedClient`: the client that a field states
-/

namespace AgentSig.Http

open Commons Core Profiles

/-- A character of `tokenCharacter`. -/
def tokenCharacter (c : UInt16) : Bool := fieldNameChar c

/-- The names of the pairs. -/
inductive ForwardedName
  | host
  | proto
  | for
  | by
  deriving DecidableEq, Repr

/-- The name that a lower-case text is. -/
def forwardedName? (name : Text) : Option ForwardedName :=
  if name = ascii "host" then some .host
  else if name = ascii "proto" then some .proto
  else if name = ascii "for" then some .for
  else if name = ascii "by" then some .by
  else none

/-- A character that a quoted value may have, escaped or not. -/
def quotable (c : UInt16) : Bool := c == 9 || (32 ≤ c && c ≤ 126)

/-- The loop over a quoted value, after the quotation mark, with what is decoded so far. -/
def quotedValue : Text → Text → Except MappingFailure (Text × Text)
  | [], _ => throw (rejectMapping .forwardingMalformed)
  | [c], decoded =>
    if c = 34 then return (decoded, []) else throw (rejectMapping .forwardingMalformed)
  | c :: d :: rest, decoded =>
    if c = 34 then return (decoded, d :: rest)
    else if c = 92 then
      if quotable d then quotedValue rest (decoded ++ [d])
      else throw (rejectMapping .forwardingMalformed)
    else if quotable c then quotedValue (d :: rest) (decoded ++ [c])
    else throw (rejectMapping .forwardingMalformed)

/-- The value of a pair, quoted or not. -/
def pairValue : Text → Except MappingFailure (Text × Text)
  | 34 :: rest => quotedValue rest []
  | rest => do
    let decoded := rest.takeWhile tokenCharacter
    require (decoded ≠ []) (rejectMapping .forwardingMalformed)
    return (decoded, rest.dropWhile tokenCharacter)

/-- The loop of `parseForwarded`; every round reads a character. -/
def forwardedPairs : ℕ → Text → List (ForwardedName × Text) →
    Except MappingFailure (List (ForwardedName × Text))
  | 0, _, pairs => return pairs
  | _, [], pairs => return pairs
  | fuel + 1, rest, pairs => do
    require (rest.head? ≠ some 44) (rejectMapping .forwardingChainRejected)
    match forwardedName? (toLowerCase (rest.takeWhile tokenCharacter)) with
    | none => throw (rejectMapping .forwardingMalformed)
    | some name => do
      require ((OrderedMap.lookup pairs name).isNone) (rejectMapping .forwardingMalformed)
      match rest.dropWhile tokenCharacter with
      | 61 :: rest => do
        let (decoded, rest) ← pairValue rest
        let pairs := OrderedMap.set pairs name decoded
        match rest.dropWhile blank with
        | [] => return pairs
        | c :: rest => do
          require (c ≠ 44) (rejectMapping .forwardingChainRejected)
          require (c = 59) (rejectMapping .forwardingMalformed)
          let rest := rest.dropWhile blank
          -- No empty pairs, so no semicolon at the end.
          require (rest ≠ []) (rejectMapping .forwardingMalformed)
          forwardedPairs fuel rest pairs
      | _ => throw (rejectMapping .forwardingMalformed)

/-- `parseForwarded`. -/
def parseForwarded (value : Text) : Except MappingFailure (List (ForwardedName × Text)) := do
  let pairs ← forwardedPairs value.length (value.dropWhile blank) []
  require (pairs ≠ []) (rejectMapping .forwardingMalformed)
  return pairs

/-- The groups of `(?::([^:]+))?$`. -/
def nodeSuffix : Text → Option (Option Text)
  | [] => some none
  | c :: port => if c = 58 ∧ port ≠ [] ∧ 58 ∉ port then some (some port) else none

/-- The first alternative of `/^(\[[0-9A-Fa-f:.]+\]|[^:]+)(?::([^:]+))?$/`. -/
def bracketedNode : Text → Option (Text × Option Text)
  | 91 :: value =>
    let inner := value.takeWhile ipChar
    match value.dropWhile ipChar with
    | 93 :: rest =>
      if inner = [] then none else (nodeSuffix rest).map fun port => (91 :: (inner ++ [93]), port)
    | _ => none
  | _ => none

/-- The groups of the expression. -/
def splitNode (value : Text) : Option (Text × Option Text) :=
  bracketedNode value <|>
    let node := value.takeWhile (· != 58)
    if node = [] then none
    else (nodeSuffix (value.dropWhile (· != 58))).map fun port => (node, port)

/-- `/^_[A-Za-z0-9._-]+$/` matches. -/
def obfuscated : Text → Bool
  | 95 :: rest => rest ≠ [] && rest.all hostChar
  | _ => false

/-- `/^(?:[0-9]{1,5}|_[A-Za-z0-9._-]+)$/` matches. -/
def nodePort (port : Text) : Bool :=
  (port ≠ [] && decide (port.length ≤ 5) && port.all digit) || obfuscated port

/-- `forwardedNode`. -/
def forwardedNode (O : OriginPlatform) (value : Text) : Except MappingFailure ObservedClient :=
  match splitNode value with
  | none => throw (rejectMapping .forwardingMalformed)
  | some (node, port) => do
    require (port.all nodePort) (rejectMapping .forwardingMalformed)
    if node.head? = some 91 then
      let address := node.tail.dropLast
      require (O.isIP address = 6) (rejectMapping .forwardingMalformed)
      return ⟨.ip, address, port⟩
    else if O.isIP node = 4 then return ⟨.ip, node, port⟩
    else if toLowerCase node = ascii "unknown" then return ⟨.unknown, node, port⟩
    else if obfuscated node then return ⟨.obfuscated, node, port⟩
    else throw (rejectMapping .forwardingMalformed)

/-- `xForwardedClient`. -/
def xForwardedClient (O : OriginPlatform) (value : Text) : Except MappingFailure ObservedClient := do
  require (O.isIP value ≠ 0 ∧ ¬ value.contains 37 ∧ value.length ≤ 45)
    (rejectMapping .forwardingMalformed)
  if O.isIP value = 6 then
    match O.url (hostUrl (ascii "[" ++ value ++ ascii "]")) with
    | none => throw .thrown
    | some parsed => do
      require (parsed.hostname = ascii "[" ++ value ++ ascii "]") (rejectMapping .forwardingMalformed)
  return ⟨.ip, value, none⟩

/-- One round of a forwarded element. -/
example : parseForwarded (ascii "Host=\"a.example\";proto=https") =
    .ok [(.host, ascii "a.example"), (.proto, ascii "https")] := by decide

end AgentSig.Http
