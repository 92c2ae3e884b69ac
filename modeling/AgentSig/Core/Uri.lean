import AgentSig.Core.Headers

/-!
# Request targets

The derived components of a request. A target URI is separated lexically, so its path and
its query keep their spelling. The platform contributes the check of an authority and the
form encoding of query parameters; everything here holds for any platform.

## Main definitions

* `Platform`: `URL` and `URLSearchParams`
* `RequestParts`: the parts of a request
* `targetParts`: the components of a target URI
* `requestComponent`: the value of a derived component
-/

namespace AgentSig.Core

open Commons

/-- The Web APIs that the program calls. -/
structure Platform where
  /-- `new URL(href)` succeeds, with a host name and without credentials. -/
  urlAccepts : Text → Bool
  /-- The pairs of `new URLSearchParams(query)`. -/
  searchParams : Text → List (Text × Text)
  /-- `new URLSearchParams([["", value]]).toString()`. -/
  formEncode : Text → Text

/-- `RequestParts`. -/
structure RequestParts where
  method : Text
  targetUri : Text
  rawRequestTarget : Option Text
  headers : List HeaderField
  httpVersion : Option HttpVersion
  deriving DecidableEq, Repr

/-- `TargetParts`. -/
structure TargetParts where
  original : Text
  scheme : Text
  authority : Text
  path : Text
  query : Text
  deriving DecidableEq, Repr

/-- An ASCII letter. -/
def letter (c : UInt16) : Bool := (65 ≤ c && c ≤ 90) || (97 ≤ c && c ≤ 122)

/-- An ASCII digit. -/
def digit (c : UInt16) : Bool := 48 ≤ c && c ≤ 57

/-- A hexadecimal digit of either case. -/
def hexDigit (c : UInt16) : Bool := digit c || (65 ≤ c && c ≤ 70) || (97 ≤ c && c ≤ 102)

/-- A character of a target URI. -/
def targetChar (c : UInt16) : Bool :=
  letter c || digit c || (ascii "-._~:/?[]@!$&'()*+,;=%").contains c

/-- Every percent sign starts an escape: `/%(?![0-9A-Fa-f]{2})/` does not match. -/
def escapesValid : Text → Bool
  | [] => true
  | c :: rest => (c != 37 || ((rest.take 2).length == 2 && (rest.take 2).all hexDigit)) &&
      escapesValid rest

/-- A character of a scheme after its first. -/
def schemeChar (c : UInt16) : Bool := letter c || digit c || c == 43 || c == 46 || c == 45

/-- The groups of `^([A-Za-z][A-Za-z0-9+.-]*):\/\/([^/?#]+)([^?#]*)(\?[^#]*)?$`. -/
def splitTarget (target : Text) : Option (Text × Text × Text × Option Text) :=
  let scheme := target.takeWhile schemeChar
  match target.dropWhile schemeChar with
  | 58 :: 47 :: 47 :: rest =>
    let authority := rest.takeWhile fun c => c != 47 && c != 63 && c != 35
    let rest := rest.dropWhile fun c => c != 47 && c != 63 && c != 35
    let path := rest.takeWhile fun c => c != 63 && c != 35
    let query := rest.dropWhile fun c => c != 63 && c != 35
    if !scheme.head?.any letter || authority = [] || query.contains 35 then none
    else some (scheme, authority, path, if query = [] then none else some query)
  | _ => none

/-- The groups of `(?::([0-9]*))?$`. -/
def splitPort : Text → Option (Option Text)
  | [] => some none
  | c :: rest => if c = 58 && rest.all digit then some (some rest) else none

/-- The host and the port of an authority. -/
def splitAuthority (authority : Text) : Option (Text × Option Text) :=
  if authority.head? = some 91 then
    let inner := authority.tail.takeWhile fun c => hexDigit c || c == 58 || c == 46
    match authority.tail.dropWhile fun c => hexDigit c || c == 58 || c == 46 with
    | 93 :: rest =>
      if inner = [] then none else (splitPort rest).map fun port => (91 :: (inner ++ [93]), port)
    | _ => none
  else
    let host := authority.takeWhile (· != 58)
    if host = [] then none
    else (splitPort (authority.dropWhile (· != 58))).map fun port => (host, port)

/-- `targetParts`. -/
def targetParts (P : Platform) (L : CoreLimits) (target : Text) : Except CoreError TargetParts := do
  checkLimit L .maxTargetUriBytes target.length
  require (target ≠ [] ∧ target.all targetChar ∧ escapesValid target) malformed
  match splitTarget target with
  | none => throw malformed
  | some (scheme, authority, path, query) => do
    let scheme := toLowerCase scheme
    require (scheme = ascii "http" ∨ scheme = ascii "https") unsupported
    require (¬ authority.contains 64) malformed
    match splitAuthority authority with
    | none => throw malformed
    | some (host, port) => do
      require (P.urlAccepts (scheme ++ ascii "://" ++ authority ++ ascii "/")) malformed
      let host := toLowerCase host
      let defaultPort := if scheme = ascii "https" then 443 else 80
      let normalizedAuthority := match port with
        | none => host
        | some port =>
          if port = [] ∨ readDigits 0 port = defaultPort then host else host ++ 58 :: port
      return {
        original := target, scheme, authority := normalizedAuthority,
        path := if path = [] then [47] else path,
        query := query.getD [63] }

/-- `replace(/\+/g, "%20")`. -/
def plusToEscape (t : Text) : Text := t.flatMap fun c => if c = 43 then ascii "%20" else [c]

/-- `encodeQueryPart`. -/
def encodeQueryPart (P : Platform) (value : Text) : Text := plusToEscape (P.formEncode value).tail

/-- The loop of `queryParameter`, with the value found so far. -/
def findParameter (P : Platform) (encodedName : Text) :
    Option Text → List (Text × Text) → Except CoreError (Option Text)
  | found, [] => .ok found
  | found, (name, value) :: rest =>
    if encodeQueryPart P name ≠ encodedName then findParameter P encodedName found rest
    else do
      require (found = none) malformed
      findParameter P encodedName (some (encodeQueryPart P value)) rest

/-- `queryParameter`. -/
def queryParameter (P : Platform) (query encodedName : Text) : Except CoreError Text := do
  match ← findParameter P encodedName none (P.searchParams query.tail) with
  | some found => return found
  | none => throw missingComponent

/-- `requestComponent`. -/
def requestComponent (P : Platform) (L : CoreLimits) (request : RequestParts) (name : Text)
    (encodedQueryName : Option Text) : Except CoreError Text :=
  if name = ascii "@method" then do
    checkLimit L .maxSignatureBaseBytes request.method.length
    require (isFieldName request.method) malformed
    return request.method
  else if name = ascii "@request-target" then
    match request.rawRequestTarget with
    | none => throw missingComponent
    | some raw => do
      checkLimit L .maxTargetUriBytes raw.length
      require (raw ≠ [] ∧ raw.all fun c => 0x21 ≤ c && c ≤ 0x7e) malformed
      return raw
  else do
    let target ← targetParts P L request.targetUri
    if name = ascii "@target-uri" then return target.original
    else if name = ascii "@authority" then return target.authority
    else if name = ascii "@scheme" then return target.scheme
    else if name = ascii "@path" then return target.path
    else if name = ascii "@query" then return target.query
    else if name = ascii "@query-param" then
      match encodedQueryName with
      | none => throw malformed
      | some encodedName => queryParameter P target.query encodedName
    else throw unsupported

end AgentSig.Core
