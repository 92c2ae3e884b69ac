import AgentSig.Discovery.CacheControl
import AgentSig.Discovery.Freshness
import AgentSig.Commons.OrderedMap
import AgentSig.Commons.Unicode
import AgentSig.Core.Uri

/-!
# The rules of freshness

The headers of a response say how long it may be used. They are read in one pass, within a budget of bytes,
and anything that is missing, repeated or malformed where it should not be leaves no time at all.

## Main definitions

* `deltaSeconds`, `httpDate`: the values of the rules
* `FreshnessScan`, `scanHeaders`: the pass over the headers
* `calculateDirectoryFreshness`: the calculation
-/

namespace AgentSig.Discovery

open Commons Core Profiles StructuredFields

/-! ## Values -/

/-- `deltaSeconds`. The bound is `Number.MAX_SAFE_INTEGER / 1000`. -/
def deltaSeconds : Option Text → Option ℕ
  | none => none
  | some value =>
    if value ≠ [] ∧ value.all digit ∧ readDigits 0 value ≤ 9007199254740 then some (readDigits 0 value)
    else none

/-- The days of the week, from Monday on. -/
def weekdays : List Text :=
  [ascii "Mon", ascii "Tue", ascii "Wed", ascii "Thu", ascii "Fri", ascii "Sat", ascii "Sun"]

/-- The months. -/
def months : List Text :=
  [ascii "Jan", ascii "Feb", ascii "Mar", ascii "Apr", ascii "May", ascii "Jun", ascii "Jul",
    ascii "Aug", ascii "Sep", ascii "Oct", ascii "Nov", ascii "Dec"]

/-- The days of a month; months are counted from zero. -/
def daysInMonth (year month : ℕ) : ℕ :=
  if month = 1 then if year % 4 = 0 ∧ (year % 100 ≠ 0 ∨ year % 400 = 0) then 29 else 28
  else if month ∈ [3, 5, 8, 10] then 30 else 31

/-- The days from 1 January 1970 to a date of the Gregorian calendar. -/
def daysSinceEpoch (year month day : ℕ) : ℤ :=
  -- The year starts in March, so that the leap day is its last.
  let shifted := if month ≤ 1 then year - 1 else year
  let index := if month ≤ 1 then month + 10 else month - 2
  365 * shifted + shifted / 4 - shifted / 100 + shifted / 400 + (153 * index + 2) / 5 + day - 1 - 719468

/-- `value.slice(start, stop)`. -/
def slice (value : Text) (start stop : ℕ) : Text := (value.drop start).take (stop - start)

/-- `httpDate`: the milliseconds of a date that `toUTCString` writes in the same way. `Date.parse` reads the
years before 100 as later ones, which it writes in another way. -/
def httpDate (value : Text) : Option ℤ :=
  let digits := [slice value 5 7, slice value 12 16, slice value 17 19, slice value 20 22,
    slice value 23 25]
  let marks := slice value 3 5 ++ slice value 7 8 ++ slice value 11 12 ++ slice value 16 17 ++
    slice value 19 20 ++ slice value 22 23 ++ slice value 25 29
  if value.length = 29 ∧ marks = ascii ",    :: GMT" ∧ digits.all (·.all digit) then do
    let weekday ← weekdays.idxOf? (slice value 0 3)
    let month ← months.idxOf? (slice value 8 11)
    let [day, year, hours, minutes, seconds] := digits.map (readDigits 0) | none
    let days := daysSinceEpoch year month day
    if 100 ≤ year ∧ 1 ≤ day ∧ day ≤ daysInMonth year month ∧ hours ≤ 23 ∧ minutes ≤ 59 ∧
        seconds ≤ 59 ∧ (days + 3) % 7 = weekday then
      some ((days * 86400 + hours * 3600 + minutes * 60 + seconds) * 1000)
    else none
  else none

example : httpDate (ascii "Sun, 06 Nov 1994 08:49:37 GMT") = some 784111777000 := by decide

/-- The octets of a unit that is no part of a pair. -/
def unitBytes (c : UInt16) : ℕ := if c < 0x80 then 1 else if c < 0x800 then 2 else 3

/-- `Buffer.byteLength`. -/
def byteLength : Text → ℕ
  | [] => 0
  | [c] => unitBytes c
  | high :: low :: rest =>
    if highSurrogate high && lowSurrogate low then 4 + byteLength rest
    else unitBytes high + byteLength (low :: rest)

/-! ## The pass over the headers -/

/-- What the loop of `calculateDirectoryFreshness` has found out. -/
structure FreshnessScan where
  persist : Bool
  invalid : Bool
  revalidate : Bool
  bytes : ℕ
  single : List (Text × Text)
  lifetimes : List ℕ
  seenLifetime : List Text
  deriving DecidableEq, Repr

/-- Before the loop. -/
def FreshnessScan.start : FreshnessScan := ⟨true, false, false, 0, [], [], []⟩

/-- The round for a directive. -/
def scanField (pragma : Bool) (s : FreshnessScan) (field : Directive) : FreshnessScan :=
  let s := if field.name = ascii "no-cache" then { s with revalidate := true } else s
  if pragma then s
  else
    let s := if field.name = ascii "no-store" ∨ field.name = ascii "private" then
      { s with persist := false } else s
    if field.name ≠ ascii "max-age" ∧ field.name ≠ ascii "s-maxage" then s
    else
      let s := { s with
        invalid := s.invalid || s.seenLifetime.contains field.name
        seenLifetime := field.name :: s.seenLifetime }
      match deltaSeconds field.value with
      | none => { s with invalid := true }
      | some seconds => { s with lifetimes := s.lifetimes ++ [seconds] }

/-- The round for a header, after the budget. -/
def scanHeader (s : FreshnessScan) (rawName value : Text) : FreshnessScan :=
  let name := toLowerCase rawName
  if name = ascii "cache-control" ∨ name = ascii "pragma" then
    match directives value with
    | none => { s with
        invalid := true
        persist := s.persist && name ≠ ascii "cache-control" }
    | some fields => fields.foldl (scanField (name = ascii "pragma")) s
  else if name = ascii "date" ∨ name = ascii "age" ∨ name = ascii "expires" then { s with
    invalid := s.invalid || (OrderedMap.lookup s.single name).isSome
    single := OrderedMap.set s.single name value }
  else s

/-- The loop, or none if the headers exceed the budget. -/
def scanHeaders : FreshnessScan → List (Text × Text) → Option FreshnessScan
  | s, [] => some s
  | s, (rawName, value) :: rest =>
    if 16384 < rawName.length + value.length then none
    else
      let bytes := s.bytes + (byteLength rawName + byteLength value + 4)
      if 16384 < bytes then none
      else scanHeaders (scanHeader { s with bytes } rawName value) rest

/-! ## The calculation -/

/-- The part of a `DirectoryResponse` that freshness depends on. -/
structure FreshnessResponse where
  headers : List (Text × Text)
  requestStartedMonotonicMs : Reading
  responseReceivedMonotonicMs : Reading
  responseReceivedWallMs : Reading
  deriving DecidableEq, Repr

/-- A number that is finite, and not greater than the safe integers in absolute value. -/
def Reading.safe? : Reading → Option ℚ
  | .finite value => if |value| ≤ maxSafeInteger then some value else none
  | _ => none

/-- The times of a response, if they are valid. -/
def FreshnessResponse.times? (response : FreshnessResponse) : Option (ℚ × ℚ × ℚ) := do
  let started ← response.requestStartedMonotonicMs.safe?
  let received ← response.responseReceivedMonotonicMs.safe?
  let wall ← response.responseReceivedWallMs.safe?
  if started < 0 ∨ received < started then none else some (started, received, wall)

/-- The lifetime in seconds, before the maximum, if there is one. -/
def lifetimeSeconds (policy : DirectoryFreshnessPolicy) (lifetimes : List ℕ) (hasExpires : Bool)
    (date expires : Option ℤ) : Option ℚ :=
  match lifetimes.min? with
  | some least => some least
  | none =>
    if hasExpires then
      match date, expires with
      | some date, some expires => some (max 0 ((expires - date) / 1000))
      | _, _ => none
    else some policy.fallbackSeconds

/-- The part of `calculateDirectoryFreshness` after the loop. -/
def concludeFreshness (A : Rounding) (response : FreshnessResponse) (policy : DirectoryFreshnessPolicy)
    (s : FreshnessScan) : DirectoryFreshness :=
  let finish (remainingAtReceiptMs : ℚ) : DirectoryFreshness :=
    ⟨s.persist, .finite remainingAtReceiptMs, response.responseReceivedMonotonicMs⟩
  let rawDate := OrderedMap.lookup s.single (ascii "date")
  let rawExpires := OrderedMap.lookup s.single (ascii "expires")
  let date := rawDate.bind httpDate
  let expires := rawExpires.bind httpDate
  let age := match OrderedMap.lookup s.single (ascii "age") with
    | none => some 0
    | some value => deltaSeconds (some value)
  if s.invalid ∨ (rawDate.isSome ∧ date = none) ∨ (rawExpires.isSome ∧ expires = none) ∨ s.revalidate ∨
      s.persist = false then finish 0
  else match age, response.times? with
  | some age, some (started, received, wall) =>
    match lifetimeSeconds policy s.lifetimes rawExpires.isSome date expires with
    | none => finish 0
    | some seconds =>
      let lifetimeMs := A.round (min seconds policy.maximumLifetimeSeconds * 1000)
      let apparentAgeMs := match date with
        | none => 0
        | some date => max 0 (A.round (wall - date))
      let correctedAgeMs := A.round (age * 1000 + A.round (received - started))
      finish (max 0 (A.round (lifetimeMs - max apparentAgeMs correctedAgeMs)))
  | _, _ => finish 0

/-- `calculateDirectoryFreshness`, with a resolved policy. -/
def calculateDirectoryFreshness (A : Rounding) (response : FreshnessResponse)
    (policy : DirectoryFreshnessPolicy) : DirectoryFreshness :=
  let exceeded : DirectoryFreshness := ⟨false, .finite 0, response.responseReceivedMonotonicMs⟩
  if 16384 < response.headers.length then exceeded
  else match scanHeaders .start response.headers with
  | none => exceeded
  | some s => concludeFreshness A response policy s

end AgentSig.Discovery
