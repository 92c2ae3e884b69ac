import AgentSig.Commons.IpText
import AgentSig.Commons.OrderedMap
import AgentSig.Profiles.Codes
import Mathlib.Data.List.DropRight

/-!
# Address policies

The addresses that a directory may be fetched from. The text of an address is checked by `isIP` and
then read as a number; ranges of numbers are refused, except for named exceptions that a
configuration selects.

## Main definitions

* `parseAddress`: the address of a text
* `addressPrefix`, `AddressRanges`: the ranges
* `createDirectoryAddressPolicy`: the policy of some exceptions
-/

namespace AgentSig.Discovery

open Commons Commons.Ip Profiles

/-- The family of an address. -/
inductive Family
  | v4
  | v6
  deriving DecidableEq, Repr

/-- The bits of an address. -/
def Family.width : Family → ℕ
  | .v4 => 32
  | .v6 => 128

/-- `Address`. -/
@[ext]
structure Address where
  family : Family
  value : ℕ
  deriving DecidableEq, Repr

/-- `/[\s%/[\]]/`. -/
def refusedUnit (c : UInt16) : Bool :=
  (9 ≤ c && c ≤ 13) || c == 32 || c == 160 || c == 0x1680 || (0x2000 ≤ c && c ≤ 0x200a) ||
    c == 0x2028 || c == 0x2029 || c == 0x202f || c == 0x205f || c == 0x3000 || c == 0xfeff ||
    (ascii "%/[]").contains c

/-- `text.split("::")`. -/
def splitColons : Text → List Text
  | [] => [[]]
  | 58 :: 58 :: rest => [] :: splitColons rest
  | c :: rest =>
    match splitColons rest with
    | [] => [[c]]
    | first :: others => (c :: first) :: others

/-- The text with its dotted quad replaced by two groups. -/
def replaceQuad (text : Text) : Text :=
  -- the parts of the text up to and after `text.lastIndexOf(":")`
  let before := text.rdropWhile (· ≠ 58)
  let octets := ((text.rtakeWhile (· ≠ 58)).splitOn 46).map (readDigits 0)
  -- a text that `isIP` accepts has four octets
  let high := hexText (octets.getD 0 0 * 256 + octets.getD 1 0)
  let low := hexText (octets.getD 2 0 * 256 + octets.getD 3 0)
  before ++ high ++ [58] ++ low

/-- `half ? half.split(":") : []`. -/
def splitHalf (half : Text) : List Text := if half = [] then [] else half.splitOn 58

/-- `groups`, of the text of an IPv6 address. -/
def splitGroups (text : Text) : List Text :=
  let halves := splitColons text
  let left := splitHalf (halves.getD 0 [])
  let right := if halves.length = 2 then splitHalf (halves.getD 1 []) else []
  if halves.length = 2 then
    left ++ List.replicate (8 - left.length - right.length) [48] ++ right
  else left

/-- `parseAddress`. A value that is no string is `none`. -/
def parseAddress (isIP : Text → ℕ) : Option Text → Option Address
  | none => none
  | some input =>
    if input.length = 0 ∨ input.length > 45 ∨ input.any refusedUnit then none
    else if isIP input = 4 then
      some ⟨.v4, (input.splitOn 46).foldl (fun value octet => value <<< 8 ||| readDigits 0 octet) 0⟩
    else if isIP input ≠ 6 then none
    else
      let text := if input.contains 46 then replaceQuad input else input
      some ⟨.v6, (splitGroups text).foldl (fun value group => value <<< 16 ||| readHex group) 0⟩

/-- `prefix`; none if it throws. -/
def addressPrefix (isIP : Text → ℕ) (text : Text) (bits : ℕ) : Option (Address → Bool) := do
  let network ← parseAddress isIP (some text)
  let shift := network.family.width - bits
  return fun address => address.family = network.family &&
    address.value >>> shift == network.value >>> shift

/-- `DirectoryAddressException`. -/
inductive DirectoryAddressException
  | pcpAnycastV4
  | turnAnycastV4
  | as112V4
  | amtV4
  | as112DirectV4
  | pcpAnycastV6
  | turnAnycastV6
  | dnssdAnycastV6
  | amtV6
  | as112V6
  | orchidV2
  | detV6
  | as112DirectV6
  deriving DecidableEq, Repr

namespace DirectoryAddressException

/-- The keys of `exceptionPrefixes`. -/
def all : List DirectoryAddressException :=
  [pcpAnycastV4, turnAnycastV4, as112V4, amtV4, as112DirectV4, pcpAnycastV6, turnAnycastV6,
    dnssdAnycastV6, amtV6, as112V6, orchidV2, detV6, as112DirectV6]

/-- The name of an exception. -/
def name : DirectoryAddressException → Text
  | pcpAnycastV4 => ascii "pcp-anycast-v4"
  | turnAnycastV4 => ascii "turn-anycast-v4"
  | as112V4 => ascii "as112-v4"
  | amtV4 => ascii "amt-v4"
  | as112DirectV4 => ascii "as112-direct-v4"
  | pcpAnycastV6 => ascii "pcp-anycast-v6"
  | turnAnycastV6 => ascii "turn-anycast-v6"
  | dnssdAnycastV6 => ascii "dnssd-anycast-v6"
  | amtV6 => ascii "amt-v6"
  | as112V6 => ascii "as112-v6"
  | orchidV2 => ascii "orchid-v2"
  | detV6 => ascii "det-v6"
  | as112DirectV6 => ascii "as112-direct-v6"

/-- The text and the bits of the prefix of an exception. -/
def range : DirectoryAddressException → Text × ℕ
  | pcpAnycastV4 => (ascii "192.0.0.9", 32)
  | turnAnycastV4 => (ascii "192.0.0.10", 32)
  | as112V4 => (ascii "192.31.196.0", 24)
  | amtV4 => (ascii "192.52.193.0", 24)
  | as112DirectV4 => (ascii "192.175.48.0", 24)
  | pcpAnycastV6 => (ascii "2001:1::1", 128)
  | turnAnycastV6 => (ascii "2001:1::2", 128)
  | dnssdAnycastV6 => (ascii "2001:1::3", 128)
  | amtV6 => (ascii "2001:3::", 32)
  | as112V6 => (ascii "2001:4:112::", 48)
  | orchidV2 => (ascii "2001:20::", 28)
  | detV6 => (ascii "2001:30::", 28)
  | as112DirectV6 => (ascii "2620:4f:8000::", 48)

end DirectoryAddressException

/-- The texts and the bits of `excluded`. -/
def excludedRanges : List (Text × ℕ) :=
  [(ascii "0.0.0.0", 8), (ascii "10.0.0.0", 8),
    (ascii "100.64.0.0", 10), (ascii "127.0.0.0", 8),
    (ascii "169.254.0.0", 16), (ascii "172.16.0.0", 12),
    (ascii "192.0.0.0", 24), (ascii "192.0.2.0", 24),
    (ascii "192.31.196.0", 24), (ascii "192.52.193.0", 24),
    (ascii "192.88.99.0", 24), (ascii "192.168.0.0", 16),
    (ascii "192.175.48.0", 24), (ascii "198.18.0.0", 15),
    (ascii "198.51.100.0", 24), (ascii "203.0.113.0", 24),
    (ascii "224.0.0.0", 4), (ascii "240.0.0.0", 4),
    (ascii "2001::", 23), (ascii "2001:db8::", 32),
    (ascii "2002::", 16), (ascii "2620:4f:8000::", 48),
    (ascii "3fff::", 20)]

/-- The constants of the module. -/
structure AddressRanges where
  excluded : List (Address → Bool)
  globalV6Envelope : Address → Bool
  exceptionPrefixes : List (DirectoryAddressException × (Address → Bool))

/-- The constants of the module; none if a prefix throws while it is loaded. -/
def addressRanges (isIP : Text → ℕ) : Option AddressRanges := do
  let excluded ← excludedRanges.mapM fun range => addressPrefix isIP range.1 range.2
  let globalV6Envelope ← addressPrefix isIP (ascii "2000::") 3
  let exceptionPrefixes ← DirectoryAddressException.all.mapM fun id => do
    let contains ← addressPrefix isIP id.range.1 id.range.2
    return (id, contains)
  return { excluded, globalV6Envelope, exceptionPrefixes }

/-- `admitted`. -/
def admitted (ranges : AddressRanges) (address : Address) : Bool :=
  (address.family = .v4 || ranges.globalV6Envelope address) &&
    !ranges.excluded.any fun contains => contains address

/-- An element of an array of exceptions. -/
inductive ExceptionSlot
  /-- An element that is missing, or an accessor. -/
  | noValue
  /-- A value; one that is no string is `none`. -/
  | value (name : Option Text)
  deriving DecidableEq, Repr

/-- `DirectoryAddressPolicy`. -/
structure DirectoryAddressPolicy where
  exceptions : List DirectoryAddressException
  allows : Option Text → Bool
  matchesPeer : Option Text → Option Text → Bool

/-- The exception that a name selects. -/
def exceptionNamed (name : Text) : Option DirectoryAddressException :=
  DirectoryAddressException.all.find? fun id => id.name = name

/-- One round of the loop of `createDirectoryAddressPolicy`. -/
def selectException (selected : List DirectoryAddressException) (slot : ExceptionSlot) :
    Except ProfileError (List DirectoryAddressException) :=
  match slot with
  | .value (some name) =>
    match exceptionNamed name with
    | some id => if id ∈ selected then throw (.configuration .invalidAgentBinding)
      else return selected ++ [id]
    | none => throw (.configuration .invalidAgentBinding)
  | _ => throw (.configuration .invalidAgentBinding)

/-- The policy of `createDirectoryAddressPolicy`, once its exceptions are selected. -/
def frozenPolicy (isIP : Text → ℕ) (ranges : AddressRanges)
    (selected : List DirectoryAddressException) : DirectoryAddressPolicy :=
  let checks := selected.filterMap fun id => OrderedMap.lookup ranges.exceptionPrefixes id
  let allowed (address : Address) : Bool :=
    admitted ranges address || checks.any fun contains => contains address
  { exceptions := selected
    allows := fun input =>
      match parseAddress isIP input with
      | none => false
      | some address => allowed address
    matchesPeer := fun pinned peer =>
      match parseAddress isIP pinned, parseAddress isIP peer with
      | some expected, some actual =>
        if !allowed expected then false
        else if expected.family = actual.family then expected.value == actual.value
        else expected.family = .v4 && actual.family = .v6 && actual.value >>> 32 == 0xffff &&
          actual.value &&& 0xffffffff == expected.value
      | _, _ => false }

/-- `createDirectoryAddressPolicy`. Exceptions that are no array are `none`. -/
def createDirectoryAddressPolicy (isIP : Text → ℕ) (ranges : AddressRanges)
    (exceptions : Option (List ExceptionSlot)) : Except ProfileError DirectoryAddressPolicy := do
  match exceptions with
  | none => throw (.configuration .invalidAgentBinding)
  | some slots => do
    require (slots.length ≤ DirectoryAddressException.all.length) (.configuration .invalidAgentBinding)
    let selected ← slots.foldlM selectException []
    return frozenPolicy isIP ranges selected

end AgentSig.Discovery
