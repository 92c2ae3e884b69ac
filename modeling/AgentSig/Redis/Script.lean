import AgentSig.Commons.Json
import AgentSig.Profiles.Metadata
import AgentSig.StructuredFields.Rfc9651

/-!
# The replay script

`REDIS_REPLAY_SCRIPT`, which one primary executes atomically: it validates the history under its
three keys, starts a quarantine where the history is missing or not intact, and otherwise checks and
inserts one replay identity. A number of the script that is stored, or passed as an argument, is the
text of its decimal digits.

What a string under the state key encodes is what `cjson.decode` reads of it. The fields that the
script does not read are left out.

## Main definitions

* `Time`: a reading of `TIME`, and its two roundings
* `Keys`, `DecodedState`: what the keys hold, and what the state key decodes to
* `admission`, `readState`, `scanRecord`, `decision`: the checks of the script, in its order
* `execute`: one execution

## Main results

* `integer_eq_some`: the script reads exactly the digits that it writes
-/

namespace AgentSig.Redis

open Commons Core Profiles StructuredFields

/-! ## Numbers -/

/-- `MAX`. -/
def MAX : ℕ := 9007199254740991

/-- `MAX_BYTES`. -/
def MAX_BYTES : ℕ := 33554432

/-- `MAX_RECORDS`. -/
def MAX_RECORDS : ℕ := 10000

/-- `integer`, of a string. -/
def integer (text : Text) : Option ℕ :=
  if text ≠ [] ∧ text.length ≤ 16 ∧ text.all Rfc9651.DIGIT then
    let value := readDigits 0 text
    if value ≤ MAX ∧ decimal value = text then some value else none
  else none

/-- The script reads exactly the digits that it writes. -/
theorem integer_eq_some {text : Text} {n : ℕ} :
    integer text = some n ↔ text = decimal n ∧ n ≤ MAX := by
  constructor
  · intro h
    unfold integer at h
    split at h
    · simp only at h
      split at h
      · rename_i hvalue
        obtain rfl := Option.some.inj h
        exact ⟨hvalue.2.symm, hvalue.1⟩
      · simp at h
    · simp at h
  · rintro ⟨rfl, hn⟩
    have hlength : (decimal n).length ≤ 16 :=
      (length_decimal_le_iff (by omega)).mpr (lt_of_le_of_lt hn (by decide))
    have hdigits : (decimal n).all Rfc9651.DIGIT := by
      refine List.all_eq_true.mpr fun c hc => ?_
      have hbounds := bounds_of_mem_decimal hc
      simp [Rfc9651.DIGIT, hbounds]
    unfold integer
    rw [if_pos ⟨decimal_ne_nil n, hlength, hdigits⟩]
    simp only [readDigits_decimal, hn, and_self, if_true]

theorem integer_decimal {n : ℕ} (h : n ≤ MAX) : integer (decimal n) = some n :=
  integer_eq_some.mpr ⟨rfl, h⟩

/-- The reply of `TIME`: seconds, and microseconds within the second. -/
structure Time where
  seconds : ℤ
  microseconds : ℕ
  deriving DecidableEq, Repr

namespace Time

/-- `now`: the observation is rounded down to a millisecond. -/
def now (t : Time) : ℤ := t.seconds * 1000 + t.microseconds / 1000

/-- `deadlineBase`: a new deadline starts at the next millisecond. -/
def deadlineBase (t : Time) : ℤ := t.seconds * 1000 + (t.microseconds + 999) / 1000

theorem now_le_deadlineBase (t : Time) : t.now ≤ t.deadlineBase := by
  simp only [now, deadlineBase]
  omega

end Time

/-! ## The keys -/

/-- What a key holds: a string, or a value of another type. -/
inductive RedisValue (α : Type)
  | string (value : α)
  | other
  deriving DecidableEq, Repr

/-- A record as `cjson.decode` reads it; a field that is no string is none. -/
structure DecodedRecord where
  identity : Option Text
  thumbprint : Option Text
  deadline : Option Text
  deriving DecidableEq, Repr

/-- A table of records: an array, whose elements may be no tables, or an object. An empty array is
encoded as an empty object. -/
inductive DecodedRecords
  | array (elements : List (Option DecodedRecord))
  | object (size : ℕ)
  deriving DecidableEq, Repr

/-- The elements of a table. -/
def DecodedRecords.elements : DecodedRecords → List (Option DecodedRecord)
  | .array elements => elements
  | .object _ => []

/-- A table as `cjson.decode` reads it; a field that is no string, or no table, is none. -/
structure DecodedState where
  version : Option Text
  epoch : Option Text
  quarantineUntil : Option Text
  detectedAt : Option Text
  lastTime : Option Text
  horizon : Option Text
  capacity : Option Text
  quota : Option Text
  records : Option DecodedRecords
  deriving DecidableEq, Repr

/-- A string under the state key: its length, and the table that it encodes, if it does. -/
structure EncodedState where
  length : ℕ
  decoded : Option DecodedState
  deriving DecidableEq, Repr

/-- What the three keys hold. -/
structure Keys where
  epoch : Option (RedisValue Text)
  quarantineUntil : Option (RedisValue Text)
  state : Option (RedisValue EncodedState)
  deriving DecidableEq, Repr

/-- Nothing under the keys. -/
def Keys.empty : Keys := ⟨none, none, none⟩

/-! ## The state -/

/-- A replay record. -/
structure ReplayRecord where
  identity : Text
  thumbprint : Text
  deadline : Text
  deriving DecidableEq, Repr

/-- The fields of the state but for the records. -/
structure ReplayHeader where
  version : Text
  epoch : Text
  quarantineUntil : Text
  detectedAt : Text
  lastTime : Text
  horizon : Text
  capacity : Text
  quota : Text
  deriving DecidableEq, Repr

/-- `state`. -/
structure ReplayState extends ReplayHeader where
  records : List ReplayRecord
  deriving DecidableEq, Repr

/-- A record, decoded. -/
def ReplayRecord.decoded (r : ReplayRecord) : DecodedRecord :=
  ⟨some r.identity, some r.thumbprint, some r.deadline⟩

/-- A list of records, decoded. -/
def decodedRecords : List ReplayRecord → DecodedRecords
  | [] => .object 0
  | records => .array (records.map (some ·.decoded))

/-- A state, decoded. -/
def ReplayState.decoded (s : ReplayState) : DecodedState where
  version := some s.version
  epoch := some s.epoch
  quarantineUntil := some s.quarantineUntil
  detectedAt := some s.detectedAt
  lastTime := some s.lastTime
  horizon := some s.horizon
  capacity := some s.capacity
  quota := some s.quota
  records := some (decodedRecords s.records)

/-- Texts with commas between them. -/
def commaSeparated (texts : List Text) : Text := List.intercalate [44] texts

/-- A field of an object. -/
def encodeField (name : String) (value : Text) : Text :=
  Json.quote (ascii name) ++ 58 :: value

/-- A field that is a string. -/
def encodeString (name : String) (value : Text) : Text := encodeField name (Json.quote value)

/-- A record, encoded. -/
def ReplayRecord.encode (r : ReplayRecord) : Text :=
  123 :: commaSeparated [encodeString "identity" r.identity, encodeString "thumbprint" r.thumbprint,
    encodeString "deadline" r.deadline] ++ [125]

/-- The table of records, encoded: `cjson` takes an empty table for an object. -/
def encodeRecords : List ReplayRecord → Text
  | [] => [123, 125]
  | records => 91 :: commaSeparated (records.map ReplayRecord.encode) ++ [93]

/-- `cjson.encode`, of a state. The order of the fields is not specified; the length does not depend
on it. -/
def ReplayState.encode (s : ReplayState) : Text :=
  123 :: commaSeparated [encodeString "version" s.version, encodeString "epoch" s.epoch,
    encodeString "quarantineUntil" s.quarantineUntil, encodeString "detectedAt" s.detectedAt,
    encodeString "lastTime" s.lastTime, encodeString "horizon" s.horizon,
    encodeString "capacity" s.capacity, encodeString "quota" s.quota,
    encodeField "records" (encodeRecords s.records)] ++ [125]

/-- The keys after `MSET` of a state. -/
def written (s : ReplayState) : Keys where
  epoch := some (.string s.epoch)
  quarantineUntil := some (.string s.quarantineUntil)
  state := some (.string ⟨s.encode.length, some s.decoded⟩)

/-- `save`: the keys after it, unless the state is too long. -/
def save (s : ReplayState) : Option Keys :=
  if s.encode.length ≤ MAX_BYTES then some (written s) else none

/-! ## Arguments -/

/-- `ARGV`. -/
structure Arguments where
  mode : Text
  horizon : Text
  capacity : Text
  quota : Text
  proposedEpoch : Text
  identity : Text
  thumbprint : Text
  duration : Text
  deriving DecidableEq, Repr

/-- What the script computes of admitted arguments and of `TIME`. The duration is none in setup
mode. -/
structure Admission where
  duration : Option ℕ
  horizon : ℕ
  capacity : ℕ
  quota : ℕ
  now : ℕ
  deadlineBase : ℕ
  deriving DecidableEq, Repr

/-- An epoch: 32 hexadecimal digits. -/
def validEpoch (epoch : Text) : Bool := epoch.length = 32 ∧ epoch.all Rfc9651.lowerHex

/-- An identity that the script accepts. -/
def validIdentity (identity : Text) : Bool :=
  identity ≠ [] ∧ identity.length ≤ 4096 ∧ identity.all base64UrlChar

/-- A thumbprint that the script accepts. -/
def validThumbprint (thumbprint : Text) : Bool :=
  thumbprint.length = 43 ∧ thumbprint.all base64UrlChar

/-- The duration, of a mode that is known. -/
def admitMode (a : Arguments) : Option (Option ℕ) :=
  if a.mode = ascii "setup" then some none
  else do
    let duration ← integer a.duration
    guard (a.mode = ascii "consume" ∧ validIdentity a.identity ∧ validThumbprint a.thumbprint ∧
      0 < duration)
    return some duration

/-- The checks of the arguments, and of `TIME`. -/
def admission (a : Arguments) (t : Time) : Option Admission := do
  let horizon ← integer a.horizon
  let capacity ← integer a.capacity
  let quota ← integer a.quota
  guard (0 < horizon ∧ capacity ≤ MAX_RECORDS ∧ quota ≤ MAX_RECORDS ∧ validEpoch a.proposedEpoch)
  let duration ← admitMode a
  guard (0 ≤ t.now ∧ t.deadlineBase ≤ MAX ∧ horizon ≤ MAX - t.deadlineBase ∧
    ∀ d ∈ duration, (d : ℤ) ≤ MAX - t.deadlineBase)
  return ⟨duration, horizon, capacity, quota, t.now.toNat, t.deadlineBase.toNat⟩

/-! ## The stored state -/

/-- The string under a key, if there is one within a limit. -/
def readKey {α : Type} (length : α → ℕ) (limit : ℕ) : Option (RedisValue α) → Option α
  | some (.string value) => if length value ≤ limit then some value else none
  | _ => none

/-- A state that has been read and validated, up to its records. -/
structure StoredState where
  header : ReplayHeader
  untilTime : ℕ
  detectedAt : ℕ
  lastTime : ℕ
  horizon : ℕ
  capacity : ℕ
  quota : ℕ
  records : DecodedRecords
  deriving DecidableEq, Repr

/-- The fields of a table, if they are strings. -/
def readHeader (state : DecodedState) : Option ReplayHeader := do
  return {
    version := ← state.version
    epoch := ← state.epoch
    quarantineUntil := ← state.quarantineUntil
    detectedAt := ← state.detectedAt
    lastTime := ← state.lastTime
    horizon := ← state.horizon
    capacity := ← state.capacity
    quota := ← state.quota }

/-- The checks of the keys and of the state, up to the records. None starts a quarantine. -/
def readState (deadlineBase : ℕ) (keys : Keys) : Option StoredState := do
  let epoch ← readKey List.length 64 keys.epoch
  let untilText ← readKey List.length 64 keys.quarantineUntil
  let encoded ← readKey EncodedState.length MAX_BYTES keys.state
  let state ← encoded.decoded
  let header ← readHeader state
  guard (header.version = ascii "1" ∧ validEpoch epoch ∧ header.epoch = epoch ∧
    header.quarantineUntil = untilText)
  let untilTime ← integer untilText
  let detectedAt ← integer header.detectedAt
  let lastTime ← integer header.lastTime
  let horizon ← integer header.horizon
  let capacity ← integer header.capacity
  let quota ← integer header.quota
  guard (0 < horizon ∧ capacity ≤ MAX_RECORDS ∧ quota ≤ MAX_RECORDS ∧
    detectedAt + horizon ≤ MAX ∧ untilTime = detectedAt + horizon ∧
    detectedAt ≤ lastTime ∧ lastTime ≤ deadlineBase)
  let records ← state.records
  return ⟨header, untilTime, detectedAt, lastTime, horizon, capacity, quota, records⟩

/-! ## The records -/

/-- What the loop over the records has computed. -/
structure Scan where
  recordCount : ℕ
  identities : List Text
  live : List ReplayRecord
  forKey : ℕ
  replayed : Bool
  deriving DecidableEq, Repr

/-- One round of the loop. None starts a quarantine. -/
def scanRecord (a : Arguments) (c : Admission) (s : Scan) (record : Option DecodedRecord) :
    Option Scan := do
  let record ← record
  let id ← record.identity
  let key ← record.thumbprint
  let deadlineText ← record.deadline
  let deadline ← integer deadlineText
  guard (s.recordCount + 1 ≤ MAX_RECORDS ∧ validIdentity id ∧ validThumbprint key ∧
    id ∉ s.identities)
  let counted := { s with recordCount := s.recordCount + 1, identities := id :: s.identities }
  if c.now < deadline then
    let own := c.duration.isSome ∧ id = a.identity
    guard (own → key = a.thumbprint)
    return { counted with
      live := s.live ++ [⟨id, key, deadlineText⟩]
      forKey := if c.duration.isSome ∧ key = a.thumbprint then s.forKey + 1 else s.forKey
      replayed := s.replayed || own }
  else return counted

/-- The loop over the records. An object has a string for an index, unless it is empty. -/
def scanRecords (a : Arguments) (c : Admission) : DecodedRecords → Option Scan
  | .array elements => elements.foldlM (scanRecord a c) ⟨0, [], [], 0, false⟩
  | .object size => if size = 0 then some ⟨0, [], [], 0, false⟩ else none

/-! ## Decisions -/

/-- The replies of the script. -/
inductive ScriptReply
  | unavailable
  | quarantine
  | configurationMismatch
  | ready
  | replayed
  | perKeyQuotaExceeded
  | accepted
  deriving DecidableEq, Repr

/-- What the script does: it replies, it starts a quarantine, or it inserts a record. -/
inductive Decision
  | reply (reply : ScriptReply)
  | quarantine
  | insert (state : ReplayState)
  deriving DecidableEq, Repr

/-- Expiry, replay, the quota, the capacity, then insertion. -/
def consumeDecision (a : Arguments) (c : Admission) (header : ReplayHeader) (scan : Scan)
    (duration : ℕ) : Decision :=
  if scan.replayed then .reply .replayed
  else if c.quota ≤ scan.forKey then .reply .perKeyQuotaExceeded
  else if c.capacity ≤ scan.live.length then .reply .unavailable
  else .insert { header with
    lastTime := decimal c.deadlineBase
    records := scan.live ++ [⟨a.identity, a.thumbprint, decimal (c.deadlineBase + duration)⟩] }

/-- The decision on a validated state, once its records are scanned. -/
def scannedDecision (a : Arguments) (c : Admission) (s : StoredState) (scan : Scan) : Decision :=
  if s.capacity < scan.recordCount then .quarantine
  else if c.now < s.untilTime then .reply .quarantine
  else
    match c.duration with
    | none => .reply .ready
    | some duration => consumeDecision a c s.header scan duration

/-- The decision on admitted arguments. -/
def decision (a : Arguments) (c : Admission) (keys : Keys) : Decision :=
  match readState c.deadlineBase keys with
  | none => .quarantine
  | some s =>
    if s.header.horizon ≠ a.horizon ∨ s.header.capacity ≠ a.capacity ∨ s.header.quota ≠ a.quota then
      .reply .configurationMismatch
    else
      match scanRecords a c s.records with
      | none => .quarantine
      | some scan => scannedDecision a c s scan

/-- The state of a new quarantine. -/
def quarantineState (a : Arguments) (c : Admission) : ReplayState where
  version := ascii "1"
  epoch := a.proposedEpoch
  quarantineUntil := decimal (c.deadlineBase + c.horizon)
  detectedAt := decimal c.deadlineBase
  lastTime := decimal c.deadlineBase
  horizon := a.horizon
  capacity := a.capacity
  quota := a.quota
  records := []

/-- How an execution ends. -/
structure Execution where
  keys : Keys
  reply : ScriptReply
  /-- Whether it has started a quarantine. -/
  started : Bool
  deriving DecidableEq, Repr

/-- `REDIS_REPLAY_SCRIPT`. -/
def execute (a : Arguments) (t : Time) (keys : Keys) : Execution :=
  match admission a t with
  | none => ⟨keys, .unavailable, false⟩
  | some c =>
    match decision a c keys with
    | .reply reply => ⟨keys, reply, false⟩
    | .quarantine =>
      match save (quarantineState a c) with
      | some saved => ⟨saved, .quarantine, true⟩
      | none => ⟨keys, .unavailable, false⟩
    | .insert state =>
      match save state with
      | some saved => ⟨saved, .accepted, false⟩
      | none => ⟨keys, .unavailable, false⟩

end AgentSig.Redis
