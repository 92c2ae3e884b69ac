import AgentSig.Commons.Json
import AgentSig.Profiles.TimePolicy

/-!
# Replay stores

A replay store atomically checks and inserts the identity of a request. The store that a context
owns keeps its records in memory and expires them when it is consumed. A store of the application
may do anything.

## Main definitions

* `ReplayConsumeInput`, `UntrustedInput`: what a store is asked to consume
* `ReplayStore`: a store, with the environment's choice at each call
* `MemoryReplayStore`: the state of the owned store, and its `expire`, `consume` and `clear`
* `ownedMemoryStore`, `anyStore`: the owned store, and a store that answers anything

## Main results

* `MemoryReplayStore.consume_spec`: acceptance means that no record was live, and records one
* `MemoryReplayStore.Holds`: a record is held, or its deadline has passed
-/

namespace AgentSig.Profiles

open Commons Core StructuredFields

/-- `ReplayConsumeInput`. -/
structure ReplayConsumeInput where
  scope : Text
  keyThumbprint : Text
  nonce : Text
  nowEpochSeconds : ℤ
  retainUntilEpochSeconds : ℤ
  deriving DecidableEq, Repr

/-- What replay protection identifies: a scope, a thumbprint and a nonce. -/
abbrev ReplayIdentity := Text × Text × Text

/-- `JSON.stringify` of a tuple. -/
def identityText (identity : ReplayIdentity) : Text :=
  Json.stringify [identity.1, identity.2.1, identity.2.2]

/-- A tuple is determined by its text. -/
theorem identityText_injective : Function.Injective identityText := by
  rintro ⟨scope, thumbprint, nonce⟩ ⟨scope', thumbprint', nonce'⟩ h
  simpa using Json.stringify_injective h

/-- The identity of an input. -/
def ReplayConsumeInput.identity (input : ReplayConsumeInput) : ReplayIdentity :=
  (input.scope, input.keyThumbprint, input.nonce)

/-- A property as `data` reads it: a string, a number, or anything else. -/
inductive PropertyValue
  | text (value : Text)
  | number (value : Number)
  | other

/-- The string of a property. -/
def PropertyValue.text? : PropertyValue → Option Text
  | .text value => some value
  | _ => none

/-- The safe integer of a property. -/
def PropertyValue.integer? : PropertyValue → Option ℤ
  | .number value => value.safeInteger?
  | _ => none

/-- The own data properties of an object that are read. -/
structure ConsumeProperties where
  scope : PropertyValue
  keyThumbprint : PropertyValue
  nonce : PropertyValue
  nowEpochSeconds : PropertyValue
  retainUntilEpochSeconds : PropertyValue

/-- What a store may be called with: an object, or anything else. -/
abbrev UntrustedInput := Option ConsumeProperties

/-- The input, if its properties have the types of one. -/
def UntrustedInput.read (input : UntrustedInput) : Option ReplayConsumeInput := do
  let properties ← input
  return {
    scope := ← properties.scope.text?
    keyThumbprint := ← properties.keyThumbprint.text?
    nonce := ← properties.nonce.text?
    nowEpochSeconds := ← properties.nowEpochSeconds.integer?
    retainUntilEpochSeconds := ← properties.retainUntilEpochSeconds.integer? }

/-- How a call of `consume` ends: with an outcome, with anything else (a rejected promise
included), or by throwing. -/
inductive StoreAnswer
  | outcome (outcome : StoreOutcome)
  | other
  | threw
  deriving DecidableEq, Repr

/-- `MemoryCleanupReport`; a count that is null is none. -/
structure MemoryCleanupReport where
  clearedRecords : Option ℕ
  clearedQuotaCounters : Option ℕ
  deriving DecidableEq, Repr

/-- How a cleanup ends: with a report, with an invalid one, or by throwing, with the progress that
an accounted failure reports. -/
inductive Cleanup
  | report (report : MemoryCleanupReport)
  | invalid
  | threw (progress : Option MemoryCleanupReport)
  deriving DecidableEq, Repr

/-- `RetentionClock`. -/
inductive RetentionClock
  | processClock
  | independent
  deriving DecidableEq, Repr

/-- A store with states `σ`; at each call the environment chooses an `ω`. -/
structure ReplayStore (σ ω : Type) where
  retentionClock : Option RetentionClock
  /-- The reset port, if the context owns the store. -/
  clearForClockReset : Option (σ → ω → σ × Cleanup)
  consume : σ → ReplayConsumeInput → ω → σ × StoreAnswer
  /-- Only a store on the process clock has a reset port. -/
  owned : clearForClockReset.isSome → retentionClock = some .processClock

/-! ## The owned memory store -/

/-- `ReplayPolicy`, resolved. -/
structure ReplayPolicy where
  capacity : ℕ
  maxPerKey : ℕ
  deriving DecidableEq, Repr

/-- The part of `ProfileLimits` that the store reads. -/
structure ReplayLimits where
  maxScopeBytes : ℕ
  maxNonceBytes : ℕ
  deriving DecidableEq, Repr

/-- `Entry`. -/
structure ReplayEntry where
  keyThumbprint : Text
  retainUntil : ℤ
  deriving DecidableEq, Repr

/-- The state of `createOwnedMemoryReplayStore`. An infinite expiry is none. -/
structure MemoryReplayStore where
  entries : List (Text × ReplayEntry)
  perKey : List (Text × ℕ)
  nextExpiry : Option ℤ
  lastNow : ℤ
  deriving DecidableEq, Repr

namespace MemoryReplayStore

/-- The empty store. -/
def empty : MemoryReplayStore := ⟨[], [], none, 0⟩

/-- `Math.min` with an expiry that may be infinite. -/
def earlier (nextExpiry : Option ℤ) (deadline : ℤ) : Option ℤ :=
  match nextExpiry with
  | none => some deadline
  | some expiry => some (min expiry deadline)

/-- The quota counters after one record of a key is deleted. -/
def release (perKey : List (Text × ℕ)) (keyThumbprint : Text) : List (Text × ℕ) :=
  let count := (OrderedMap.lookup perKey keyThumbprint).getD 0 - 1
  if count = 0 then perKey.filter (·.1 ≠ keyThumbprint)
  else OrderedMap.set perKey keyThumbprint count

/-- The loop of `expire` over the entries. -/
def expireLoop (now : ℤ) : List (Text × ReplayEntry) → List (Text × ℕ) → Option ℤ →
    List (Text × ReplayEntry) × List (Text × ℕ) × Option ℤ
  | [], perKey, nextExpiry => ([], perKey, nextExpiry)
  | (identity, entry) :: rest, perKey, nextExpiry =>
    if entry.retainUntil ≤ now then expireLoop now rest (release perKey entry.keyThumbprint) nextExpiry
    else
      let (kept, perKey, nextExpiry) := expireLoop now rest perKey (earlier nextExpiry entry.retainUntil)
      ((identity, entry) :: kept, perKey, nextExpiry)

/-- `expire`. -/
def expire (s : MemoryReplayStore) (now : ℤ) : MemoryReplayStore :=
  if ∀ expiry ∈ s.nextExpiry, now < expiry then s
  else
    let (entries, perKey, nextExpiry) := expireLoop now s.entries s.perKey none
    { s with entries, perKey, nextExpiry }

/-- A thumbprint that the store accepts. -/
def validThumbprint (thumbprint : Text) : Bool :=
  thumbprint.length = 43 ∧ thumbprint.all base64UrlChar ∧
    ∀ bytes ∈ Base64.urlDecode thumbprint,
      bytes.length = 32 ∧ Base64.urlEncode bytes = thumbprint

/-- An input that is well formed, whatever the state of the store. -/
def validInput (limits : ReplayLimits) (input : ReplayConsumeInput) : Bool :=
  input.scope ≠ [] ∧ input.scope.length ≤ limits.maxScopeBytes ∧ isAscii input.scope ∧
    validThumbprint input.keyThumbprint ∧ isValidNonce input.nonce limits.maxNonceBytes ∧
    isSecond input.nowEpochSeconds ∧ isSecond input.retainUntilEpochSeconds ∧
    input.nowEpochSeconds < input.retainUntilEpochSeconds

/-- An input that the store validates. -/
def valid (limits : ReplayLimits) (s : MemoryReplayStore) (input : ReplayConsumeInput) : Bool :=
  validInput limits input ∧ s.lastNow ≤ input.nowEpochSeconds

/-- The decision of `consume` after expiry. -/
def insert (policy : ReplayPolicy) (s : MemoryReplayStore) (input : ReplayConsumeInput) :
    MemoryReplayStore × StoreOutcome :=
  let identity := identityText input.identity
  if (OrderedMap.lookup s.entries identity).isSome then (s, .replayed)
  else
    let count := (OrderedMap.lookup s.perKey input.keyThumbprint).getD 0
    if policy.maxPerKey ≤ count then (s, .perKeyQuotaExceeded)
    else if policy.capacity ≤ s.entries.length then (s, .unavailable)
    else ({ s with
      entries := OrderedMap.set s.entries identity
        ⟨input.keyThumbprint, input.retainUntilEpochSeconds⟩
      perKey := OrderedMap.set s.perKey input.keyThumbprint (count + 1)
      nextExpiry := earlier s.nextExpiry input.retainUntilEpochSeconds }, .accepted)

/-- `consume`. -/
def consume (policy : ReplayPolicy) (limits : ReplayLimits) (s : MemoryReplayStore)
    (input : ReplayConsumeInput) : MemoryReplayStore × StoreOutcome :=
  if s.valid limits input then
    insert policy ({ s with lastNow := input.nowEpochSeconds }.expire input.nowEpochSeconds) input
  else (s, .unavailable)

/-- `consume`, of anything. -/
def consumeUntrusted (policy : ReplayPolicy) (limits : ReplayLimits) (s : MemoryReplayStore)
    (input : UntrustedInput) : MemoryReplayStore × StoreOutcome :=
  match input.read with
  | some input => s.consume policy limits input
  | none => (s, .unavailable)

/-- `clearForClockReset`. -/
def clear (s : MemoryReplayStore) : MemoryReplayStore × MemoryCleanupReport :=
  (empty, ⟨some s.entries.length, some s.perKey.length⟩)

end MemoryReplayStore

/-- `createOwnedMemoryReplayStore`. -/
def ownedMemoryStore (policy : ReplayPolicy) (limits : ReplayLimits) :
    ReplayStore MemoryReplayStore Unit where
  retentionClock := some .processClock
  clearForClockReset := some fun s _ => (s.clear.1, .report s.clear.2)
  consume s input _ := ((s.consume policy limits input).1, .outcome (s.consume policy limits input).2)
  owned _ := rfl

/-- A store that answers anything. -/
def anyStore (retentionClock : Option RetentionClock) : ReplayStore Unit StoreAnswer where
  retentionClock
  clearForClockReset := none
  consume _ _ answer := ((), answer)
  owned h := by simp at h

/-! ## Records -/

namespace MemoryReplayStore

variable {policy : ReplayPolicy} {limits : ReplayLimits} {s s' : MemoryReplayStore}
  {input : ReplayConsumeInput} {identity : ReplayIdentity} {deadline now : ℤ}

/-- The record of an identity. -/
def record (s : MemoryReplayStore) (identity : ReplayIdentity) : Option ReplayEntry :=
  OrderedMap.lookup s.entries (identityText identity)

/-- A record that was accepted with a deadline is held, or its deadline has passed. -/
def Holds (s : MemoryReplayStore) (identity : ReplayIdentity) (deadline : ℤ) : Prop :=
  (∃ entry, s.record identity = some entry ∧ entry.retainUntil = deadline) ∨ deadline ≤ s.lastNow

/-- The expiry loop keeps a record that is live. -/
theorem lookup_expireLoop {entries : List (Text × ReplayEntry)} {perKey : List (Text × ℕ)}
    {nextExpiry : Option ℤ} {entry : ReplayEntry} {key : Text}
    (h : OrderedMap.lookup entries key = some entry) (hlive : now < entry.retainUntil) :
    OrderedMap.lookup (expireLoop now entries perKey nextExpiry).1 key = some entry := by
  induction entries generalizing perKey nextExpiry with
  | nil => simp [OrderedMap.lookup] at h
  | cons e rest ih =>
    obtain ⟨identity', entry'⟩ := e
    rw [OrderedMap.lookup_cons] at h
    rw [expireLoop]
    split
    · rename_i hexpired
      split at h
      · obtain rfl := Option.some.inj h
        exact absurd hexpired (not_le.mpr hlive)
      · exact ih h
    · simp only [OrderedMap.lookup_cons]
      split at h
      · rename_i heq
        rw [if_pos heq]
        exact h
      · rename_i hne
        rw [if_neg hne]
        exact ih h

@[simp] theorem expire_lastNow : (s.expire now).lastNow = s.lastNow := by
  unfold expire
  split <;> rfl

/-- Expiry keeps a record that is live. -/
theorem record_expire {entry : ReplayEntry} (h : s.record identity = some entry)
    (hlive : now < entry.retainUntil) : (s.expire now).record identity = some entry := by
  unfold expire
  split
  · exact h
  · exact lookup_expireLoop h hlive

/-- A record that is held is held after expiry at the store's last second. -/
theorem Holds.expire (h : s.Holds identity deadline) (hnow : s.lastNow ≤ now) :
    ({ s with lastNow := now }.expire now).Holds identity deadline := by
  by_cases hdeadline : deadline ≤ now
  · exact .inr (by rw [expire_lastNow]; exact hdeadline)
  · rcases h with ⟨entry, hentry, rfl⟩ | hpast
    · exact .inl ⟨entry, record_expire (s := { s with lastNow := now }) hentry (not_le.mp hdeadline),
        rfl⟩
    · omega

/-- What the decision of `consume` does. -/
theorem insert_spec (policy : ReplayPolicy) (s : MemoryReplayStore) (input : ReplayConsumeInput) :
    (s.insert policy input).1.lastNow = s.lastNow ∧
      (∀ identity deadline, s.Holds identity deadline →
        (s.insert policy input).1.Holds identity deadline) ∧
      ((s.insert policy input).2 = .accepted →
        s.record input.identity = none ∧
        (s.insert policy input).1.Holds input.identity input.retainUntilEpochSeconds) := by
  unfold insert
  simp only
  split
  · exact ⟨rfl, fun _ _ h => h, by simp⟩
  · rename_i hnone
    split
    · exact ⟨rfl, fun _ _ h => h, by simp⟩
    · split
      · exact ⟨rfl, fun _ _ h => h, by simp⟩
      · have hrecord : s.record input.identity = none := by simpa [record] using hnone
        refine ⟨rfl, ?_, fun _ => ⟨hrecord, .inl
          ⟨⟨input.keyThumbprint, input.retainUntilEpochSeconds⟩, ?_, rfl⟩⟩⟩
        · rintro identity deadline (⟨entry, hentry, hdeadline⟩ | hpast)
          · refine .inl ⟨entry, ?_, hdeadline⟩
            have hne : identityText input.identity ≠ identityText identity := by
              intro heq
              rw [record, ← heq] at hentry
              rw [record, hentry] at hrecord
              simp at hrecord
            rw [record, OrderedMap.lookup_set, if_neg hne]
            exact hentry
          · exact .inr hpast
        · rw [record, OrderedMap.lookup_set, if_pos rfl]

/-- Consuming keeps what the store holds, and acceptance means that nothing live was held. -/
theorem consume_spec (policy : ReplayPolicy) (limits : ReplayLimits) (s : MemoryReplayStore)
    (input : ReplayConsumeInput) :
    (∀ identity deadline, s.Holds identity deadline →
        (s.consume policy limits input).1.Holds identity deadline) ∧
      ((s.consume policy limits input).2 = .accepted →
        (∀ deadline, s.Holds input.identity deadline → deadline ≤ input.nowEpochSeconds) ∧
        (s.consume policy limits input).1.Holds input.identity input.retainUntilEpochSeconds) ∧
      ((s.consume policy limits input).1.lastNow = s.lastNow ∨
        (s.consume policy limits input).1.lastNow = input.nowEpochSeconds) := by
  unfold consume
  split
  · rename_i hvalid
    have hnow : s.lastNow ≤ input.nowEpochSeconds := by
      simp only [valid, Bool.decide_and, Bool.and_eq_true, decide_eq_true_eq] at hvalid
      exact hvalid.2
    obtain ⟨hlast, hholds, haccepted⟩ := insert_spec policy
      ({ s with lastNow := input.nowEpochSeconds }.expire input.nowEpochSeconds) input
    refine ⟨fun identity deadline h => hholds _ _ (h.expire hnow), fun h => ?_, .inr ?_⟩
    · obtain ⟨hnone, hheld⟩ := haccepted h
      refine ⟨fun deadline hdeadline => ?_, hheld⟩
      rcases hdeadline.expire hnow with ⟨entry, hentry, -⟩ | hpast
      · rw [hnone] at hentry
        simp at hentry
      · rwa [expire_lastNow] at hpast
    · rw [hlast, expire_lastNow]
  · exact ⟨fun _ _ h => h, by simp, .inl rfl⟩

end MemoryReplayStore

end AgentSig.Profiles
