import AgentSig.Redis.ConsumeInput

/-!
# The configuration of an adapter

The options of an adapter, and the arguments that it sends to the script. One configuration names one
namespace, so one triple of keys.

## Main definitions

* `RedisReplayStoreOptions`, `resolveRedisReplayConfiguration`: the options, and what they resolve to
* `hexText`: octets in hexadecimal digits
* `argumentsFor`: the arguments of an execution

## Main results

* `validEpoch_hexText`: the script accepts every proposed epoch
-/

namespace AgentSig.Redis

open Commons Core Profiles StructuredFields

/-- The properties of a client that are read. -/
structure RedisCommandClient where
  automaticRetries : Option Bool
  offlineQueue : Option Bool
  /-- Whether `sendCommand` is a function. -/
  sendCommand : Bool
  deriving DecidableEq, Repr

/-- `RedisReplayStoreOptions`, untrusted: an option that is undefined is none. -/
structure RedisReplayStoreOptions where
  /-- Whether there is an unknown property, or one that is no data property. -/
  malformed : Bool
  /-- None if the client is no object, or if reading it throws. -/
  client : Option RedisCommandClient
  «namespace» : PropertyValue
  recoveryHorizonSeconds : PropertyValue
  capacity : Option PropertyValue
  maxPerKey : Option PropertyValue
  acknowledgeEvictionPolicy : Option PropertyValue

/-- `RedisReplayConfiguration`, but for the client. -/
structure RedisReplayConfiguration where
  keyPrefix : Text
  recoveryMilliseconds : ℕ
  capacity : ℕ
  maxPerKey : ℕ
  acknowledgeEvictionPolicy : Bool
  recovery : 0 < recoveryMilliseconds ∧ recoveryMilliseconds ≤ maxSafeInteger
  bounded : capacity ≤ 10000 ∧ maxPerKey ≤ 10000

/-- `invalid`. -/
def invalidOptions : ProfileError := .configuration .invalidReplayPolicy

/-- The octets in lowercase hexadecimal digits. -/
def hexText (bytes : List UInt8) : Text :=
  bytes.flatMap fun b => [Json.hexDigit (b.toNat / 16), Json.hexDigit (b.toNat % 16)]

/-- A count of the options: a safe integer that is not negative. -/
def resolveCount (defaultValue : ℕ) : Option PropertyValue → Except ProfileError ℕ
  | none => return defaultValue
  | some value =>
    match value.integer? with
    | some z => do
      require (0 ≤ z) invalidOptions
      return z.toNat
    | none => throw invalidOptions

/-- The namespace, if it is nonempty, bounded and printable. -/
def resolveNamespace (value : PropertyValue) : Except ProfileError Text :=
  match value.text? with
  | some text => do
    require (text ≠ [] ∧ text.length ≤ 128 ∧ text.all fun c => 0x21 ≤ c && c ≤ 0x7e) invalidOptions
    return text
  | none => throw invalidOptions

/-- The client, if it neither retries nor queues. -/
def resolveClient (client : Option RedisCommandClient) : Except ProfileError Unit :=
  match client with
  | some client => require (client.automaticRetries = some false ∧ client.offlineQueue = some false ∧
      client.sendCommand) invalidOptions
  | none => throw invalidOptions

/-- `resolveRedisReplayConfiguration`. -/
def resolveRedisReplayConfiguration (options : RedisReplayStoreOptions) :
    Except ProfileError RedisReplayConfiguration := do
  require (options.malformed = false) invalidOptions
  let horizon ← match options.recoveryHorizonSeconds.integer? with
    | some z => pure z
    | none => throw invalidOptions
  require (0 < horizon) invalidOptions
  require (horizon * 1000 ≤ maxSafeInteger) invalidOptions
  let text ← resolveNamespace options.namespace
  let capacity ← resolveCount 10000 options.capacity
  let maxPerKey ← resolveCount 1000 options.maxPerKey
  require (∀ value ∈ options.acknowledgeEvictionPolicy, value.text? = some (ascii "noeviction"))
    invalidOptions
  resolveClient options.client
  if h : (0 < horizon.toNat * 1000 ∧ horizon.toNat * 1000 ≤ maxSafeInteger) ∧
      (capacity ≤ 10000 ∧ maxPerKey ≤ 10000) then
    return {
      keyPrefix := ascii "agentsig:replay:\x7b" ++ hexText (asciiOctets text) ++ ascii "\x7d:"
      recoveryMilliseconds := horizon.toNat * 1000
      capacity
      maxPerKey
      acknowledgeEvictionPolicy := options.acknowledgeEvictionPolicy.isSome
      recovery := h.1
      bounded := h.2 }
  else throw invalidOptions

/-- The arguments of an execution: `argumentsFor`, but for the command, the script and the keys. The
octets are those of the proposed epoch. -/
def argumentsFor (configuration : RedisReplayConfiguration) (mode : String)
    (record : Option RedisConsumeRecord) (bytes : List UInt8) : Arguments where
  mode := ascii mode
  horizon := decimal configuration.recoveryMilliseconds
  capacity := decimal configuration.capacity
  quota := decimal configuration.maxPerKey
  proposedEpoch := hexText bytes
  identity := (record.map (·.identity)).getD []
  thumbprint := (record.map (·.thumbprint)).getD []
  duration := decimal ((record.map (·.durationMilliseconds)).getD 0)

theorem lowerHex_hexDigit : ∀ n : Fin 16, Rfc9651.lowerHex (Json.hexDigit n) := by decide

/-- The script accepts every proposed epoch. -/
theorem validEpoch_hexText {bytes : List UInt8} (h : bytes.length = 16) :
    validEpoch (hexText bytes) := by
  have hlength : ∀ bs : List UInt8, (hexText bs).length = 2 * bs.length := by
    intro bs
    simp [hexText, List.length_flatMap, Nat.mul_comm]
  have hdigits : (hexText bytes).all Rfc9651.lowerHex := by
    refine List.all_eq_true.mpr fun c hc => ?_
    obtain ⟨b, -, hc⟩ := List.mem_flatMap.mp hc
    have hb := b.toNat_lt
    simp only [List.mem_cons, List.not_mem_nil, or_false] at hc
    rcases hc with rfl | rfl
    · exact lowerHex_hexDigit ⟨b.toNat / 16, by omega⟩
    · exact lowerHex_hexDigit ⟨b.toNat % 16, by omega⟩
  simp only [validEpoch, decide_eq_true_eq]
  exact ⟨by rw [hlength, h], hdigits⟩

/-- Options of a small adapter. -/
def exampleOptions : RedisReplayStoreOptions where
  malformed := false
  client := some ⟨some false, some false, true⟩
  «namespace» := .text (ascii "n")
  recoveryHorizonSeconds := .number (.integer 1)
  capacity := some (.number (.integer 2))
  maxPerKey := some (.number (.integer 1))
  acknowledgeEvictionPolicy := none

/-- What the options resolve to. -/
def exampleConfiguration : RedisReplayConfiguration :=
  ⟨ascii "agentsig:replay:\x7b6e\x7d:", 1000, 2, 1, false, by decide, by decide⟩

example : resolveRedisReplayConfiguration exampleOptions = .ok exampleConfiguration := rfl

end AgentSig.Redis
