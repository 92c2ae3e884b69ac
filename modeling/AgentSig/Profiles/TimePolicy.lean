import AgentSig.Profiles.Metadata

/-!
# Time policies

The window in which a signature is acceptable, and the second until which a replay record of it
is retained. The end boundaries of the window are exclusive, so a record that is retained until
such a boundary outlives the window.

## Main definitions

* `TimePolicy`, `resolveTimePolicy`: a resolved policy
* `TimePolicy.check`: whether a signature is acceptable at a second
* `TimePolicy.retainUntil`: the retention deadline of a signature
* `TimePolicy.Accepts`: the window, as inequalities

## Main results

* `check_eq_ok`: `check` accepts exactly the window
* `lt_retainUntil`: the window ends before the deadline
-/

namespace AgentSig.Profiles

open Commons Core StructuredFields

/-- A resolved `TimePolicy`. -/
structure TimePolicy where
  signingLifetimeSeconds : ℕ
  maxLifetimeSeconds : ℕ
  maxAgeSeconds : ℕ
  clockSkewSeconds : ℕ
  positive : 0 < signingLifetimeSeconds ∧ 0 < maxLifetimeSeconds ∧ 0 < maxAgeSeconds
  signing_le : signingLifetimeSeconds ≤ maxLifetimeSeconds ∧ signingLifetimeSeconds ≤ maxAgeSeconds
  safe : maxAgeSeconds + clockSkewSeconds ≤ maxSafeInteger ∧
    maxLifetimeSeconds + clockSkewSeconds ≤ maxSafeInteger

/-- `Partial<TimePolicy>`. -/
structure TimePolicyOverrides where
  signingLifetimeSeconds : Option Number
  maxLifetimeSeconds : Option Number
  maxAgeSeconds : Option Number
  clockSkewSeconds : Option Number

/-- One option of `resolveNumericOptions`. -/
def resolveNumericOption (code : ConfigurationCode) (defaultValue : ℕ) (zeroAllowed : Bool) :
    Option Number → Except ProfileError ℕ
  | none => return defaultValue
  | some value =>
    match value.safeInteger? with
    | some z => do
      require (0 ≤ z ∧ (z = 0 → zeroAllowed)) (.configuration code)
      return z.toNat
    | none => throw (.configuration code)

/-- `resolveTimePolicy`. -/
def resolveTimePolicy (overrides : TimePolicyOverrides) : Except ProfileError TimePolicy := do
  let code := ConfigurationCode.invalidTimePolicy
  let signing ← resolveNumericOption code 60 false overrides.signingLifetimeSeconds
  let lifetime ← resolveNumericOption code 300 false overrides.maxLifetimeSeconds
  let age ← resolveNumericOption code 300 false overrides.maxAgeSeconds
  let skew ← resolveNumericOption code 30 true overrides.clockSkewSeconds
  if h : (0 < signing ∧ 0 < lifetime ∧ 0 < age) ∧ (signing ≤ lifetime ∧ signing ≤ age) ∧
      age + skew ≤ maxSafeInteger ∧ lifetime + skew ≤ maxSafeInteger then
    return ⟨signing, lifetime, age, skew, h.1, h.2.1, h.2.2⟩
  else throw (.configuration code)

/-- `DEFAULT_TIME_POLICY`. -/
def DEFAULT_TIME_POLICY : TimePolicy := ⟨60, 300, 300, 30, by decide, by decide, by decide⟩

/-- `MAX_SF_INTEGER`. -/
def MAX_SF_INTEGER : ℤ := 999999999999999

/-- `timestamp`, returning the integer. -/
def timestamp (value : Number) : Option ℤ :=
  value.safeInteger?.filter fun z => 0 ≤ z ∧ z ≤ MAX_SF_INTEGER

/-- A second that a healthy clock may show. -/
def isSecond (now : ℤ) : Bool := 0 ≤ now ∧ now ≤ maxSafeInteger

theorem isSecond_iff {now : ℤ} : isSecond now ↔ 0 ≤ now ∧ now ≤ maxSafeInteger := by
  simp [isSecond]

namespace TimePolicy

variable (policy : TimePolicy)

/-- The comparisons of `check`, of two timestamps. -/
def checkWindow (start stop now : ℤ) : Except ProfileError Unit := do
  require (start < stop) (invalid .invalidTimeRange)
  require (stop - start ≤ policy.maxLifetimeSeconds) (invalid .lifetimeExceeded)
  require (start ≤ now + policy.clockSkewSeconds) (invalid .createdInFuture)
  require (now < stop + policy.clockSkewSeconds) (invalid .signatureExpired)
  require (now < start + policy.maxAgeSeconds + policy.clockSkewSeconds) (invalid .signatureTooOld)

/-- `check`. -/
def check (created expires : Number) (now : ℤ) : Except ProfileError Unit := do
  require (isSecond now) (unverified .clockUnavailable)
  match timestamp created, timestamp expires with
  | some start, some stop => policy.checkWindow start stop now
  | _, _ => throw (invalid .invalidTimeRange)

/-- `retainUntil`. -/
def retainUntil (created : Number) (now : ℤ) : Except ProfileError ℤ := do
  require (isSecond now) (unverified .clockUnavailable)
  match timestamp created with
  | some start => do
    let deadline := max start now + policy.maxAgeSeconds + policy.clockSkewSeconds
    require (deadline ≤ maxSafeInteger) (unverified .resourceLimit)
    return deadline
  | none => throw (invalid .invalidTimeRange)

/-- The window of a signature. -/
structure Accepts (created expires : Number) (now : ℤ) : Prop where
  second : isSecond now
  window : ∃ start stop, timestamp created = some start ∧ timestamp expires = some stop ∧
    start < stop ∧ stop - start ≤ policy.maxLifetimeSeconds ∧
    start ≤ now + policy.clockSkewSeconds ∧ now < stop + policy.clockSkewSeconds ∧
    now < start + policy.maxAgeSeconds + policy.clockSkewSeconds

variable {policy} {created expires : Number} {now deadline : ℤ} {u : Unit}

/-- `check` accepts exactly the window. -/
theorem check_eq_ok : policy.check created expires now = .ok u ↔ policy.Accepts created expires now := by
  simp only [check, bind_eq_ok, require_eq_ok, exists_const]
  constructor
  · rintro ⟨hsecond, h⟩
    split at h
    · rename_i start stop hstart hstop
      simp only [checkWindow, bind_eq_ok, require_eq_ok, exists_const] at h
      exact ⟨hsecond, start, stop, hstart, hstop, h⟩
    · simp at h
  · rintro ⟨hsecond, start, stop, hstart, hstop, h⟩
    refine ⟨hsecond, ?_⟩
    rw [hstart, hstop]
    simpa only [checkWindow, bind_eq_ok, require_eq_ok, exists_const] using h

/-- The deadline is the window's length after the later of two seconds. -/
theorem retainUntil_eq_ok (h : policy.retainUntil created now = .ok deadline) :
    ∃ start, timestamp created = some start ∧
      deadline = max start now + policy.maxAgeSeconds + policy.clockSkewSeconds := by
  simp only [retainUntil, bind_eq_ok] at h
  obtain ⟨_, -, h⟩ := h
  split at h
  · rename_i start hstart
    simp only [bind_eq_ok, pure_eq_ok] at h
    obtain ⟨_, -, rfl⟩ := h
    exact ⟨start, hstart, rfl⟩
  · simp at h

/-- A deadline is a safe integer, after the second at which it is computed. -/
theorem retainUntil_bounds (h : policy.retainUntil created now = .ok deadline) :
    now < deadline ∧ deadline ≤ maxSafeInteger := by
  have hage := policy.positive.2.2
  simp only [retainUntil, bind_eq_ok] at h
  obtain ⟨_, -, h⟩ := h
  split at h
  · rename_i start hstart
    simp only [bind_eq_ok, require_eq_ok, exists_const, pure_eq_ok] at h
    obtain ⟨hsafe, rfl⟩ := h
    have := le_max_right start now
    exact ⟨by omega, hsafe⟩
  · simp at h

/-- The window ends before the deadline, whenever the deadline is computed. -/
theorem lt_retainUntil {later : ℤ} (h : policy.retainUntil created now = .ok deadline)
    (hlater : policy.Accepts created expires later) : later < deadline := by
  obtain ⟨start, hstart, rfl⟩ := retainUntil_eq_ok h
  obtain ⟨start', _, hstart', -, -, -, -, -, hage⟩ := hlater.window
  obtain rfl : start = start' := Option.some.inj (hstart.symm.trans hstart')
  have := le_max_left start now
  omega

end TimePolicy

end AgentSig.Profiles
