import AgentSig.Profiles.TimePolicy

/-!
# The recovery horizon

After a loss of replay history, no signature that was accepted before can be accepted any more once
the recovery horizon has passed. The earliest acceptance is one skew before the creation of a
signature, and the last is before its age or its lifetime has passed, plus one skew.

## Main definitions

* `recoveryHorizonSeconds`: the horizon of a time policy

## Main results

* `lt_add_horizon`: two acceptances of one signature are less than the horizon apart
* `accepts_at_horizon`: no shorter horizon would do
* `recoveryHorizonSeconds_spec`: **the horizon is the least sound one**
-/

namespace AgentSig.Profiles

open Commons Core StructuredFields

/-- The horizon of a resolved policy. -/
def TimePolicy.horizon (policy : TimePolicy) : ℕ :=
  min policy.maxAgeSeconds policy.maxLifetimeSeconds + 2 * policy.clockSkewSeconds

/-- `recoveryHorizonSeconds`. -/
def recoveryHorizonSeconds (overrides : TimePolicyOverrides) : Except ProfileError ℕ := do
  let policy ← resolveTimePolicy overrides
  require (policy.horizon ≤ maxSafeInteger) (.configuration .invalidTimePolicy)
  return policy.horizon

namespace TimePolicy

variable {policy : TimePolicy} {created expires : Number} {earlier later : ℤ}

/-- Two acceptances of one signature are less than the horizon apart. -/
theorem lt_add_horizon (h : policy.Accepts created expires earlier)
    (h' : policy.Accepts created expires later) : later < earlier + policy.horizon := by
  obtain ⟨start, stop, hstart, hstop, -, hlifetime, hfuture, -, -⟩ := h.window
  obtain ⟨start', stop', hstart', hstop', -, -, -, hexpiry, hage⟩ := h'.window
  obtain rfl := Option.some.inj (hstart.symm.trans hstart')
  obtain rfl := Option.some.inj (hstop.symm.trans hstop')
  have hmin := min_choice policy.maxAgeSeconds policy.maxLifetimeSeconds
  simp only [horizon]
  rcases hmin with hmin | hmin
  · rw [hmin]
    push_cast
    omega
  · rw [hmin]
    push_cast
    omega

theorem timestamp_integer {z : ℤ} (h0 : 0 ≤ z) (hz : z ≤ MAX_SF_INTEGER) :
    timestamp (.integer z) = some z := by
  have hsafe : z.natAbs ≤ maxSafeInteger := by
    simp only [MAX_SF_INTEGER] at hz
    simp only [maxSafeInteger]
    omega
  simp [timestamp, Number.safeInteger?, Number.toInt?, hsafe, h0, hz]

/-- A signature that is created as far in the future as the skew allows, and lasts as long as its age
and its lifetime allow, is accepted again one second before the horizon has passed. -/
theorem accepts_at_horizon (h0 : 0 ≤ earlier) (hmax : earlier + policy.horizon ≤ MAX_SF_INTEGER) :
    ∃ created expires, policy.Accepts created expires earlier ∧
      policy.Accepts created expires (earlier + policy.horizon - 1) := by
  obtain ⟨-, hlifetime, hage⟩ := policy.positive
  have hmin : 0 < min policy.maxAgeSeconds policy.maxLifetimeSeconds := lt_min hage hlifetime
  have hminAge := min_le_left policy.maxAgeSeconds policy.maxLifetimeSeconds
  have hminLifetime := min_le_right policy.maxAgeSeconds policy.maxLifetimeSeconds
  generalize hm : min policy.maxAgeSeconds policy.maxLifetimeSeconds = m at hmin hminAge hminLifetime
  have hhorizon : (policy.horizon : ℤ) = m + 2 * policy.clockSkewSeconds := by
    rw [horizon, hm]
    push_cast
    rfl
  have hsafe : ∀ z : ℤ, 0 ≤ z → z ≤ MAX_SF_INTEGER → isSecond z := fun z hz hz' =>
    isSecond_iff.mpr ⟨hz, hz'.trans (by decide)⟩
  have hstart := timestamp_integer (z := earlier + policy.clockSkewSeconds) (by omega) (by omega)
  have hstop := timestamp_integer (z := earlier + policy.clockSkewSeconds + m) (by omega) (by omega)
  refine ⟨_, _, ⟨hsafe _ h0 (by omega), _, _, hstart, hstop, ?_⟩,
    ⟨hsafe _ (by omega) (by omega), _, _, hstart, hstop, ?_⟩⟩
  · refine ⟨by omega, by omega, by omega, by omega, by omega⟩
  · refine ⟨by omega, by omega, by omega, by omega, by omega⟩

end TimePolicy

/-- The horizon of a policy that is accepted is a positive safe integer, or an error of the policy.
Whatever is accepted at two seconds is accepted less than the horizon apart, so a quarantine of the
horizon after a loss outlasts whatever was accepted before the loss. No shorter horizon is sound. -/
theorem recoveryHorizonSeconds_spec (overrides : TimePolicyOverrides) (policy : TimePolicy)
    (hpolicy : resolveTimePolicy overrides = .ok policy) :
    (∀ e, recoveryHorizonSeconds overrides = .error e → e = .configuration .invalidTimePolicy) ∧
      ∀ H, recoveryHorizonSeconds overrides = .ok H → (0 < H ∧ H ≤ maxSafeInteger) ∧
        (∀ created expires first later, policy.check created expires first = .ok () →
          policy.check created expires later = .ok () → later < first + H) ∧
        (∀ first : ℤ, 0 ≤ first → first + H ≤ MAX_SF_INTEGER → ∃ created expires,
          policy.check created expires first = .ok () ∧
            policy.check created expires (first + H - 1) = .ok ()) ∧
        ∀ created expires first loss later, ∀ quarantine : ℤ, H ≤ quarantine →
          policy.check created expires first = .ok () → first ≤ loss → loss + quarantine ≤ later →
            policy.check created expires later ≠ .ok () := by
  have hsound : ∀ created expires first later, policy.check created expires first = .ok () →
      policy.check created expires later = .ok () → later < first + policy.horizon :=
    fun _ _ _ _ h h' =>
      TimePolicy.lt_add_horizon (TimePolicy.check_eq_ok.mp h) (TimePolicy.check_eq_ok.mp h')
  simp only [recoveryHorizonSeconds, hpolicy, ok_bind]
  refine ⟨fun e he => ?_, fun H hH => ?_⟩
  · rcases bind_eq_error.mp he with he | ⟨_, -, he⟩
    · exact (require_eq_error.mp he).2.symm
    · simp [pure, Except.pure] at he
  · simp only [bind_eq_ok, require_eq_ok, exists_const, pure_eq_ok] at hH
    obtain ⟨hsafe, rfl⟩ := hH
    refine ⟨⟨?_, hsafe⟩, hsound, fun first h0 hmax => ?_, ?_⟩
    · obtain ⟨-, hlifetime, hage⟩ := policy.positive
      exact Nat.add_pos_left (lt_min hage hlifetime) _
    · obtain ⟨created, expires, h, h'⟩ := TimePolicy.accepts_at_horizon h0 hmax
      exact ⟨created, expires, TimePolicy.check_eq_ok.mpr h, TimePolicy.check_eq_ok.mpr h'⟩
    · intro created expires first loss later quarantine hlong hfirst hloss hlater hagain
      have := hsound created expires first later hfirst hagain
      omega

theorem recoveryHorizonSeconds_spec_default :
    recoveryHorizonSeconds ⟨none, none, none, none⟩ = .ok 360 ∧ ∃ created expires,
      DEFAULT_TIME_POLICY.check created expires 0 = .ok () ∧
        DEFAULT_TIME_POLICY.check created expires 359 = .ok () := by
  have hdefault : recoveryHorizonSeconds ⟨none, none, none, none⟩ = .ok 360 := by decide +kernel
  obtain ⟨-, htight, -⟩ := ((recoveryHorizonSeconds_spec ⟨none, none, none, none⟩
    DEFAULT_TIME_POLICY rfl).2 360 hdefault).2
  exact ⟨hdefault, htight 0 le_rfl (by decide)⟩

end AgentSig.Profiles
