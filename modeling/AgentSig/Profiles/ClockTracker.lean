import AgentSig.Profiles.TimePolicy
import Mathlib.Algebra.Order.Floor.Ring
import Mathlib.Data.Rat.Floor

/-!
# The clock tracker

Effective time is the reference wall time plus the elapsed monotonic time. Wall samples decide
whether an observation is healthy, and never what time it shows, so the effective time of
healthy observations does not go back. The arithmetic on samples is rounded; all that is used of
the rounding is that it is monotone and keeps safe integers.

## Main definitions

* `Rounding`: the rounding of the arithmetic
* `ClockTracker`, `createClockTracker`: a reference and the monotonic sample last seen
* `ClockTracker.observe`: the observation of two samples

## Main results

* `observe_healthy`: what a healthy observation shows
* `second_le_observe`: healthy observations never go back
-/

namespace AgentSig.Profiles

open Commons Core StructuredFields

/-- How the result of an arithmetic operation is rounded to a number. -/
structure Rounding where
  round : ℚ → ℚ
  monotone : Monotone round
  /-- A safe integer is a number. -/
  integer : ∀ n : ℕ, n ≤ maxSafeInteger → round n = n

/-- No rounding. -/
def Rounding.exact : Rounding := ⟨id, monotone_id, fun _ _ => rfl⟩

/-- What a clock provider returned: a finite number, or none for anything else, a throw included. -/
abbrev Sample := Option ℚ

/-- A wall sample and a monotonic sample. -/
structure ClockSample where
  wallMs : Sample
  monotonicMs : Sample
  deriving DecidableEq, Repr

/-- `ClockPolicy`, resolved. -/
structure ClockPolicy where
  maxClockDriftSeconds : ℕ
  safe : maxClockDriftSeconds * 1000 ≤ maxSafeInteger

/-- `boundedNumber`, returning the number. -/
def boundedNumber (value : Sample) : Sample := value.filter fun x => |x| ≤ maxSafeInteger

/-- `wallSample`, returning the number. -/
def wallSample (value : Sample) : Sample := (boundedNumber value).filter fun x => 0 ≤ x

/-- `ClockHealthReason`. -/
inductive ClockHealthReason
  | invalidSample
  | monotonicRegression
  | unsafeArithmetic
  | wallDrift
  deriving DecidableEq, Repr

/-- `ClockObservation`. -/
inductive ClockObservation
  | healthy (effectiveMilliseconds : ℚ) (epochSeconds : ℤ)
  | unhealthy (reason : ClockHealthReason)
  deriving DecidableEq, Repr

/-- `healthy` of an observation. -/
def ClockObservation.isHealthy : ClockObservation → Bool
  | .healthy _ _ => true
  | .unhealthy _ => false

/-- The state of `createClockTracker`. -/
structure ClockTracker where
  wallMs : ℚ
  monotonicMs : ℚ
  maximumDriftMs : ℚ
  previousMonotonicMs : ℚ
  regressed : Bool
  /-- The last sample is not before the reference. -/
  reference_le : monotonicMs ≤ previousMonotonicMs

/-- `createClockTracker`. -/
def createClockTracker (policy : ClockPolicy) (reference : ClockSample) :
    Except ProfileError ClockTracker :=
  match wallSample reference.wallMs, boundedNumber reference.monotonicMs with
  | some wall, some monotonic =>
    return ⟨wall, monotonic, policy.maxClockDriftSeconds * 1000, monotonic, false, le_rfl⟩
  | _, _ => throw (.configuration .invalidClockConfiguration)

namespace ClockTracker

/-- The tracker after a monotonic sample. -/
def track (t : ClockTracker) (monotonic : ℚ) : ClockTracker :=
  if h : monotonic < t.previousMonotonicMs then { t with regressed := true }
  else { t with
    previousMonotonicMs := monotonic
    reference_le := t.reference_le.trans (not_lt.mp h) }

/-- The effective time of a monotonic sample. -/
def effective (A : Rounding) (t : ClockTracker) (monotonic : ℚ) : ℚ :=
  A.round (t.wallMs + A.round (monotonic - t.monotonicMs))

/-- The observation of two samples, when the monotonic one is tracked. -/
def observation (A : Rounding) (t : ClockTracker) (wall monotonic : Sample) : ClockObservation :=
  if t.regressed then .unhealthy .monotonicRegression
  else match wallSample wall, monotonic with
  | some wall, some monotonic =>
    let elapsed := A.round (monotonic - t.monotonicMs)
    let effective := A.round (t.wallMs + elapsed)
    if boundedNumber (some elapsed) = none ∨ elapsed < 0 ∨ wallSample (some effective) = none then
      .unhealthy .unsafeArithmetic
    else if |A.round (wall - effective)| > t.maximumDriftMs then .unhealthy .wallDrift
    else .healthy effective ⌊A.round (effective / 1000)⌋
  | _, _ => .unhealthy .invalidSample

/-- The tracker after a sample that may be invalid. -/
def trackSample (t : ClockTracker) : Sample → ClockTracker
  | some monotonic => t.track monotonic
  | none => t

/-- `observe`. -/
def observe (A : Rounding) (t : ClockTracker) (sample : ClockSample) :
    ClockTracker × ClockObservation :=
  let monotonic := boundedNumber sample.monotonicMs
  (t.trackSample monotonic, (t.trackSample monotonic).observation A sample.wallMs monotonic)

/-- `reference`: the wall time and the monotonic time of the reference. -/
def reference (t : ClockTracker) : ℚ × ℚ := (t.wallMs, t.monotonicMs)

/-- The second of the last monotonic sample. -/
def second (A : Rounding) (t : ClockTracker) : ℤ :=
  ⌊A.round (t.effective A t.previousMonotonicMs / 1000)⌋

variable {A : Rounding} {t t' : ClockTracker} {sample : ClockSample}

theorem effective_mono {x y : ℚ} (h : x ≤ y) : t.effective A x ≤ t.effective A y :=
  A.monotone (by gcongr; exact A.monotone (by gcongr))

/-- Tracking a sample keeps the reference, and does not go back. -/
theorem track_spec (monotonic : ℚ) :
    (t.track monotonic).wallMs = t.wallMs ∧ (t.track monotonic).monotonicMs = t.monotonicMs ∧
      t.previousMonotonicMs ≤ (t.track monotonic).previousMonotonicMs := by
  unfold track
  split
  · exact ⟨rfl, rfl, le_rfl⟩
  · rename_i h
    exact ⟨rfl, rfl, not_lt.mp h⟩

/-- Observing keeps the reference, and does not go back. -/
theorem observe_spec (A : Rounding) (t : ClockTracker) (sample : ClockSample) :
    (t.observe A sample).1.wallMs = t.wallMs ∧ (t.observe A sample).1.monotonicMs = t.monotonicMs ∧
      t.previousMonotonicMs ≤ (t.observe A sample).1.previousMonotonicMs := by
  unfold observe
  cases boundedNumber sample.monotonicMs with
  | none => exact ⟨rfl, rfl, le_rfl⟩
  | some monotonic => exact track_spec monotonic

theorem reference_observe (A : Rounding) (t : ClockTracker) (sample : ClockSample) :
    (t.observe A sample).1.reference = t.reference := by
  obtain ⟨hwall, hmonotonic, -⟩ := observe_spec A t sample
  rw [reference, reference, hwall, hmonotonic]

/-- The reference of a new tracker is its sample. -/
theorem reference_create {policy : ClockPolicy} {reference : ClockSample}
    (h : createClockTracker policy reference = .ok t) :
    reference = ⟨some t.reference.1, some t.reference.2⟩ := by
  unfold createClockTracker at h
  split at h
  · rename_i wall monotonic hwall hmonotonic
    obtain rfl := pure_eq_ok.mp h
    obtain ⟨hwall, -⟩ := Option.filter_eq_some_iff.mp hwall
    obtain ⟨hwall, -⟩ := Option.filter_eq_some_iff.mp hwall
    obtain ⟨hmonotonic, -⟩ := Option.filter_eq_some_iff.mp hmonotonic
    obtain ⟨wallMs, monotonicMs⟩ := reference
    obtain rfl : wallMs = some wall := hwall
    obtain rfl : monotonicMs = some monotonic := hmonotonic
    rfl
  · simp at h

/-- The second of a new tracker is not negative. -/
theorem second_create_nonneg {policy : ClockPolicy} {reference : ClockSample}
    (h : createClockTracker policy reference = .ok t) : 0 ≤ t.second A := by
  have hzero : A.round 0 = 0 := by simpa using A.integer 0 (Nat.zero_le _)
  unfold createClockTracker at h
  split at h
  · rename_i wall monotonic hwall hmonotonic
    obtain rfl := pure_eq_ok.mp h
    obtain ⟨-, hwall⟩ := Option.filter_eq_some_iff.mp hwall
    have hwall : 0 ≤ wall := by simpa using hwall
    refine Int.floor_nonneg.mpr (hzero ▸ A.monotone ?_)
    simp only [effective, sub_self, hzero, add_zero]
    have := hzero ▸ A.monotone hwall
    positivity
  · simp at h

/-- The second of a tracker does not go back. -/
theorem second_le_observe (A : Rounding) (t : ClockTracker) (sample : ClockSample) :
    t.second A ≤ (t.observe A sample).1.second A := by
  obtain ⟨hwall, hmonotonic, hle⟩ := observe_spec A t sample
  have heffective : t.effective A t.previousMonotonicMs ≤
      (t.observe A sample).1.effective A (t.observe A sample).1.previousMonotonicMs := by
    rw [effective, effective, hwall, hmonotonic]
    exact effective_mono (t := t) hle
  exact Int.floor_mono (A.monotone (by gcongr))

theorem wallSample_bounds {x : ℚ} (h : wallSample (some x) ≠ none) : 0 ≤ x ∧ x ≤ maxSafeInteger := by
  by_contra hx
  apply h
  by_cases hbound : |x| ≤ maxSafeInteger
  · have hneg : ¬ 0 ≤ x := fun h0 => hx ⟨h0, (le_abs_self x).trans hbound⟩
    simp [wallSample, boundedNumber, Option.filter, hbound, hneg]
  · simp [wallSample, boundedNumber, Option.filter, hbound]

/-- The second of a bounded time is a safe integer. -/
theorem isSecond_floor {x : ℚ} (h : wallSample (some x) ≠ none) :
    isSecond ⌊A.round (x / 1000)⌋ := by
  obtain ⟨h0, hmax⟩ := wallSample_bounds h
  have hzero : A.round 0 = 0 := by simpa using A.integer 0 (Nat.zero_le _)
  have hlow : 0 ≤ A.round (x / 1000) := hzero ▸ A.monotone (by positivity)
  have hhigh : A.round (x / 1000) ≤ maxSafeInteger := by
    rw [← A.integer maxSafeInteger le_rfl]
    exact A.monotone ((div_le_self h0 (by norm_num)).trans hmax)
  have hfloor : ((⌊A.round (x / 1000)⌋ : ℤ) : ℚ) ≤ maxSafeInteger := (Int.floor_le _).trans hhigh
  simp only [isSecond, Bool.decide_and, Bool.and_eq_true, decide_eq_true_eq]
  exact ⟨Int.floor_nonneg.mpr hlow, by exact_mod_cast hfloor⟩

/-- What a healthy observation shows. -/
theorem observation_healthy {wall monotonic : Sample} {effective : ℚ} {now : ℤ}
    (h : t.observation A wall monotonic = .healthy effective now) :
    t.regressed = false ∧ ∃ m, monotonic = some m ∧ effective = t.effective A m ∧
      now = ⌊A.round (effective / 1000)⌋ ∧ wallSample (some effective) ≠ none := by
  unfold observation at h
  split at h
  · simp at h
  · rename_i hregressed
    refine ⟨by simpa using hregressed, ?_⟩
    split at h
    · rename_i w m _
      simp only at h
      split at h
      · simp at h
      · rename_i hsafe
        split at h
        · simp at h
        · obtain ⟨rfl, rfl⟩ := ClockObservation.healthy.inj h
          exact ⟨m, rfl, rfl, rfl, fun hnone => hsafe (.inr (.inr hnone))⟩
    · simp at h

/-- A healthy observation shows the second of its tracker, a safe integer. -/
theorem observe_healthy {effective : ℚ} {now : ℤ}
    (h : t.observe A sample = (t', .healthy effective now)) :
    now = t'.second A ∧ isSecond now := by
  obtain ⟨rfl, hobservation⟩ := Prod.mk.inj h
  obtain ⟨hregressed, m, hm, heffective, rfl, hwall⟩ := observation_healthy hobservation
  refine ⟨?_, isSecond_floor hwall⟩
  rw [hm, trackSample] at hregressed heffective ⊢
  have hprevious : (t.track m).previousMonotonicMs = m := by
    unfold track at hregressed ⊢
    split at hregressed
    · simp at hregressed
    · rename_i hle
      rw [dif_neg hle]
  rw [second, hprevious, heffective]

end ClockTracker

end AgentSig.Profiles
