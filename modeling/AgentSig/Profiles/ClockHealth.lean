import AgentSig.Profiles.ClockTracker

/-!
# Clock health

A tracker observes one sample after another. It remembers the greatest monotonic sample and whether a sample
went back, also where the wall sample is bad, so the time that healthy observations show never goes back.

## Main definitions

* `HealthTracker`: a tracker that reports transitions
* `HealthTracker.run`, `HealthTracker.observations`: the tracker and its observations after some samples

## Main results

* `regressed_run`: a monotonic sample that goes back is remembered
* `clock_never_backwards`: **the observations of every sequence of samples**
-/

namespace AgentSig.Profiles

open Commons Core StructuredFields

namespace ClockTracker

variable {A : Rounding} {t : ClockTracker} {sample : ClockSample}

theorem observe_drift (A : Rounding) (t : ClockTracker) (sample : ClockSample) :
    (t.observe A sample).1.maximumDriftMs = t.maximumDriftMs := by
  unfold observe trackSample track
  cases boundedNumber sample.monotonicMs with
  | none => rfl
  | some monotonic =>
    dsimp only
    split <;> rfl

/-- A sample that went back is remembered. -/
theorem observe_regressed (A : Rounding) (t : ClockTracker) (sample : ClockSample) (h : t.regressed) :
    (t.observe A sample).1.regressed := by
  unfold observe trackSample track
  cases boundedNumber sample.monotonicMs with
  | none => exact h
  | some monotonic =>
    dsimp only
    split
    · rfl
    · exact h

/-- A valid monotonic sample is tracked, whatever the wall sample is. -/
theorem observe_monotonic {monotonic : ℚ} (hvalid : boundedNumber sample.monotonicMs = some monotonic) :
    if monotonic < t.previousMonotonicMs then (t.observe A sample).1.regressed = true
    else (t.observe A sample).1.previousMonotonicMs = monotonic := by
  unfold observe trackSample
  rw [hvalid]
  dsimp only
  unfold track
  split
  · rfl
  · rfl

/-- What a new tracker starts from. -/
theorem create_spec {policy : ClockPolicy} {reference : ClockSample}
    (h : createClockTracker policy reference = .ok t) :
    reference = ⟨some t.wallMs, some t.monotonicMs⟩ ∧ t.previousMonotonicMs = t.monotonicMs ∧
      t.maximumDriftMs = policy.maxClockDriftSeconds * 1000 := by
  refine ⟨reference_create h, ?_⟩
  unfold createClockTracker at h
  split at h
  · obtain rfl := pure_eq_ok.mp h
    exact ⟨rfl, rfl⟩
  · simp at h

/-- The wall sample of a healthy observation is within the drift. -/
theorem observation_drift {wall monotonic : Sample} {effective : ℚ} {now : ℤ}
    (h : t.observation A wall monotonic = .healthy effective now) :
    ∃ w, wall = some w ∧ |A.round (w - effective)| ≤ t.maximumDriftMs := by
  unfold observation at h
  split at h
  · simp at h
  · split at h
    · rename_i w m hwall
      dsimp only at h
      split at h
      · simp at h
      · split at h
        · simp at h
        · rename_i hdrift
          obtain ⟨rfl, -⟩ := ClockObservation.healthy.inj h
          obtain ⟨hwall, -⟩ := Option.filter_eq_some_iff.mp hwall
          obtain ⟨hwall, -⟩ := Option.filter_eq_some_iff.mp hwall
          exact ⟨w, hwall, not_lt.mp hdrift⟩
    · simp at h

end ClockTracker

/-- The state of `createClockTracker` with `wasHealthy`. -/
structure HealthTracker where
  tracker : ClockTracker
  wasHealthy : Bool

/-- An observation, and its `transition`: whether the clock has become healthy or unhealthy. -/
structure ReportedObservation where
  observation : ClockObservation
  transition : Option Bool
  deriving DecidableEq, Repr

namespace HealthTracker

/-- `observation`: the result with its transition. -/
def report (wasHealthy : Bool) (result : ClockObservation) : ReportedObservation :=
  ⟨result, if wasHealthy ≠ result.isHealthy then some result.isHealthy else none⟩

theorem report_transition (wasHealthy : Bool) (result : ClockObservation) :
    (report wasHealthy result).transition =
      if wasHealthy = result.isHealthy then none else some result.isHealthy := by
  unfold report
  split <;> rename_i hchanged <;> simp_all

/-- `observe`. -/
def observe (A : Rounding) (t : HealthTracker) (sample : ClockSample) : HealthTracker × ReportedObservation :=
  let observed := t.tracker.observe A sample
  (⟨observed.1, observed.2.isHealthy⟩, report t.wasHealthy observed.2)

/-- The tracker after some samples. -/
def run (A : Rounding) : HealthTracker → List ClockSample → HealthTracker
  | t, [] => t
  | t, sample :: rest => run A (t.observe A sample).1 rest

/-- The observations of some samples. -/
def observations (A : Rounding) : HealthTracker → List ClockSample → List ReportedObservation
  | _, [] => []
  | t, sample :: rest => (t.observe A sample).2 :: observations A (t.observe A sample).1 rest

variable {A : Rounding} {t : HealthTracker} {samples : List ClockSample} {sample : ClockSample}

theorem run_append (t : HealthTracker) (samples samples' : List ClockSample) :
    run A t (samples ++ samples') = run A (run A t samples) samples' := by
  induction samples generalizing t with
  | nil => rfl
  | cons sample samples ih => exact ih _

/-- An observation is made by the tracker after the samples before it. -/
theorem observations_getElem? (t : HealthTracker) (samples : List ClockSample) (i : ℕ) :
    (observations A t samples)[i]? =
      samples[i]?.map fun sample => ((run A t (samples.take i)).observe A sample).2 := by
  induction samples generalizing t i with
  | nil => rfl
  | cons sample samples ih =>
    cases i with
    | zero => rfl
    | succ i => exact ih _ i

theorem exists_of_observation {i : ℕ} {o : ReportedObservation}
    (h : (observations A t samples)[i]? = some o) :
    ∃ sample, samples[i]? = some sample ∧ ((run A t (samples.take i)).observe A sample).2 = o := by
  rw [observations_getElem?] at h
  exact Option.map_eq_some_iff.mp h

/-! ## What a run keeps -/

/-- The reference and the drift stay, and the tracker never goes back. -/
theorem run_spec (A : Rounding) (t : HealthTracker) (samples : List ClockSample) :
    (run A t samples).tracker.reference = t.tracker.reference ∧
      (run A t samples).tracker.maximumDriftMs = t.tracker.maximumDriftMs ∧
      t.tracker.previousMonotonicMs ≤ (run A t samples).tracker.previousMonotonicMs ∧
      t.tracker.second A ≤ (run A t samples).tracker.second A ∧
      (t.tracker.regressed → (run A t samples).tracker.regressed) := by
  induction samples generalizing t with
  | nil => exact ⟨rfl, rfl, le_rfl, le_rfl, id⟩
  | cons sample samples ih =>
    obtain ⟨hreference, hdrift, hprevious, hsecond, hregressed⟩ := ih (t.observe A sample).1
    refine ⟨hreference.trans (ClockTracker.reference_observe A t.tracker sample),
      hdrift.trans (ClockTracker.observe_drift A t.tracker sample), ?_, ?_, fun h => hregressed ?_⟩
    · exact (ClockTracker.observe_spec A t.tracker sample).2.2.trans hprevious
    · exact (ClockTracker.second_le_observe A t.tracker sample).trans hsecond
    · exact ClockTracker.observe_regressed A t.tracker sample h

theorem run_take_succ {i : ℕ} (hi : samples[i]? = some sample) :
    run A t (samples.take (i + 1)) = ((run A t (samples.take i)).observe A sample).1 := by
  rw [List.take_add_one, hi, run_append]
  rfl

theorem run_take_add (i k : ℕ) :
    run A t (samples.take (i + k)) = run A (run A t (samples.take i)) ((samples.drop i).take k) := by
  rw [List.take_add, run_append]

/-- A valid monotonic sample is not after the last one, unless a sample went back. -/
theorem le_previous_run {i j : ℕ} {monotonic : ℚ} (hij : i < j) (hi : samples[i]? = some sample)
    (hvalid : boundedNumber sample.monotonicMs = some monotonic) :
    (run A t (samples.take j)).tracker.regressed ∨
      monotonic ≤ (run A t (samples.take j)).tracker.previousMonotonicMs := by
  obtain ⟨k, rfl⟩ : ∃ k, j = i + 1 + k := ⟨j - (i + 1), by omega⟩
  rw [run_take_add, run_take_succ hi]
  obtain ⟨-, -, hprevious, -, hregressed⟩ := run_spec A ((run A t (samples.take i)).observe A sample).1
    ((samples.drop (i + 1)).take k)
  have htracked := ClockTracker.observe_monotonic (A := A) (t := (run A t (samples.take i)).tracker) hvalid
  split at htracked
  · exact .inl (hregressed htracked)
  · exact .inr (htracked ▸ hprevious)

/-- **A monotonic sample that goes back is remembered**: no observation is healthy from there on. -/
theorem regressed_run {j k : ℕ} {monotonic : ℚ} (hj : samples[j]? = some sample)
    (hvalid : boundedNumber sample.monotonicMs = some monotonic)
    (hback : (run A t (samples.take j)).tracker.regressed ∨
      monotonic < (run A t (samples.take j)).tracker.previousMonotonicMs) (hjk : j ≤ k) {o : ReportedObservation}
    (ho : (observations A t samples)[k]? = some o) : o.observation.isHealthy = false := by
  have hregressed : (run A t (samples.take (j + 1))).tracker.regressed := by
    rw [run_take_succ hj]
    rcases hback with hregressed | hlt
    · exact ClockTracker.observe_regressed A _ sample hregressed
    · have htracked := ClockTracker.observe_monotonic (A := A) (t := (run A t (samples.take j)).tracker) hvalid
      rwa [if_pos hlt] at htracked
  obtain ⟨later, hlater, rfl⟩ := exists_of_observation ho
  have hafter : (run A t (samples.take (k + 1))).tracker.regressed := by
    obtain ⟨d, rfl⟩ : ∃ d, k = j + d := ⟨k - j, by omega⟩
    rw [show j + d + 1 = j + 1 + d by omega, run_take_add]
    exact (run_spec A _ _).2.2.2.2 hregressed
  rw [run_take_succ hlater] at hafter
  cases hobserved : ((run A t (samples.take k)).tracker.observe A later).2 with
  | unhealthy reason =>
    show ((run A t (samples.take k)).tracker.observe A later).2.isHealthy = false
    rw [hobserved]
    rfl
  | healthy effective now =>
    obtain ⟨hfalse, -⟩ := ClockTracker.observation_healthy hobserved
    exact absurd (hafter.symm.trans hfalse) (by simp)

end HealthTracker

/-- For every reference, every policy and every sequence of samples, with exact arithmetic: the seconds of
healthy observations never decrease, and are those of the reference wall time plus the elapsed monotonic time;
the wall sample of a healthy observation is within the drift; from a valid monotonic sample on that is before
an earlier one, or before the reference, no observation is healthy; and a transition is reported exactly where
the health changes, which starts as healthy. -/
theorem clock_never_backwards (policy : ClockPolicy) (reference : ClockSample) (samples : List ClockSample)
    (t : ClockTracker) (h : createClockTracker policy reference = .ok t) :
    (∀ (i j : ℕ) (effective effective' : ℚ) (now now' : ℤ) (transition transition' : Option Bool), i < j →
      (HealthTracker.observations .exact ⟨t, true⟩ samples)[i]? = some ⟨.healthy effective now, transition⟩ →
      (HealthTracker.observations .exact ⟨t, true⟩ samples)[j]? =
        some ⟨.healthy effective' now', transition'⟩ → now ≤ now') ∧
    (∀ (i : ℕ) (effective : ℚ) (now : ℤ) (transition : Option Bool),
      (HealthTracker.observations .exact ⟨t, true⟩ samples)[i]? = some ⟨.healthy effective now, transition⟩ →
      ∃ wall₀ monotonic₀ wall monotonic, reference = ⟨some wall₀, some monotonic₀⟩ ∧
        samples[i]? = some ⟨some wall, some monotonic⟩ ∧ effective = wall₀ + (monotonic - monotonic₀) ∧
        now = ⌊effective / 1000⌋ ∧ |wall - effective| ≤ policy.maxClockDriftSeconds * 1000) ∧
    (∀ (j k : ℕ) (sample : ClockSample) (monotonic earlier : ℚ) (o : ReportedObservation), j ≤ k →
      samples[j]? = some sample → boundedNumber sample.monotonicMs = some monotonic → monotonic < earlier →
      (reference.monotonicMs = some earlier ∨ ∃ (i : ℕ) (sample' : ClockSample), i < j ∧
        samples[i]? = some sample' ∧ boundedNumber sample'.monotonicMs = some earlier) →
      (HealthTracker.observations .exact ⟨t, true⟩ samples)[k]? = some o →
      o.observation.isHealthy = false) ∧
    ∀ (i : ℕ) (o : ReportedObservation), (HealthTracker.observations .exact ⟨t, true⟩ samples)[i]? = some o →
      (i = 0 → (o.transition = if o.observation.isHealthy then none else some false)) ∧
      ∀ (i' : ℕ) (previous : ReportedObservation), i = i' + 1 →
        (HealthTracker.observations .exact ⟨t, true⟩ samples)[i']? = some previous →
        (o.transition = if previous.observation.isHealthy = o.observation.isHealthy then none
          else some o.observation.isHealthy) := by
  obtain ⟨hreference, hprevious, hdrift⟩ := ClockTracker.create_spec h
  refine ⟨?_, ?_, ?_, ?_⟩
  · intro i j effective effective' now now' transition transition' hij hi hj
    obtain ⟨sample, hsample, hobserved⟩ := HealthTracker.exists_of_observation hi
    obtain ⟨sample', hsample', hobserved'⟩ := HealthTracker.exists_of_observation hj
    have hnow := (ClockTracker.observe_healthy (Prod.ext rfl (congrArg ReportedObservation.observation
      hobserved))).1
    have hnow' := (ClockTracker.observe_healthy (Prod.ext rfl (congrArg ReportedObservation.observation
      hobserved'))).1
    obtain ⟨k, rfl⟩ : ∃ k, j = i + 1 + k := ⟨j - (i + 1), by omega⟩
    have hlater := (HealthTracker.run_spec .exact (HealthTracker.run .exact ⟨t, true⟩ (samples.take (i + 1)))
      ((samples.drop (i + 1)).take k)).2.2.2.1
    rw [← HealthTracker.run_take_add, HealthTracker.run_take_succ hsample] at hlater
    calc now = _ := hnow
      _ ≤ _ := hlater
      _ ≤ _ := ClockTracker.second_le_observe .exact _ sample'
      _ = now' := hnow'.symm
  · intro i effective now transition hi
    obtain ⟨⟨wallMs, monotonicMs⟩, hsample, hobserved⟩ := HealthTracker.exists_of_observation hi
    have hresult := congrArg ReportedObservation.observation hobserved
    obtain ⟨-, m, hm, heffective, hnow, -⟩ := ClockTracker.observation_healthy hresult
    obtain ⟨w, hw, hwithin⟩ := ClockTracker.observation_drift hresult
    obtain ⟨hsame, hsameDrift, -⟩ := HealthTracker.run_spec .exact ⟨t, true⟩ (samples.take i)
    have hkept := (ClockTracker.reference_observe .exact
      (HealthTracker.run .exact ⟨t, true⟩ (samples.take i)).tracker ⟨wallMs, monotonicMs⟩).trans hsame
    have hkeptDrift := (ClockTracker.observe_drift .exact
      (HealthTracker.run .exact ⟨t, true⟩ (samples.take i)).tracker ⟨wallMs, monotonicMs⟩).trans hsameDrift
    obtain ⟨hwall₀, hmonotonic₀⟩ := Prod.mk.inj hkept
    obtain ⟨hmonotonic, -⟩ := Option.filter_eq_some_iff.mp hm
    refine ⟨t.wallMs, t.monotonicMs, w, m, hreference, ?_, ?_, hnow, ?_⟩
    · rw [hsample, ← hw, ← hmonotonic]
    · rw [← hwall₀, ← hmonotonic₀]
      exact heffective
    · rw [← hdrift, ← hkeptDrift]
      exact hwithin
  · intro j k sample monotonic earlier o hjk hj hvalid hlt hearlier ho
    refine HealthTracker.regressed_run hj hvalid ?_ hjk ho
    rcases hearlier with hstart | ⟨i, sample', hij, hi, hvalid'⟩
    · right
      rw [hreference] at hstart
      obtain rfl := Option.some.inj hstart
      rw [← hprevious] at hlt
      exact hlt.trans_le (HealthTracker.run_spec .exact ⟨t, true⟩ (samples.take j)).2.2.1
    · exact (HealthTracker.le_previous_run hij hi hvalid').imp_right hlt.trans_le
  · intro i o ho
    obtain ⟨sample, hsample, rfl⟩ := HealthTracker.exists_of_observation ho
    constructor
    · rintro rfl
      rw [List.take_zero]
      refine (HealthTracker.report_transition true (t.observe .exact sample).2).trans ?_
      show _ = if (t.observe .exact sample).2.isHealthy then none else some false
      cases (t.observe .exact sample).2.isHealthy <;> rfl
    · rintro i' previous rfl hprevious'
      obtain ⟨sample', hsample', rfl⟩ := HealthTracker.exists_of_observation hprevious'
      rw [HealthTracker.run_take_succ hsample']
      exact HealthTracker.report_transition _ _

/-- A clock that drifts, goes back while the wall sample is bad, and then seems to recover. -/
def unsteadySamples : List ClockSample :=
  [⟨some 1001000, some 1000⟩, ⟨some 9001000, some 1500⟩, ⟨some 1002000, some 2000⟩, ⟨none, some 1200⟩,
    ⟨some 1003000, some 3000⟩]

theorem clock_never_backwards_unsteady :
    (HealthTracker.observations .exact ⟨⟨1000000, 0, 5000, 0, false, le_rfl⟩, true⟩ unsteadySamples).map
        ReportedObservation.transition = [none, some false, some true, some false, none] ∧
      ∀ (k : ℕ) (o : ReportedObservation), 3 ≤ k → (HealthTracker.observations .exact
        ⟨⟨1000000, 0, 5000, 0, false, le_rfl⟩, true⟩ unsteadySamples)[k]? = some o →
        o.observation.isHealthy = false := by
  refine ⟨by decide +kernel, fun k o hk ho => ?_⟩
  obtain ⟨-, -, hback, -⟩ := clock_never_backwards ⟨5, by decide⟩ ⟨some 1000000, some 0⟩ unsteadySamples
    ⟨1000000, 0, 5000, 0, false, le_rfl⟩ (by
      have hwall : wallSample (some 1000000) = some 1000000 := by decide +kernel
      have hmonotonic : boundedNumber (some 0) = some 0 := by decide +kernel
      unfold createClockTracker
      simp only [hwall, hmonotonic]
      norm_num)
  exact hback 3 k ⟨none, some 1200⟩ 1200 1500 o hk rfl (by decide +kernel) (by norm_num)
    (.inr ⟨1, ⟨some 9001000, some 1500⟩, by decide, rfl, by decide +kernel⟩) ho

end AgentSig.Profiles
