import AgentSig.Discovery.Accounting

/-!
# Back-off after failures

A failure blocks its origin until a deadline. The deadline is kept in the place of the origin, or, where there
is no place left, in a bound for all origins. Places are freed only when their deadlines are over, or at a
commit for their origins, so a deadline is never lost in between.

## Main definitions

* `KeepsFailures`: an operation keeps the deadlines of some origins
* `BacksOff`: an origin is blocked up to a deadline, or the clock has failed

## Main results

* `keepsFailures_step`: every operation keeps the deadlines, but those of the origin that it commits
* `backsOff_recordFailure`: a failure blocks its origin
* `backoff_never_lost`: **what is blocked stays blocked**
-/

namespace AgentSig.Discovery

open Commons Profiles StructuredFields

namespace DirectoryCache

variable {c c' : DirectoryCache} {sample : Sample} {origin originInput : Text} {t : ℚ}

/-- When the clock shows a time. -/
theorem now_eq_some_iff : (c.now sample).2 = some t ↔
    sample = some t ∧ c.healthy ∧ c.lastTime ≤ t ∧ t ≤ maxSafeInteger := by
  unfold now
  by_cases hhealthy : c.healthy = true
  · rw [if_pos hhealthy]
    cases sample with
    | none => simp
    | some s =>
      dsimp only
      split
      · rename_i hbad
        refine iff_of_false (by simp) ?_
        rintro ⟨hs, -, hlast, hmax⟩
        obtain rfl := Option.some.inj hs
        exact hbad.elim (not_lt.mpr hlast) (not_lt.mpr hmax)
      · rename_i hgood
        rw [not_or, not_lt, not_lt] at hgood
        constructor
        · intro h
          obtain rfl := Option.some.inj h
          exact ⟨rfl, hhealthy, hgood⟩
        · exact fun h => h.1
  · rw [if_neg hhealthy]
    exact iff_of_false (by simp) fun h => hhealthy h.2.1

/-- An operation keeps the deadlines of some origins: they stay, or are raised, or are over. -/
structure KeepsFailures (kept : Text → Prop) (c c' : DirectoryCache) : Prop where
  healthy : c'.healthy → c.healthy
  lastTime : c.lastTime ≤ c'.lastTime
  overflow : c.overflowUntil ≤ c'.overflowUntil
  distinct : (c.negative.map (·.1)).Nodup → (c'.negative.map (·.1)).Nodup
  live : ∀ origin, kept origin → ∀ d, OrderedMap.lookup c.negative origin = some d →
    d ≤ c'.lastTime ∨ ∃ d', d ≤ d' ∧ OrderedMap.lookup c'.negative origin = some d'

namespace KeepsFailures

variable {kept : Text → Prop}

theorem refl (c : DirectoryCache) : KeepsFailures kept c c :=
  ⟨id, le_rfl, le_rfl, id, fun _ _ d hd => .inr ⟨d, le_rfl, hd⟩⟩

theorem trans {c'' : DirectoryCache} (h : KeepsFailures kept c c') (h' : KeepsFailures kept c' c'') :
    KeepsFailures kept c c'' where
  healthy hc := h.healthy (h'.healthy hc)
  lastTime := h.lastTime.trans h'.lastTime
  overflow := h.overflow.trans h'.overflow
  distinct hc := h'.distinct (h.distinct hc)
  live origin hkept d hd := by
    rcases h.live origin hkept d hd with hpast | ⟨d', hle, hd'⟩
    · exact .inl (hpast.trans h'.lastTime)
    · rcases h'.live origin hkept d' hd' with hpast | ⟨d'', hle', hd''⟩
      · exact .inl (hle.trans hpast)
      · exact .inr ⟨d'', hle.trans hle', hd''⟩

theorem mono {kept' : Text → Prop} (h : KeepsFailures kept c c') (hkept : ∀ o, kept' o → kept o) :
    KeepsFailures kept' c c' :=
  ⟨h.healthy, h.lastTime, h.overflow, h.distinct, fun origin ho => h.live origin (hkept origin ho)⟩

/-- An operation that touches no failures. -/
theorem of_same (hhealthy : c'.healthy → c.healthy) (hlast : c.lastTime ≤ c'.lastTime)
    (hoverflow : c'.overflowUntil = c.overflowUntil) (hnegative : c'.negative = c.negative) :
    KeepsFailures kept c c' where
  healthy := hhealthy
  lastTime := hlast
  overflow := hoverflow.ge
  distinct h := hnegative ▸ h
  live _ _ d hd := .inr ⟨d, le_rfl, hnegative ▸ hd⟩

end KeepsFailures

variable {kept : Text → Prop}

theorem keepsFailures_now (kept : Text → Prop) (c : DirectoryCache) (sample : Sample) :
    KeepsFailures kept c (c.now sample).1 := by
  rcases now_cases c sample with ⟨t, -, -, hle, hnow⟩ | hnow
  · rw [hnow]
    exact .of_same id hle rfl rfl
  · rw [hnow]
    exact .of_same (fun h => absurd h Bool.false_ne_true) le_rfl rfl rfl

/-- What is pruned is over. -/
theorem keepsFailures_pruneNegative (hlast : c.lastTime = t) :
    KeepsFailures kept c (c.pruneNegative t) where
  healthy := id
  lastTime := le_rfl
  overflow := le_rfl
  distinct h := h.sublist (List.filter_sublist.map _)
  live origin _ d hd := by
    by_cases hlive : t < d
    · exact .inr ⟨d, le_rfl, OrderedMap.lookup_filter_of_pos hd (by simpa using hlive)⟩
    · left
      rw [← hlast] at hlive
      exact le_of_not_gt hlive

/-! ## Operations -/

variable {ρ : Type} {read : ρ → Except DirectoryError PreparedDirectory} {O : OriginPlatform}
  {A : Rounding} {thumbprint : Text}

theorem keepsFailures_prepare (read : ρ → Except DirectoryError PreparedDirectory) (kept : Text → Prop)
    (c : DirectoryCache) (response : ρ) :
    KeepsFailures kept c (c.prepare read response).1 := by
  unfold prepare
  split
  · exact .refl c
  · exact .of_same id le_rfl rfl rfl

theorem keepsFailures_lookup : KeepsFailures kept c (c.lookup O A originInput thumbprint sample).1 := by
  have hclock := keepsFailures_now kept c sample
  unfold lookup
  split
  · exact .refl c
  · split
    · rename_i hnow
      rwa [hnow] at hclock
    · rename_i hnow
      rw [hnow] at hclock
      split
      · exact hclock
      · split
        · split
          · exact hclock
          · exact hclock.trans (.of_same id le_rfl rfl rfl)
        · exact hclock

theorem keepsFailures_recheck {selection : ℕ} :
    KeepsFailures kept c (c.recheck A selection sample).1 := by
  have hclock := keepsFailures_now kept c sample
  unfold recheck
  split
  · rename_i hnow
    rwa [hnow] at hclock
  · rename_i hnow
    rw [hnow] at hclock
    split
    · exact hclock
    · split
      · exact hclock
      · split
        · split <;> exact hclock
        · exact hclock

/-- After a time was shown, it is the last one. -/
theorem lastTime_of_now {now : ℚ} (h : c.now sample = (c', some now)) : c'.lastTime = now := by
  rcases now_cases c sample with ⟨t, -, -, -, hnow⟩ | hnow
  · rw [hnow] at h
    obtain ⟨rfl, htime⟩ := Prod.mk.inj h
    exact Option.some.inj htime
  · rw [hnow] at h
    exact absurd (Prod.mk.inj h).2 (by simp)

theorem keepsFailures_fetchBlocked (kept : Text → Prop) :
    KeepsFailures kept c (c.fetchBlocked O originInput sample).1 := by
  have hclock := keepsFailures_now kept c sample
  unfold fetchBlocked
  split
  · exact .refl c
  · split
    · rename_i hnow
      rwa [hnow] at hclock
    · rename_i hnow
      rw [hnow] at hclock
      exact hclock.trans (keepsFailures_pruneNegative (lastTime_of_now hnow))

/-- A cache that records a failure of an origin with a deadline, where its clock allows it. -/
def record (c : DirectoryCache) (origin : Text) (deadline : ℚ) : DirectoryCache :=
  if maxSafeInteger < deadline then { c with healthy := false }
  else match OrderedMap.lookup c.negative origin with
  | some previous => { c with negative := OrderedMap.set c.negative origin (max deadline previous) }
  | none =>
    if c.negative.length < c.options.maxNegativeEntries then
      { c with negative := OrderedMap.set c.negative origin (max deadline 0) }
    else { c with overflowUntil := max c.overflowUntil deadline }

theorem recordFailure_eq (horigin : configuredOrigin O originInput = .ok origin) :
    (c.recordFailure O A originInput sample).1 =
      match c.now sample with
      | (c, none) => c
      | (c, some t) =>
        if (c.pruneNegative t).options.negativeSeconds = 0 then c.pruneNegative t
        else (c.pruneNegative t).record origin
          (A.round (t + (c.pruneNegative t).options.negativeSeconds * 1000)) := by
  unfold recordFailure record
  rw [horigin]
  dsimp only
  cases c.now sample with
  | mk c₁ result =>
    cases result with
    | none => rfl
    | some t =>
      dsimp only
      split
      · rfl
      · split
        · rfl
        · cases OrderedMap.lookup (c₁.pruneNegative t).negative origin with
          | some previous => rfl
          | none =>
            dsimp only
            split <;> rfl

/-- Recording a failure lowers no deadline. -/
theorem keepsFailures_record (c : DirectoryCache) (origin : Text) (deadline : ℚ) :
    KeepsFailures kept c (c.record origin deadline) := by
  unfold record
  split
  · exact .of_same (fun h => absurd h Bool.false_ne_true) le_rfl rfl rfl
  · split
    · rename_i previous hprevious
      refine ⟨id, le_rfl, le_rfl, fun h => OrderedMap.nodup_keys_set h _ _, fun o _ d hd => .inr ?_⟩
      dsimp only
      rw [OrderedMap.lookup_set]
      by_cases ho : origin = o
      · subst ho
        rw [if_pos rfl]
        obtain rfl := Option.some.inj (hprevious.symm.trans hd)
        exact ⟨_, le_max_right _ _, rfl⟩
      · rw [if_neg ho]
        exact ⟨d, le_rfl, hd⟩
    · rename_i hnone
      split
      · refine ⟨id, le_rfl, le_rfl, fun h => OrderedMap.nodup_keys_set h _ _, fun o _ d hd => .inr ?_⟩
        dsimp only
        rw [OrderedMap.lookup_set]
        by_cases ho : origin = o
        · subst ho
          rw [hnone] at hd
          exact absurd hd (by simp)
        · rw [if_neg ho]
          exact ⟨d, le_rfl, hd⟩
      · exact ⟨id, le_rfl, le_max_left _ _, id, fun _ _ d hd => .inr ⟨d, le_rfl, hd⟩⟩

theorem keepsFailures_recordFailure (kept : Text → Prop) :
    KeepsFailures kept c (c.recordFailure O A originInput sample).1 := by
  cases horigin : configuredOrigin O originInput with
  | error e =>
    unfold recordFailure
    rw [horigin]
    exact .refl c
  | ok origin =>
    rw [recordFailure_eq horigin]
    rcases now_cases c sample with ⟨t, -, -, hle, hnow⟩ | hnow
    · have hpruned : KeepsFailures kept { c with lastTime := t }
          ({ c with lastTime := t }.pruneNegative t) := keepsFailures_pruneNegative rfl
      have hclock : KeepsFailures kept c { c with lastTime := t } := .of_same id hle rfl rfl
      rw [hnow]
      dsimp only
      split
      · exact hclock.trans hpruned
      · exact (hclock.trans hpruned).trans (keepsFailures_record _ _ _)
    · have hclock := keepsFailures_now kept c sample
      rw [hnow] at hclock ⊢
      exact hclock

theorem remove_failures (c : DirectoryCache) (origin : Text) :
    (c.remove origin).healthy = c.healthy ∧ (c.remove origin).lastTime = c.lastTime ∧
      (c.remove origin).overflowUntil = c.overflowUntil ∧ (c.remove origin).negative = c.negative := by
  unfold remove
  split <;> exact ⟨rfl, rfl, rfl, rfl⟩

theorem keepsFailures_keep (c : DirectoryCache) (origin : Text) (prepared : PreparedDirectory) (now : ℚ) :
    KeepsFailures kept c (c.keep origin prepared now).1 := by
  unfold keep
  dsimp only
  split
  · exact .refl c
  · split <;> exact .of_same id le_rfl rfl rfl

/-- A commit frees the place of its origin only. -/
theorem keepsFailures_commit {ticket : ℕ} :
    KeepsFailures (fun o => ∀ e ∈ c.commitEvents O originInput ticket sample, ∀ document,
      ¬ e.Commits o document) c (c.commit O originInput ticket sample).1 := by
  cases horigin : configuredOrigin O originInput with
  | error e =>
    unfold commit
    rw [horigin]
    exact .refl c
  | ok origin =>
    cases hprepared : OrderedMap.lookup c.prepared ticket with
    | none =>
      unfold commit
      rw [horigin]
      simp only [hprepared]
      exact .refl c
    | some prepared =>
      rcases commit_cases sample horigin hprepared with
        ⟨t, ht, hnow, hcommit⟩ | hcommit
      · have hevents : c.commitEvents O originInput ticket sample =
            [.committed origin prepared.document
              ((c.beforeEviction origin ticket sample).keep origin prepared t).2] := by
          unfold commitEvents
          simp only [horigin, hprepared, hcommit]
        have hclock := keepsFailures_now (fun o => o ≠ origin)
          { c with prepared := c.prepared.filter (·.1 ≠ ticket) } sample
        rw [hnow] at hclock
        have hbefore : KeepsFailures (fun o => o ≠ origin) c (c.beforeEviction origin ticket sample) := by
          unfold beforeEviction
          rw [hnow]
          dsimp only
          obtain ⟨hhealthy, hlast, hoverflow, hnegative⟩ := remove_failures
            { c with prepared := c.prepared.filter (·.1 ≠ ticket), lastTime := t } origin
          refine ⟨fun h => ?_, ?_, ?_, fun h => ?_, fun o ho d hd => .inr ⟨d, le_rfl, ?_⟩⟩
          · exact hclock.healthy (hhealthy ▸ h)
          · exact hlast ▸ hclock.lastTime
          · exact hoverflow.ge
          · rw [hnegative]
            exact h.sublist (List.filter_sublist.map _)
          · rw [hnegative, OrderedMap.lookup_filter_ne, if_neg (Ne.symm ho)]
            exact hd
        rw [hevents, hcommit]
        refine (hbefore.trans (keepsFailures_keep _ _ _ _)).mono fun o ho heq => ?_
        subst heq
        exact ho _ (List.mem_singleton.mpr rfl) prepared.document ⟨_, rfl⟩
      · rw [hcommit]
        exact .of_same (fun h => absurd h Bool.false_ne_true) le_rfl rfl rfl

/-- **Every operation keeps the deadlines**, but those of the origin that it commits. -/
theorem keepsFailures_step (c : DirectoryCache) (sample : Sample) (operation : CacheOperation ρ) :
    KeepsFailures (fun o => ∀ e ∈ (c.step read O A sample operation).2, ∀ document, ¬ e.Commits o document) c
      (c.step read O A sample operation).1 := by
  cases operation with
  | prepare response => exact keepsFailures_prepare read _ c response
  | commit originInput ticket => exact keepsFailures_commit
  | replace originInput response =>
    have hprepare (kept : Text → Prop) := keepsFailures_prepare read kept c response
    unfold DirectoryCache.step replace
    dsimp only
    cases configuredOrigin O originInput with
    | error e => exact .refl c
    | ok origin =>
      cases hread : c.prepare read response with
      | mk c₁ result =>
        rw [hread] at hprepare
        cases result with
        | error e => exact hprepare _
        | ok ticket => exact (hprepare _).trans keepsFailures_commit
  | lookup originInput thumbprint => exact keepsFailures_lookup
  | recheck selection => exact keepsFailures_recheck
  | recordFailure originInput => exact keepsFailures_recordFailure _
  | fetchBlocked originInput => exact keepsFailures_fetchBlocked _

/-- The operations of a run keep the deadlines of the origins that they do not commit. -/
theorem keepsFailures_run (read : ρ → Except DirectoryError PreparedDirectory) (O : OriginPlatform)
    (A : Rounding) (c : DirectoryCache) (operations : List (CacheOperation ρ × Sample)) :
    KeepsFailures (fun o => ∀ e ∈ (c.run read O A operations).2, ∀ document, ¬ e.Commits o document) c
      (c.run read O A operations).1 := by
  induction operations generalizing c with
  | nil => exact .refl c
  | cons e operations ih =>
    refine ((keepsFailures_step c e.2 e.1).mono fun o ho f hf => ?_).trans ((ih _).mono fun o ho f hf => ?_)
    · exact ho f (List.mem_append_left _ hf)
    · exact ho f (List.mem_append_right _ hf)

/-! ## Blocked origins -/

/-- An origin is blocked up to a deadline, by its place or by the bound for all, or the clock has failed. -/
def BacksOff (c : DirectoryCache) (origin : Text) (deadline : ℚ) : Prop :=
  c.healthy = false ∨ deadline ≤ c.lastTime ∨ deadline ≤ c.overflowUntil ∨
    ∃ d, deadline ≤ d ∧ OrderedMap.lookup c.negative origin = some d

theorem BacksOff.after {deadline : ℚ} (h : BacksOff c origin deadline) (hkeeps : KeepsFailures kept c c')
    (horigin : kept origin) : BacksOff c' origin deadline := by
  rcases h with hfaulty | hpast | hoverflow | ⟨d, hle, hd⟩
  · left
    rw [Bool.eq_false_iff]
    intro hhealthy
    rw [hkeeps.healthy hhealthy] at hfaulty
    exact absurd hfaulty (by simp)
  · exact .inr (.inl (hpast.trans hkeeps.lastTime))
  · exact .inr (.inr (.inl (hoverflow.trans hkeeps.overflow)))
  · rcases hkeeps.live origin horigin d hd with hpast | ⟨d', hle', hd'⟩
    · exact .inr (.inl (hle.trans hpast))
    · exact .inr (.inr (.inr ⟨d', hle.trans hle', hd'⟩))

theorem backsOff_record (c : DirectoryCache) (origin : Text) (deadline : ℚ) :
    BacksOff (c.record origin deadline) origin deadline := by
  unfold record
  split
  · exact .inl rfl
  · split
    · rename_i previous hprevious
      refine .inr (.inr (.inr ⟨_, le_max_left deadline previous, ?_⟩))
      dsimp only
      rw [OrderedMap.lookup_set, if_pos rfl]
    · split
      · refine .inr (.inr (.inr ⟨_, le_max_left deadline 0, ?_⟩))
        dsimp only
        rw [OrderedMap.lookup_set, if_pos rfl]
      · exact .inr (.inr (.inl (le_max_right _ _)))

/-- **A failure blocks its origin**, whatever the clock shows. -/
theorem backsOff_recordFailure (horigin : configuredOrigin O originInput = .ok origin)
    (hseconds : 0 < c.options.negativeSeconds) :
    BacksOff (c.recordFailure O A originInput (some t)).1 origin
      (A.round (t + c.options.negativeSeconds * 1000)) := by
  rw [recordFailure_eq horigin]
  rcases now_cases c (some t) with ⟨t', ht, -, -, hnow⟩ | hnow
  · obtain rfl := Option.some.inj ht
    rw [hnow]
    dsimp only
    rw [if_neg (by simpa [pruneNegative] using hseconds.ne')]
    exact backsOff_record _ _ _
  · rw [hnow]
    exact .inl rfl

/-- The failures of an origin are found by their place, and times are not negative. -/
structure FailuresWell (c : DirectoryCache) : Prop where
  distinct : (c.negative.map (·.1)).Nodup
  nonneg : 0 ≤ c.lastTime

theorem FailuresWell.after (h : FailuresWell c) (hkeeps : KeepsFailures kept c c') : FailuresWell c' :=
  ⟨hkeeps.distinct h.distinct, h.nonneg.trans hkeeps.lastTime⟩

theorem failuresWell_create (options : DirectoryCacheConfiguration) : FailuresWell (create options) :=
  ⟨List.nodup_nil, le_rfl⟩

/-- An origin is blocked where the clock has failed, and before the deadlines. -/
theorem fetchBlocked_iff (h : FailuresWell c) (horigin : configuredOrigin O originInput = .ok origin) :
    (c.fetchBlocked O originInput sample).2 = .ok true ↔
      ∀ t, (c.now sample).2 = some t → t < c.overflowUntil ∨
        ∃ d, t < d ∧ OrderedMap.lookup c.negative origin = some d := by
  unfold fetchBlocked
  rw [horigin]
  dsimp only
  rcases now_cases c sample with ⟨t, -, -, hle, hnow⟩ | hnow
  · rw [hnow]
    simp only [pruneNegative, Except.ok.injEq, Option.some.injEq, forall_eq']
    refine decide_eq_true_iff.trans (or_congr_right ⟨fun hlt => ?_, ?_⟩)
    · cases hd : OrderedMap.lookup (c.negative.filter fun e => t < e.2) origin with
      | none =>
        rw [hd, Option.getD_none] at hlt
        exact absurd (h.nonneg.trans hle) (not_le.mpr hlt)
      | some d =>
        obtain ⟨hlookup, hlive⟩ := OrderedMap.lookup_of_lookup_filter h.distinct hd
        exact ⟨d, by simpa using hlive, hlookup⟩
    · rintro ⟨d, hlt, hd⟩
      rw [OrderedMap.lookup_filter_of_pos hd (by simpa using hlt)]
      exact hlt
  · rw [hnow]
    simp

/-- An origin that backs off is blocked before the deadline. -/
theorem BacksOff.blocked {deadline : ℚ} (h : BacksOff c origin deadline) (hwell : FailuresWell c)
    (horigin : configuredOrigin O originInput = .ok origin)
    (hbefore : ∀ t, sample = some t → t < deadline) :
    (c.fetchBlocked O originInput sample).2 = .ok true := by
  rw [fetchBlocked_iff hwell horigin]
  intro t ht
  obtain ⟨hsample, hhealthy, hlast, -⟩ := now_eq_some_iff.mp ht
  have hlt := hbefore t hsample
  rcases h with hfaulty | hpast | hoverflow | ⟨d, hle, hd⟩
  · rw [hhealthy] at hfaulty
    exact absurd hfaulty (by simp)
  · exact absurd (hpast.trans hlast) (not_le.mpr hlt)
  · exact .inl (hlt.trans_le hoverflow)
  · exact .inr ⟨d, hlt.trans_le hle, hd⟩

/-- What is blocked stays blocked where no deadline is lost. -/
theorem blocked_kept (hwell : FailuresWell c) (hkeeps : KeepsFailures kept c c') (hkept : kept origin)
    (horigin : configuredOrigin O originInput = .ok origin)
    (h : (c.fetchBlocked O originInput sample).2 = .ok true) :
    (c'.fetchBlocked O originInput sample).2 = .ok true := by
  rw [fetchBlocked_iff hwell horigin] at h
  rw [fetchBlocked_iff (hwell.after hkeeps) horigin]
  intro t ht
  obtain ⟨hsample, hhealthy, hlast, hmax⟩ := now_eq_some_iff.mp ht
  have hearlier : (c.now sample).2 = some t :=
    now_eq_some_iff.mpr ⟨hsample, hkeeps.healthy hhealthy, hkeeps.lastTime.trans hlast, hmax⟩
  rcases h t hearlier with hlt | ⟨d, hlt, hd⟩
  · exact .inl (hlt.trans_le hkeeps.overflow)
  · rcases hkeeps.live origin hkept d hd with hpast | ⟨d', hle, hd'⟩
    · exact absurd (hpast.trans hlast) (not_le.mpr hlt)
    · exact .inr ⟨d', hlt.trans_le hle, hd'⟩

theorem failuresWell_run (read : ρ → Except DirectoryError PreparedDirectory) (O : OriginPlatform)
    (A : Rounding) (options : DirectoryCacheConfiguration)
    (operations : List (CacheOperation ρ × Sample)) :
    FailuresWell ((create options).run read O A operations).1 :=
  (failuresWell_create options).after (keepsFailures_run read O A _ operations)

theorem fetchBlocked_error {e : DirectoryError} (horigin : configuredOrigin O originInput = .error e) :
    (c.fetchBlocked O originInput sample).2 = .error e := by
  unfold fetchBlocked
  rw [horigin]

end DirectoryCache

/-- In every sequence of operations of a cache, with any options and any samples of the clock: after a failure
of an origin is recorded, the origin is blocked at every time before its deadline, whatever happens in between,
unless a set is committed for it; a later failure, of any origin, leaves what is blocked blocked; and every
origin is blocked when the clock is faulty, then and ever after. Times are as they are rounded. -/
theorem backoff_never_lost {ρ : Type} (read : ρ → Except DirectoryError PreparedDirectory)
    (O : OriginPlatform) (A : Rounding) (options : DirectoryCacheConfiguration)
    (before : List (CacheOperation ρ × Sample)) :
    (∀ failureInput originInput origin t after sample, 0 < options.negativeSeconds →
      DirectoryCache.configuredOrigin O failureInput = .ok origin →
      DirectoryCache.configuredOrigin O originInput = .ok origin →
      (∀ e ∈ (((((DirectoryCache.create options).run read O A before).1.recordFailure O A failureInput
        (some t)).1).run read O A after).2, ∀ document, ¬ e.Commits origin document) →
      (∀ t', sample = some t' → t' < A.round (t + options.negativeSeconds * 1000)) →
      ((((((DirectoryCache.create options).run read O A before).1.recordFailure O A failureInput
        (some t)).1).run read O A after).1.fetchBlocked O originInput sample).2 = .ok true) ∧
    (∀ failureInput failureSample originInput sample,
      (((DirectoryCache.create options).run read O A before).1.fetchBlocked O originInput sample).2 =
        .ok true →
      ((((DirectoryCache.create options).run read O A before).1.recordFailure O A failureInput
        failureSample).1.fetchBlocked O originInput sample).2 = .ok true) ∧
    ∀ originInput origin sample, DirectoryCache.configuredOrigin O originInput = .ok origin →
      ((sample = none ∨ ∃ t, sample = some t ∧
          (t < ((DirectoryCache.create options).run read O A before).1.lastTime ∨ maxSafeInteger < t)) →
        (((DirectoryCache.create options).run read O A before).1.fetchBlocked O originInput sample).2 =
          .ok true ∧
        (((DirectoryCache.create options).run read O A before).1.fetchBlocked O originInput sample).1.healthy =
          false) ∧
      (((DirectoryCache.create options).run read O A before).1.healthy = false → ∀ after,
        (((((DirectoryCache.create options).run read O A before).1).run read O A after).1.fetchBlocked O
          originInput sample).2 = .ok true) := by
  have hwell := DirectoryCache.failuresWell_run read O A options before
  have hoptions := (DirectoryCache.accounted_run read O A (DirectoryCache.accounted_create options)
    before).configured
  generalize ((DirectoryCache.create options).run read O A before).1 = c at hwell hoptions ⊢
  refine ⟨?_, ?_, ?_⟩
  · intro failureInput originInput origin t after sample hseconds hfailure horigin hkept hbefore
    rw [← hoptions] at hseconds hbefore
    have hfailed : (c.recordFailure O A failureInput (some t)).1.FailuresWell :=
      hwell.after (DirectoryCache.keepsFailures_recordFailure fun _ => True)
    have hkeeps := DirectoryCache.keepsFailures_run read O A
      (c.recordFailure O A failureInput (some t)).1 after
    exact ((DirectoryCache.backsOff_recordFailure hfailure hseconds).after hkeeps hkept).blocked
      (hfailed.after hkeeps) horigin hbefore
  · intro failureInput failureSample originInput sample hblocked
    cases horigin : DirectoryCache.configuredOrigin O originInput with
    | error e =>
      rw [DirectoryCache.fetchBlocked_error horigin] at hblocked
      exact absurd hblocked (by simp)
    | ok origin =>
      exact DirectoryCache.blocked_kept hwell
        (DirectoryCache.keepsFailures_recordFailure fun _ => True) trivial horigin hblocked
  · intro originInput origin sample horigin
    constructor
    · intro hfaulty
      have hnone : c.now sample = ({ c with healthy := false }, none) := by
        rcases DirectoryCache.now_cases c sample with ⟨t, -, -, -, hnow⟩ | hnow
        · have htime : (c.now sample).2 = some t := by rw [hnow]
          obtain ⟨hsample, -, hlast, hmax⟩ := DirectoryCache.now_eq_some_iff.mp htime
          rcases hfaulty with hmissing | ⟨t', ht', hregressed | hlarge⟩
          · rw [hmissing] at hsample
            exact absurd hsample (by simp)
          · obtain rfl := Option.some.inj (ht'.symm.trans hsample)
            exact absurd hlast (not_le.mpr hregressed)
          · obtain rfl := Option.some.inj (ht'.symm.trans hsample)
            exact absurd hmax (not_le.mpr hlarge)
        · exact hnow
      unfold DirectoryCache.fetchBlocked
      rw [horigin]
      simp only [hnone]
      trivial
    · intro hfaulty after
      have hkeeps := DirectoryCache.keepsFailures_run read O A c after
      rw [DirectoryCache.fetchBlocked_iff (hwell.after hkeeps) horigin]
      intro t ht
      obtain ⟨-, hhealthy, -⟩ := DirectoryCache.now_eq_some_iff.mp ht
      rw [hkeeps.healthy hhealthy] at hfaulty
      exact absurd hfaulty (by simp)

/-- Options without places for failures. -/
def noPlaces : DirectoryCacheConfiguration :=
  { defaultOptions with maxPositiveEntries := 1, maxNegativeEntries := 0, ceilings := by decide }

/-- Another origin fails, and the first is looked up. -/
def floodOperations : List (CacheOperation ℕ × Sample) :=
  [(.recordFailure (ascii "https://b.test"), some 2000),
    (.lookup (ascii "https://a.test") (ascii "k"), some 3000)]

/-- The cache after a failure. -/
def failedCache : DirectoryCache :=
  ((DirectoryCache.create noPlaces).recordFailure spelledOrigins .exact (ascii "https://a.test")
    (some 1000)).1

theorem backoff_never_lost_noPlaces :
    ((failedCache.run exampleRead spelledOrigins .exact floodOperations).1.fetchBlocked spelledOrigins
      (ascii "https://a.test") (some 60999)).2 = .ok true ∧
    ((failedCache.fetchBlocked spelledOrigins (ascii "https://a.test") none).1.fetchBlocked spelledOrigins
      (ascii "https://b.test") (some 100000)).2 = .ok true := by
  obtain ⟨hkept, -, -⟩ := backoff_never_lost exampleRead spelledOrigins .exact noPlaces []
  obtain ⟨-, -, hfaulty⟩ := backoff_never_lost exampleRead spelledOrigins .exact noPlaces
    [(.recordFailure (ascii "https://a.test"), some 1000), (.fetchBlocked (ascii "https://a.test"), none)]
  obtain ⟨-, hlater⟩ := hfaulty (ascii "https://b.test") (ascii "https://b.test") (some 100000)
    (by decide +kernel)
  constructor
  · refine hkept (ascii "https://a.test") (ascii "https://a.test") (ascii "https://a.test") 1000
      floodOperations (some 60999) (by decide) (by decide +kernel) (by decide +kernel) ?_ ?_
    · have hevents : (failedCache.run exampleRead spelledOrigins .exact floodOperations).2 =
          [.lookedUp (ascii "https://a.test") (ascii "k") (.missing .unknownKey)] := by decide +kernel
      intro e he document hcommits
      obtain ⟨kept, rfl⟩ := hcommits
      have hmem : .committed (ascii "https://a.test") document kept ∈
          (failedCache.run exampleRead spelledOrigins .exact floodOperations).2 := he
      rw [hevents] at hmem
      simp at hmem
    · intro t ht
      obtain rfl := Option.some.inj ht
      decide +kernel
  · exact hlater (by decide +kernel) []

end AgentSig.Discovery
