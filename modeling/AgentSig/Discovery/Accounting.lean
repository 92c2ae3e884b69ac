import AgentSig.Discovery.Removal

/-!
# Accounting of the directory cache

The byte counter of a cache is adjusted by hand where entries are removed, evicted and added. It is the sum of
what the entries are accounted for in every state, so the loop that evicts the oldest entries finds room
before it runs out of them.

## Main definitions

* `total`, `Room`: what entries are accounted for, and whether one more fits
* `EvictionRound`: a round of the loop
* `Accounted`: the counters are right and within their bounds
* `CommitOutcome`: what a commit does to the entries

## Main results

* `evict_spec`: the loop removes the oldest entries until there is room
* `Accounted.step`: every operation keeps the account
* `cache_accounting`: **the account of every run**
-/

namespace AgentSig.Discovery

open Commons Profiles StructuredFields

namespace DirectoryCache

/-! ## The clock -/

/-- The clock shows a time, or it has failed. -/
theorem now_cases (c : DirectoryCache) (sample : Sample) :
    (∃ t, sample = some t ∧ c.healthy ∧ c.lastTime ≤ t ∧
      c.now sample = ({ c with lastTime := t }, some t)) ∨
    c.now sample = ({ c with healthy := false }, none) := by
  unfold now
  by_cases hhealthy : c.healthy = true
  · rw [if_pos hhealthy]
    cases sample with
    | none => exact .inr rfl
    | some t =>
      by_cases hbad : t < c.lastTime ∨ maxSafeInteger < t
      · exact .inr (if_pos hbad)
      · exact .inl ⟨t, rfl, hhealthy, by simpa using (not_or.mp hbad).1, if_neg hbad⟩
  · rw [if_neg hhealthy]
    right
    have hfaulty : c.healthy = false := by simpa using hhealthy
    rw [← hfaulty]

/-! ## Eviction -/

/-- What entries are accounted for. -/
def total (positive : List (Text × Entry)) : ℤ := (positive.map fun e => (e.2.accountedBytes : ℤ)).sum

@[simp] theorem total_nil : total [] = 0 := rfl

@[simp] theorem total_cons (e : Text × Entry) (positive : List (Text × Entry)) :
    total (e :: positive) = e.2.accountedBytes + total positive := by
  simp [total]

theorem total_append (positive positive' : List (Text × Entry)) :
    total (positive ++ positive') = total positive + total positive' := by
  simp [total]

theorem total_nonneg (positive : List (Text × Entry)) : 0 ≤ total positive := by
  induction positive with
  | nil => exact le_rfl
  | cons e positive ih =>
    rw [total_cons]
    omega

/-- An entry of a size fits beside some entries. -/
def Room (options : DirectoryCacheConfiguration) (accountedBytes : ℕ) (positive : List (Text × Entry)) : Prop :=
  positive.length < options.maxPositiveEntries ∧
    total positive + accountedBytes ≤ options.maxPositiveAccountedBytes

variable {options : DirectoryCacheConfiguration} {accountedBytes : ℕ} {positive : List (Text × Entry)}

/-- **The loop removes the oldest entries until there is room**, and finds room. -/
theorem evict_spec (hentries : options.maxPositiveEntries ≠ 0)
    (hfits : accountedBytes ≤ options.maxPositiveAccountedBytes) (positive : List (Text × Entry)) :
    ∃ k, evict options accountedBytes positive (total positive) =
        (positive.drop k, total (positive.drop k), true) ∧
      Room options accountedBytes (positive.drop k) ∧
      ∀ j < k, ¬ Room options accountedBytes (positive.drop j) := by
  induction positive with
  | nil =>
    have hpositive : 0 < options.maxPositiveEntries := Nat.pos_of_ne_zero hentries
    refine ⟨0, ?_, ⟨hpositive, by simpa using hfits⟩, fun j hj => absurd hj (Nat.not_lt_zero j)⟩
    simpa [evict] using ⟨hentries, hfits⟩
  | cons e positive ih =>
    obtain ⟨origin, entry⟩ := e
    obtain ⟨k, hevict, hroom, hleast⟩ := ih
    unfold evict
    split
    · -- There is no room yet, so the oldest entry goes.
      rename_i hfull
      refine ⟨k + 1, ?_, hroom, fun j hj => ?_⟩
      · rw [total_cons, add_sub_cancel_left, hevict]
        rfl
      · cases j with
        | zero =>
          rintro ⟨hlength, hbytes⟩
          simp only [List.drop_zero, List.length_cons] at hlength hbytes
          omega
        | succ j => exact hleast j (Nat.lt_of_succ_lt_succ hj)
    · rename_i hroomy
      rw [not_or, not_le, not_lt] at hroomy
      exact ⟨0, rfl, hroomy, fun j hj => absurd hj (Nat.not_lt_zero j)⟩

variable {c c' : DirectoryCache} {origin : Text}

/-- The condition of the loop. -/
def Full (c : DirectoryCache) (accountedBytes : ℕ) : Prop :=
  c.options.maxPositiveEntries ≤ c.positive.length ∨
    c.options.maxPositiveAccountedBytes < c.bytes + accountedBytes

/-- A round of the loop: the oldest entry is removed. -/
inductive EvictionRound (accountedBytes : ℕ) (c : DirectoryCache) : DirectoryCache → Prop
  | round {oldest : Text} {entry : Entry} {rest : List (Text × Entry)} : c.Full accountedBytes →
      c.positive = (oldest, entry) :: rest → EvictionRound accountedBytes c (c.remove oldest)

/-- The byte counter is right, and no origin has two entries. -/
structure Balanced (c : DirectoryCache) : Prop where
  bytes : c.bytes = total c.positive
  once : (c.positive.map (·.1)).Nodup

theorem total_filter_ne {entry : Entry} (hnodup : (positive.map (·.1)).Nodup)
    (hlookup : OrderedMap.lookup positive origin = some entry) :
    total (positive.filter (·.1 ≠ origin)) = total positive - entry.accountedBytes := by
  have hperm := OrderedMap.perm_cons_filter_ne hnodup (OrderedMap.mem_of_lookup hlookup)
  have hsum : total positive = total ((origin, entry) :: positive.filter (·.1 ≠ origin)) :=
    (hperm.map _).sum_eq
  rw [total_cons] at hsum
  dsimp only at hsum
  omega

theorem filter_eq_self_of_lookup (h : OrderedMap.lookup positive origin = none) :
    positive.filter (·.1 ≠ origin) = positive := by
  refine List.filter_eq_self.mpr fun e he => ?_
  have hkey : origin ∉ positive.map (·.1) := by
    rw [← OrderedMap.lookup_isSome, h]
    simp
  simp only [ne_eq, decide_not, Bool.not_eq_true', decide_eq_false_iff_not]
  rintro rfl
  exact hkey (List.mem_map_of_mem he)

/-- Removing an origin keeps the balance. -/
theorem Balanced.remove (h : Balanced c) (origin : Text) :
    c.remove origin = { c with
      positive := c.positive.filter (·.1 ≠ origin)
      bytes := total (c.positive.filter (·.1 ≠ origin)) } := by
  unfold DirectoryCache.remove
  split
  · rename_i entry hentry
    rw [total_filter_ne h.once hentry, h.bytes]
  · rename_i hnone
    rw [filter_eq_self_of_lookup hnone, ← h.bytes]

theorem total_filter_le (positive : List (Text × Entry)) (origin : Text) :
    total (positive.filter (·.1 ≠ origin)) ≤ total positive := by
  induction positive with
  | nil => exact le_rfl
  | cons e positive ih =>
    rw [List.filter_cons]
    split
    · rw [total_cons, total_cons]
      omega
    · rw [total_cons]
      omega

theorem nodup_filter (h : (positive.map (·.1)).Nodup) (p : Text × Entry → Bool) :
    ((positive.filter p).map (·.1)).Nodup :=
  h.sublist (List.filter_sublist.map _)

theorem Balanced.removed (h : Balanced c) (origin : Text) : Balanced (c.remove origin) := by
  rw [h.remove origin]
  exact ⟨rfl, nodup_filter h.once _⟩

/-- The oldest entry is the one that a round removes. -/
theorem Balanced.remove_oldest (h : Balanced c) {oldest : Text} {entry : Entry}
    {rest : List (Text × Entry)} (hpositive : c.positive = (oldest, entry) :: rest) :
    c.remove oldest = { c with positive := rest, bytes := total rest } := by
  have hfilter : c.positive.filter (·.1 ≠ oldest) = rest := by
    have hnodup := h.once
    rw [hpositive, List.map_cons, List.nodup_cons] at hnodup
    rw [hpositive, List.filter_cons_of_neg (by simp)]
    refine List.filter_eq_self.mpr fun e he => ?_
    simp only [ne_eq, decide_not, Bool.not_eq_true', decide_eq_false_iff_not]
    intro heq
    exact hnodup.1 (List.mem_map.mpr ⟨e, he, heq⟩)
  rw [h.remove oldest, hfilter]

/-- **What the loop computes is reached round by round.** -/
theorem evictionRounds (h : Balanced c) {k : ℕ}
    (hleast : ∀ j < k, ¬ Room c.options accountedBytes (c.positive.drop j)) :
    Relation.ReflTransGen (EvictionRound accountedBytes) c { c with
      positive := c.positive.drop k
      bytes := total (c.positive.drop k) } := by
  induction k generalizing c with
  | zero =>
    rw [List.drop_zero, ← h.bytes]
  | succ k ih =>
    cases hpositive : c.positive with
    | nil =>
      have hnil := ih h fun j hj => hleast j (hj.trans (Nat.lt_succ_self k))
      rw [hpositive, List.drop_nil] at hnil
      rwa [List.drop_nil]
    | cons e rest =>
      obtain ⟨oldest, entry⟩ := e
      have hfull : c.Full accountedBytes := by
        have hnone := hleast 0 (Nat.succ_pos k)
        rw [List.drop_zero, Room, ← h.bytes, not_and_or, not_lt, not_le] at hnone
        exact hnone
      have hround : EvictionRound accountedBytes c (c.remove oldest) := .round hfull hpositive
      have hbalanced := h.removed oldest
      rw [h.remove_oldest hpositive] at hround hbalanced
      refine .head hround ?_
      refine ih hbalanced fun j hj => ?_
      have hlater := hleast (j + 1) (Nat.succ_lt_succ hj)
      rwa [hpositive, List.drop_succ_cons] at hlater

/-- A round leaves fewer entries. -/
theorem EvictionRound.length_lt (h : EvictionRound accountedBytes c c') (hc : Balanced c) :
    c'.positive.length < c.positive.length ∧ Balanced c' ∧ c'.options = c.options := by
  cases h with
  | @round oldest entry rest hfull hpositive =>
    refine ⟨?_, hc.removed oldest, ?_⟩
    · rw [hc.remove_oldest hpositive, hpositive]
      exact Nat.lt_succ_self _
    · rw [hc.remove_oldest hpositive]

/-! ## The account -/

/-- The counters are right and within their bounds, and no origin is counted twice. -/
structure Accounted (options : DirectoryCacheConfiguration) (c : DirectoryCache) : Prop where
  configured : c.options = options
  bytes : c.bytes = total c.positive
  bounded : c.bytes ≤ options.maxPositiveAccountedBytes
  positive : c.positive.length ≤ options.maxPositiveEntries
  negative : c.negative.length ≤ options.maxNegativeEntries
  once : (c.positive.map (·.1)).Nodup

theorem Accounted.balanced (h : Accounted options c) : Balanced c := ⟨h.bytes, h.once⟩

theorem accounted_create (options : DirectoryCacheConfiguration) : Accounted options (create options) where
  configured := rfl
  bytes := rfl
  bounded := by
    rw [create]
    exact Int.natCast_nonneg _
  positive := Nat.zero_le _
  negative := Nat.zero_le _
  once := List.nodup_nil

/-- An operation leaves the entries and their counter, and keeps the bound on the failures. -/
structure LeavesEntries (c c' : DirectoryCache) : Prop where
  options : c'.options = c.options
  positive : c'.positive = c.positive
  bytes : c'.bytes = c.bytes
  negative : c.negative.length ≤ c.options.maxNegativeEntries →
    c'.negative.length ≤ c.options.maxNegativeEntries

theorem LeavesEntries.refl (c : DirectoryCache) : LeavesEntries c c := ⟨rfl, rfl, rfl, id⟩

theorem LeavesEntries.trans {c'' : DirectoryCache} (h : LeavesEntries c c') (h' : LeavesEntries c' c'') :
    LeavesEntries c c'' where
  options := h'.options.trans h.options
  positive := h'.positive.trans h.positive
  bytes := h'.bytes.trans h.bytes
  negative hn := h.options ▸ h'.negative (h.options.symm ▸ h.negative hn)

theorem LeavesEntries.accounted (h : LeavesEntries c c') (hc : Accounted options c) :
    Accounted options c' where
  configured := h.options.trans hc.configured
  bytes := by rw [h.bytes, h.positive, hc.bytes]
  bounded := h.bytes ▸ hc.bounded
  positive := h.positive ▸ hc.positive
  negative := by
    rw [← hc.configured]
    exact h.negative (hc.configured.symm ▸ hc.negative)
  once := h.positive ▸ hc.once

theorem leavesEntries_now (c : DirectoryCache) (sample : Sample) : LeavesEntries c (c.now sample).1 := by
  rcases now_cases c sample with ⟨t, -, -, -, hnow⟩ | hnow
  all_goals
    rw [hnow]
    exact ⟨rfl, rfl, rfl, id⟩

theorem leavesEntries_pruneNegative (c : DirectoryCache) (now : ℚ) : LeavesEntries c (c.pruneNegative now) :=
  ⟨rfl, rfl, rfl, fun h => (List.length_filter_le _ _).trans h⟩

/-! ## Operations -/

variable {ρ : Type} {read : ρ → Except DirectoryError PreparedDirectory} {O : OriginPlatform}
  {A : Rounding} {sample : Sample} {originInput thumbprint : Text}

theorem leavesEntries_prepare (read : ρ → Except DirectoryError PreparedDirectory) (c : DirectoryCache)
    (response : ρ) :
    LeavesEntries c (c.prepare read response).1 := by
  unfold prepare
  split
  · exact .refl c
  · exact ⟨rfl, rfl, rfl, id⟩

theorem leavesEntries_lookup : LeavesEntries c (c.lookup O A originInput thumbprint sample).1 := by
  have hclock := leavesEntries_now c sample
  unfold lookup
  split
  · exact .refl c
  · split
    · rename_i hnow
      rwa [hnow] at hclock
    · rename_i hnow
      rw [hnow] at hclock
      split
      · exact hclock
      · split
        · split
          · exact hclock
          · exact hclock.trans ⟨rfl, rfl, rfl, id⟩
        · exact hclock

theorem leavesEntries_recheck {selection : ℕ} : LeavesEntries c (c.recheck A selection sample).1 := by
  have hclock := leavesEntries_now c sample
  unfold recheck
  split
  · rename_i hnow
    rwa [hnow] at hclock
  · rename_i hnow
    rw [hnow] at hclock
    split
    · exact hclock
    · split
      · exact hclock
      · split
        · split <;> exact hclock
        · exact hclock

theorem leavesEntries_fetchBlocked : LeavesEntries c (c.fetchBlocked O originInput sample).1 := by
  have hclock := leavesEntries_now c sample
  unfold fetchBlocked
  split
  · exact .refl c
  · split
    · rename_i hnow
      rwa [hnow] at hclock
    · rename_i now hnow
      rw [hnow] at hclock
      exact hclock.trans (leavesEntries_pruneNegative _ now)

/-- A failure is recorded in its place, in a new one while there is one, or for all origins. -/
theorem leavesEntries_recordFailure : LeavesEntries c (c.recordFailure O A originInput sample).1 := by
  have hclock := leavesEntries_now c sample
  unfold recordFailure
  split
  · exact .refl c
  · split
    · rename_i hnow
      rwa [hnow] at hclock
    · rename_i c₁ now hnow
      rw [hnow] at hclock
      refine (hclock.trans (leavesEntries_pruneNegative _ now)).trans ?_
      generalize c₁.pruneNegative now = c₂
      simp only
      split
      · exact .refl c₂
      · split
        · exact ⟨rfl, rfl, rfl, id⟩
        · split
          · rename_i previous hprevious
            refine ⟨rfl, rfl, rfl, fun h => ?_⟩
            dsimp only
            rw [OrderedMap.length_set, if_pos (by simp [hprevious])]
            exact h
          · rename_i hnone
            split
            · rename_i hsmall
              refine ⟨rfl, rfl, rfl, fun _ => ?_⟩
              dsimp only
              rw [OrderedMap.length_set, if_neg (by simp [hnone])]
              exact hsmall
            · exact ⟨rfl, rfl, rfl, id⟩

/-! ## Commits -/

/-- What an entry of a set is accounted for at an origin. -/
def entryBytes (origin : Text) (prepared : PreparedDirectory) : ℕ :=
  prepared.document.accountedBytes + origin.length * 2 + 256

/-- The state in which the loop of `commit` starts. -/
def beforeEviction (c : DirectoryCache) (origin : Text) (ticket : ℕ) (sample : Sample) : DirectoryCache :=
  let c := ({ c with prepared := c.prepared.filter (·.1 ≠ ticket) }.now sample).1.remove origin
  { c with negative := c.negative.filter (·.1 ≠ origin) }

/-- What a commit does to the entries: none changes if the clock has failed, only the older set of the origin
goes if the newer one is refused, and else the oldest entries of the other origins go, as far as needed. -/
inductive CommitOutcome (c : DirectoryCache) (origin : Text) (prepared : PreparedDirectory) (ticket : ℕ)
    (sample : Sample) (c' : DirectoryCache) : Bool → Prop
  | failed : c'.healthy = false → c'.positive = c.positive →
      CommitOutcome c origin prepared ticket sample c' false
  | refused {now : ℚ} : sample = some now →
      (prepared.freshness.persist = false ∨ c.options.maxPositiveEntries = 0 ∨
        c.options.maxPositiveAccountedBytes < entryBytes origin prepared ∨
        prepared.freshness.receivedMonotonicMs.exceeds now) →
      c'.positive = c.positive.filter (·.1 ≠ origin) →
      CommitOutcome c origin prepared ticket sample c' false
  | kept {evicted : DirectoryCache} {k : ℕ} :
      Relation.ReflTransGen (EvictionRound (entryBytes origin prepared))
        (c.beforeEviction origin ticket sample) evicted →
      ¬ evicted.Full (entryBytes origin prepared) →
      evicted.positive = (c.positive.filter (·.1 ≠ origin)).drop k →
      (∀ j < k, ¬ Room c.options (entryBytes origin prepared)
        ((c.positive.filter (·.1 ≠ origin)).drop j)) →
      c'.positive = evicted.positive ++
        [(origin, ⟨prepared.document, prepared.freshness, entryBytes origin prepared⟩)] →
      CommitOutcome c origin prepared ticket sample c' true

/-- The loop ends, and does not run out of entries. -/
structure LoopEnds (accountedBytes : ℕ) (c : DirectoryCache) : Prop where
  terminates : ¬ ∃ f : ℕ → DirectoryCache, f 0 = c ∧ ∀ i, EvictionRound accountedBytes (f i) (f (i + 1))
  oldest : ∀ c', Relation.ReflTransGen (EvictionRound accountedBytes) c c' → c'.Full accountedBytes →
    c'.positive ≠ []

theorem balanced_rounds (h : Balanced c) (hrounds : Relation.ReflTransGen (EvictionRound accountedBytes) c c') :
    Balanced c' ∧ c'.options = c.options := by
  induction hrounds with
  | refl => exact ⟨h, rfl⟩
  | tail _ hround ih =>
    obtain ⟨-, hbalanced, hoptions⟩ := hround.length_lt ih.1
    exact ⟨hbalanced, hoptions.trans ih.2⟩

theorem loopEnds (h : Balanced c) (hentries : c.options.maxPositiveEntries ≠ 0)
    (hfits : accountedBytes ≤ c.options.maxPositiveAccountedBytes) : LoopEnds accountedBytes c where
  terminates := by
    rintro ⟨f, rfl, hf⟩
    have hlength (i : ℕ) : Balanced (f i) ∧ (f i).positive.length + i ≤ (f 0).positive.length := by
      induction i with
      | zero => exact ⟨h, le_rfl⟩
      | succ i ih =>
        obtain ⟨hlt, hbalanced, -⟩ := (hf i).length_lt ih.1
        exact ⟨hbalanced, by omega⟩
    have hlast := (hlength ((f 0).positive.length + 1)).2
    omega
  oldest := by
    intro c' hrounds hfull hnil
    obtain ⟨hbalanced, hoptions⟩ := balanced_rounds h hrounds
    have hbytes := hbalanced.bytes
    rw [hnil, total_nil] at hbytes
    rw [Full, hnil, hbytes, hoptions, List.length_nil] at hfull
    omega

theorem now_prepared (c : DirectoryCache) (ticket : ℕ) (sample : Sample) :
    (∃ t, sample = some t ∧ { c with prepared := c.prepared.filter (·.1 ≠ ticket) }.now sample =
      ({ c with prepared := c.prepared.filter (·.1 ≠ ticket), lastTime := t }, some t)) ∨
    { c with prepared := c.prepared.filter (·.1 ≠ ticket) }.now sample =
      ({ c with prepared := c.prepared.filter (·.1 ≠ ticket), healthy := false }, none) := by
  rcases now_cases { c with prepared := c.prepared.filter (·.1 ≠ ticket) } sample with
    ⟨t, ht, -, -, hnow⟩ | hnow
  · exact .inl ⟨t, ht, hnow⟩
  · exact .inr hnow

theorem Accounted.beforeEviction (h : Accounted options c) (origin : Text) (ticket : ℕ) (sample : Sample) :
    Balanced (c.beforeEviction origin ticket sample) ∧
      (c.beforeEviction origin ticket sample).options = options := by
  have hbalanced (d : DirectoryCache) (hpositive : d.positive = c.positive) (hbytes : d.bytes = c.bytes)
      (hoptions : d.options = c.options) : Balanced (d.remove origin) ∧ (d.remove origin).options = options := by
    have hd : Balanced d := ⟨by rw [hbytes, hpositive, h.bytes], hpositive ▸ h.once⟩
    refine ⟨hd.removed origin, ?_⟩
    rw [hd.remove origin, ← h.configured, ← hoptions]
  unfold DirectoryCache.beforeEviction
  rcases now_prepared c ticket sample with ⟨t, -, hnow⟩ | hnow
  · simp only [hnow]
    obtain ⟨hd, hoptions⟩ := hbalanced
      { c with prepared := c.prepared.filter (·.1 ≠ ticket), lastTime := t } rfl rfl rfl
    exact ⟨⟨hd.bytes, hd.once⟩, hoptions⟩
  · simp only [hnow]
    obtain ⟨hd, hoptions⟩ := hbalanced
      { c with prepared := c.prepared.filter (·.1 ≠ ticket), healthy := false } rfl rfl rfl
    exact ⟨⟨hd.bytes, hd.once⟩, hoptions⟩

/-- A commit fails with the clock, or keeps what it may. -/
theorem commit_cases (sample : Sample) {ticket : ℕ} {prepared : PreparedDirectory}
    (horigin : configuredOrigin O originInput = .ok origin)
    (hprepared : OrderedMap.lookup c.prepared ticket = some prepared) :
    (∃ t, sample = some t ∧
      { c with prepared := c.prepared.filter (·.1 ≠ ticket) }.now sample =
        ({ c with prepared := c.prepared.filter (·.1 ≠ ticket), lastTime := t }, some t) ∧
      c.commit O originInput ticket sample =
        (((c.beforeEviction origin ticket sample).keep origin prepared t).1,
          .ok ((c.beforeEviction origin ticket sample).keep origin prepared t).2)) ∨
    c.commit O originInput ticket sample =
      ({ c with prepared := c.prepared.filter (·.1 ≠ ticket), healthy := false }, .ok false) := by
  unfold commit beforeEviction
  rw [horigin]
  simp only [hprepared]
  rcases now_prepared c ticket sample with ⟨t, ht, hnow⟩ | hnow
  · left
    exact ⟨t, ht, hnow, by simp only [hnow]⟩
  · right
    simp only [hnow]

/-- **What is kept**, beside the entries of other origins. -/
theorem keep_outcome {prepared : PreparedDirectory} (now : ℚ) (h : Accounted options c)
    (hother : origin ∉ c.positive.map (·.1)) :
    ((c.keep origin prepared now).2 = false ∧ (c.keep origin prepared now).1 = c ∧
      (prepared.freshness.persist = false ∨ c.options.maxPositiveEntries = 0 ∨
        c.options.maxPositiveAccountedBytes < entryBytes origin prepared ∨
        prepared.freshness.receivedMonotonicMs.exceeds now)) ∨
    ∃ k, (c.keep origin prepared now).2 = true ∧
      (c.keep origin prepared now).1 = { c with
        positive := c.positive.drop k ++
          [(origin, ⟨prepared.document, prepared.freshness, entryBytes origin prepared⟩)]
        bytes := total (c.positive.drop k) + entryBytes origin prepared } ∧
      Room c.options (entryBytes origin prepared) (c.positive.drop k) ∧
      ∀ j < k, ¬ Room c.options (entryBytes origin prepared) (c.positive.drop j) := by
  unfold keep
  rw [← entryBytes]
  dsimp only
  split
  · rename_i hrefused
    exact .inl ⟨rfl, rfl, hrefused⟩
  · rename_i hallowed
    simp only [not_or] at hallowed
    obtain ⟨-, hentries, hfits, -⟩ := hallowed
    obtain ⟨k, hevict, hroom, hleast⟩ := evict_spec hentries (not_lt.mp hfits) c.positive
    have hnew : origin ∉ (c.positive.drop k).map (·.1) := by
      rw [List.map_drop]
      exact fun hmem => hother (List.mem_of_mem_drop hmem)
    rw [h.bytes, hevict]
    dsimp only
    rw [OrderedMap.set_of_notMem hnew]
    exact .inr ⟨k, rfl, rfl, hroom, hleast⟩

/-- **What a commit does**, and that it keeps the account. -/
theorem commit_outcome (sample : Sample) (h : Accounted options c) {ticket : ℕ} {prepared : PreparedDirectory}
    (horigin : configuredOrigin O originInput = .ok origin)
    (hprepared : OrderedMap.lookup c.prepared ticket = some prepared) :
    ∃ kept, (c.commit O originInput ticket sample).2 = .ok kept ∧
      CommitOutcome c origin prepared ticket sample (c.commit O originInput ticket sample).1 kept ∧
      Accounted options (c.commit O originInput ticket sample).1 := by
  rcases commit_cases sample horigin hprepared with ⟨t, ht, hnow, hcommit⟩ | hcommit
  · -- The older set goes first, whatever becomes of the newer one.
    have hbalanced : Balanced { c with
        prepared := c.prepared.filter (·.1 ≠ ticket)
        lastTime := t } := ⟨h.bytes, h.once⟩
    have hstart : c.beforeEviction origin ticket sample = { c with
        prepared := c.prepared.filter (·.1 ≠ ticket)
        lastTime := t
        positive := c.positive.filter (·.1 ≠ origin)
        bytes := total (c.positive.filter (·.1 ≠ origin))
        negative := c.negative.filter (·.1 ≠ origin) } := by
      unfold beforeEviction
      simp only [hnow, hbalanced.remove origin]
    have hshorter := List.length_filter_le (fun e : Text × Entry => decide (e.1 ≠ origin)) c.positive
    have hless : total (c.positive.filter (·.1 ≠ origin)) ≤ total c.positive :=
      total_filter_le c.positive origin
    have haccount : Accounted options (c.beforeEviction origin ticket sample) := by
      rw [hstart]
      refine ⟨h.configured, rfl, ?_, hshorter.trans h.positive,
        (List.length_filter_le _ _).trans h.negative, nodup_filter h.once _⟩
      have := h.bytes ▸ h.bounded
      exact hless.trans this
    have hpositive : (c.beforeEviction origin ticket sample).positive = c.positive.filter (·.1 ≠ origin) := by
      rw [hstart]
    have hother : origin ∉ (c.beforeEviction origin ticket sample).positive.map (·.1) := by
      rw [hpositive]
      intro hmem
      obtain ⟨e, he, rfl⟩ := List.mem_map.mp hmem
      simpa using (List.mem_filter.mp he).2
    have hoptions : (c.beforeEviction origin ticket sample).options = c.options := by rw [hstart]
    rw [hcommit]
    rcases keep_outcome t haccount hother with ⟨hfalse, hsame, hrefused⟩ | ⟨k, htrue, hkept, hroom, hleast⟩
    · rw [hoptions] at hrefused
      refine ⟨false, by rw [hfalse], ?_, ?_⟩
      · dsimp only
        rw [hsame]
        exact .refused ht hrefused hpositive
      · dsimp only
        rwa [hsame]
    · have hrounds := evictionRounds haccount.balanced hleast
      rw [hpositive] at hkept hroom hleast
      rw [hoptions] at hroom hleast
      refine ⟨true, by rw [htrue], ?_, ?_⟩
      · dsimp only
        rw [hkept]
        refine .kept hrounds ?_ (by rw [hpositive]) hleast (by rw [hpositive])
        rw [Full, not_or, not_le, not_lt, hpositive, hoptions]
        exact hroom
      · dsimp only
        rw [hkept]
        rw [h.configured] at hroom
        refine ⟨haccount.configured, ?_, hroom.2, ?_, haccount.negative, ?_⟩
        · rw [total_append, total_cons, total_nil, add_zero]
        · rw [List.length_append, List.length_singleton]
          exact hroom.1
        · rw [List.map_append, List.map_singleton, List.map_drop, ← hpositive]
          refine List.nodup_append.mpr ⟨haccount.once.sublist (List.drop_sublist k _),
            List.nodup_singleton origin, fun a ha b hb => ?_⟩
          rintro rfl
          rw [List.mem_singleton.mp hb] at ha
          exact hother (List.mem_of_mem_drop ha)
  · rw [hcommit]
    refine ⟨false, rfl, .failed rfl rfl, ?_⟩
    exact ⟨h.configured, h.bytes, h.bounded, h.positive, h.negative, h.once⟩

theorem accounted_commit (h : Accounted options c) {ticket : ℕ} :
    Accounted options (c.commit O originInput ticket sample).1 := by
  cases horigin : configuredOrigin O originInput with
  | error e =>
    unfold commit
    rwa [horigin]
  | ok origin =>
    cases hprepared : OrderedMap.lookup c.prepared ticket with
    | none =>
      unfold commit
      rw [horigin]
      simp only [hprepared]
      exact h
    | some prepared =>
      obtain ⟨-, -, -, haccount⟩ := commit_outcome sample h horigin hprepared
      exact haccount

/-- **Every operation keeps the account.** -/
theorem Accounted.step (h : Accounted options c) (operation : CacheOperation ρ) :
    Accounted options (c.step read O A sample operation).1 := by
  cases operation with
  | prepare response => exact (leavesEntries_prepare read c response).accounted h
  | commit originInput ticket => exact accounted_commit h
  | replace originInput response =>
    have hprepare := (leavesEntries_prepare read c response).accounted h
    unfold DirectoryCache.step replace
    dsimp only
    split
    · exact h
    · split
      · rename_i hread
        rwa [hread] at hprepare
      · rename_i hread
        rw [hread] at hprepare
        exact accounted_commit hprepare
  | lookup originInput thumbprint => exact leavesEntries_lookup.accounted h
  | recheck selection => exact leavesEntries_recheck.accounted h
  | recordFailure originInput => exact leavesEntries_recordFailure.accounted h
  | fetchBlocked originInput => exact leavesEntries_fetchBlocked.accounted h

/-- The account of a run. -/
theorem accounted_run (read : ρ → Except DirectoryError PreparedDirectory) (O : OriginPlatform)
    (A : Rounding) (h : Accounted options c) (operations : List (CacheOperation ρ × Sample)) :
    Accounted options (c.run read O A operations).1 := by
  induction operations generalizing c with
  | nil => exact h
  | cons e operations ih => exact ih (h.step e.1)

end DirectoryCache

/-- In every state that a sequence of operations of a cache reaches, with any options and any samples of the
clock: the byte counter is the sum of what the entries are accounted for and within its maximum, the numbers of
entries and of failures are within theirs, and no origin is counted twice. A commit from there removes the
entry of its origin, and then the oldest of the others, as far as needed and no further; the loop that does so
ends, and never runs out of entries. -/
theorem cache_accounting {ρ : Type} (read : ρ → Except DirectoryError PreparedDirectory)
    (O : OriginPlatform) (A : Rounding) (options : DirectoryCacheConfiguration)
    (operations : List (CacheOperation ρ × Sample)) :
    DirectoryCache.Accounted options ((DirectoryCache.create options).run read O A operations).1 ∧
    ∀ originInput ticket sample origin prepared,
      DirectoryCache.configuredOrigin O originInput = .ok origin →
      OrderedMap.lookup ((DirectoryCache.create options).run read O A operations).1.prepared ticket =
        some prepared →
      (∃ kept, (((DirectoryCache.create options).run read O A operations).1.commit O originInput ticket
          sample).2 = .ok kept ∧
        DirectoryCache.CommitOutcome ((DirectoryCache.create options).run read O A operations).1 origin
          prepared ticket sample (((DirectoryCache.create options).run read O A operations).1.commit O
            originInput ticket sample).1 kept) ∧
      (options.maxPositiveEntries ≠ 0 →
        DirectoryCache.entryBytes origin prepared ≤ options.maxPositiveAccountedBytes →
        DirectoryCache.LoopEnds (DirectoryCache.entryBytes origin prepared)
          (((DirectoryCache.create options).run read O A operations).1.beforeEviction origin ticket
            sample)) := by
  have haccount := DirectoryCache.accounted_run read O A (DirectoryCache.accounted_create options) operations
  refine ⟨haccount, fun originInput ticket sample origin prepared horigin hprepared => ⟨?_, ?_⟩⟩
  · obtain ⟨kept, hkept, houtcome, -⟩ := DirectoryCache.commit_outcome sample haccount horigin
      hprepared
    exact ⟨kept, hkept, houtcome⟩
  · intro hentries hfits
    obtain ⟨hbalanced, hoptions⟩ := haccount.beforeEviction origin ticket sample
    rw [← hoptions] at hentries hfits
    exact DirectoryCache.loopEnds hbalanced hentries hfits

/-- Options with room for one entry. -/
def oneEntry : DirectoryCacheConfiguration :=
  { defaultOptions with maxPositiveEntries := 1, ceilings := by decide }

/-- A set is kept, and a set for another origin is prepared. -/
def oneEntryOperations : List (CacheOperation ℕ × Sample) :=
  [(.replace (ascii "https://a.test") 0, some 0), (.prepare 0, some 1)]

/-- The cache after the operations. -/
def oneEntryCache : DirectoryCache :=
  ((DirectoryCache.create oneEntry).run exampleRead spelledOrigins .exact oneEntryOperations).1

theorem cache_accounting_oneEntry : DirectoryCache.Accounted oneEntry oneEntryCache ∧
    oneEntryCache.positive.map (·.1) = [ascii "https://a.test"] ∧
    (oneEntryCache.commit spelledOrigins (ascii "https://b.test") 1 (some 5)).1.positive.map (·.1) =
      [ascii "https://b.test"] ∧
    ∃ prepared, DirectoryCache.CommitOutcome oneEntryCache (ascii "https://b.test") prepared 1 (some 5)
        (oneEntryCache.commit spelledOrigins (ascii "https://b.test") 1 (some 5)).1 true ∧
      DirectoryCache.LoopEnds (DirectoryCache.entryBytes (ascii "https://b.test") prepared)
        (oneEntryCache.beforeEviction (ascii "https://b.test") 1 (some 5)) := by
  obtain ⟨haccount, hcommits⟩ := cache_accounting exampleRead spelledOrigins .exact oneEntry oneEntryOperations
  obtain ⟨⟨kept, hkept, houtcome⟩, hloop⟩ := hcommits (ascii "https://b.test") 1 (some 5)
    (ascii "https://b.test") ⟨⟨⟨[exampleKey], []⟩, 10⟩, ⟨true, .finite 1000, .finite 0⟩⟩ (by decide +kernel)
    (by decide +kernel)
  have hresult : ∃ c, oneEntryCache.commit spelledOrigins (ascii "https://b.test") 1 (some 5) =
      (c, .ok true) := ⟨_, Prod.ext rfl (by decide +kernel)⟩
  obtain ⟨c, hresult⟩ := hresult
  have htrue : kept = true := by
    have hsame := hkept.symm.trans (congrArg Prod.snd hresult)
    exact Except.ok.inj hsame
  rw [htrue] at houtcome
  exact ⟨haccount, by decide +kernel, by decide +kernel, _, houtcome, hloop (by decide) (by decide)⟩

end AgentSig.Discovery
