import AgentSig.Commons.Runs
import AgentSig.Discovery.DirectoryCache

/-!
# Removal of keys

A commit decides which keys an origin has: after it, a key that is not in the set is neither looked up
nor rechecked until a set with the key is committed, whether the newer set was kept or not. Either the
entry of the origin is gone or newer, or the clock has failed, and then nothing is found any more.

## Main definitions

* `CacheOperation`, `DirectoryCache.step`, `DirectoryCache.run`: the operations in any order
* `CacheEvent`: what the history of a cache records
* `Revoked`: the cache has no usable evidence of a key

## Main results

* `stepOf_step`: what one operation does
* `revoked_of_run`: a key that was removed stays so
* `removal_authoritative`: **a removed key is not found until it is reintroduced**
-/

namespace AgentSig.Discovery

open Commons Profiles StructuredFields

/-- The operations of a cache. -/
inductive CacheOperation (ρ : Type)
  | prepare (response : ρ)
  | commit (originInput : Text) (ticket : ℕ)
  | replace (originInput : Text) (response : ρ)
  | lookup (originInput thumbprint : Text)
  | recheck (selection : ℕ)
  | recordFailure (originInput : Text)
  | fetchBlocked (originInput : Text)

/-- What the history of a cache records: which set was committed at an origin and whether it was kept,
what a lookup at an origin returned, and what a recheck of a selection returned. -/
inductive CacheEvent
  | committed (origin : Text) (document : DirectoryDocument) (kept : Bool)
  | lookedUp (origin thumbprint : Text) (result : DirectoryCacheLookup)
  | rechecked (selection : ℕ) (result : Bool)
  deriving DecidableEq, Repr

/-- A set is committed at an origin. -/
def CacheEvent.Commits (e : CacheEvent) (origin : Text) (document : DirectoryDocument) : Prop :=
  ∃ kept, e = .committed origin document kept

namespace DirectoryCache

section Runs

variable {ρ : Type} (read : ρ → Except DirectoryError PreparedDirectory) (O : OriginPlatform)
  (A : Rounding)

/-- What the history records of a commit. -/
def commitEvents (c : DirectoryCache) (originInput : Text) (ticket : ℕ) (sample : Sample) :
    List CacheEvent :=
  match configuredOrigin O originInput, OrderedMap.lookup c.prepared ticket,
    (c.commit O originInput ticket sample).2 with
  | .ok origin, some prepared, .ok kept => [.committed origin prepared.document kept]
  | _, _, _ => []

/-- One operation, and what the history records of it. -/
def step (c : DirectoryCache) (sample : Sample) : CacheOperation ρ → DirectoryCache × List CacheEvent
  | .prepare response => ((c.prepare read response).1, [])
  | .commit originInput ticket =>
    ((c.commit O originInput ticket sample).1, c.commitEvents O originInput ticket sample)
  | .replace originInput response =>
    ((c.replace read O originInput response sample).1,
      match configuredOrigin O originInput, c.prepare read response with
      | .ok origin, (c, .ok ticket) => c.commitEvents O origin ticket sample
      | _, _ => [])
  | .lookup originInput thumbprint =>
    ((c.lookup O A originInput thumbprint sample).1,
      match configuredOrigin O originInput, (c.lookup O A originInput thumbprint sample).2 with
      | .ok origin, .ok result => [.lookedUp origin thumbprint result]
      | _, _ => [])
  | .recheck selection =>
    ((c.recheck A selection sample).1, [.rechecked selection (c.recheck A selection sample).2])
  | .recordFailure originInput => ((c.recordFailure O A originInput sample).1, [])
  | .fetchBlocked originInput => ((c.fetchBlocked O originInput sample).1, [])

/-- Some operations, each with the sample of the clock. -/
def run (c : DirectoryCache) : List (CacheOperation ρ × Sample) → DirectoryCache × List CacheEvent
  | [] => (c, [])
  | (operation, sample) :: rest =>
    let stepped := c.step read O A sample operation
    let ran := run stepped.1 rest
    (ran.1, stepped.2 ++ ran.2)

/-- The steps of a cache. -/
def Steps (c : DirectoryCache) (es : List CacheEvent) (c' : DirectoryCache) : Prop :=
  ∃ sample operation, c.step read O A sample operation = (c', es)

end Runs

/-! ## What the operations do -/

variable {ρ : Type} {read : ρ → Except DirectoryError PreparedDirectory} {O : OriginPlatform}
  {A : Rounding} {c c' : DirectoryCache} {sample : Sample} {origin originInput thumbprint : Text}
  {es : List CacheEvent} {now : ℚ}

/-- Entries and selections are as before, and a clock that has failed has failed. -/
structure Unchanged (c c' : DirectoryCache) : Prop where
  positive : c'.positive = c.positive
  selections : c'.selections = c.selections
  healthy : c'.healthy → c.healthy

theorem Unchanged.refl (c : DirectoryCache) : Unchanged c c := ⟨rfl, rfl, id⟩

theorem Unchanged.trans {c'' : DirectoryCache} (h : Unchanged c c') (h' : Unchanged c' c'') :
    Unchanged c c'' :=
  ⟨h'.positive.trans h.positive, h'.selections.trans h.selections, fun hc => h.healthy (h'.healthy hc)⟩

/-- A clock that shows no time has failed. -/
theorem now_spec {result : Option ℚ} (h : c.now sample = (c', result)) :
    Unchanged c c' ∧ (result = none → c'.healthy = false) := by
  unfold now at h
  split at h
  · rename_i hhealthy
    cases sample with
    | none =>
      obtain ⟨rfl, rfl⟩ := Prod.mk.inj h
      exact ⟨⟨rfl, rfl, fun h => by simp at h⟩, fun _ => rfl⟩
    | some now =>
      simp only at h
      split at h
      · obtain ⟨rfl, rfl⟩ := Prod.mk.inj h
        exact ⟨⟨rfl, rfl, fun h => by simp at h⟩, fun _ => rfl⟩
      · obtain ⟨rfl, rfl⟩ := Prod.mk.inj h
        exact ⟨⟨rfl, rfl, fun h => h⟩, by simp⟩
  · rename_i hhealthy
    obtain ⟨rfl, rfl⟩ := Prod.mk.inj h
    exact ⟨.refl c, fun _ => by simpa using hhealthy⟩

theorem prepare_unchanged (read : ρ → Except DirectoryError PreparedDirectory) (c : DirectoryCache)
    (response : ρ) : Unchanged c (c.prepare read response).1 := by
  unfold prepare
  split
  · exact .refl c
  · exact ⟨rfl, rfl, id⟩

theorem recordFailure_unchanged : Unchanged c (c.recordFailure O A originInput sample).1 := by
  unfold recordFailure
  split
  · exact .refl c
  · split
    · rename_i hnow
      exact (now_spec hnow).1
    · rename_i c' now hnow
      refine (now_spec hnow).1.trans ?_
      simp only
      split
      · exact ⟨rfl, rfl, id⟩
      · split
        · exact ⟨rfl, rfl, fun h => by simp at h⟩
        · split
          · exact ⟨rfl, rfl, id⟩
          · split
            · exact ⟨rfl, rfl, id⟩
            · exact ⟨rfl, rfl, id⟩

theorem fetchBlocked_unchanged : Unchanged c (c.fetchBlocked O originInput sample).1 := by
  unfold fetchBlocked
  split
  · exact .refl c
  · split
    · rename_i hnow
      exact (now_spec hnow).1
    · rename_i hnow
      exact (now_spec hnow).1.trans ⟨rfl, rfl, id⟩

/-- A recheck that succeeds has found the key of its selection at the origin. -/
theorem recheck_spec {selection : ℕ} : Unchanged c (c.recheck A selection sample).1 ∧
    ((c.recheck A selection sample).2 = true → c.healthy ∧ ∃ selected entry,
      OrderedMap.lookup c.selections selection = some selected ∧ (selected.origin, entry) ∈ c.positive ∧
      entry.document.jwks.Contains selected.thumbprint) := by
  unfold recheck
  split
  · rename_i hnow
    exact ⟨(now_spec hnow).1, by simp⟩
  · rename_i c' now hnow
    have hsame := (now_spec hnow).1
    have hhealthy : c.healthy := by
      by_contra hfaulty
      simp [DirectoryCache.now, hfaulty] at hnow
    split
    · exact ⟨hsame, by simp⟩
    · rename_i selected hselected
      split
      · exact ⟨hsame, by simp⟩
      · rename_i entry hentry
        split
        · split
          · exact ⟨hsame, by simp⟩
          · rename_i key hkey
            refine ⟨hsame, fun _ => ⟨hhealthy, selected, entry, hsame.selections ▸ hselected,
              hsame.positive ▸ OrderedMap.mem_of_lookup hentry, LoadedJwks.contains_of_lookup hkey⟩⟩
        · exact ⟨hsame, by simp⟩

/-- What a lookup does: it may add a selection of a key that the entry of the origin has. -/
structure LookedUp (c : DirectoryCache) (origin thumbprint : Text) (result : DirectoryCacheLookup)
    (c' : DirectoryCache) : Prop where
  positive : c'.positive = c.positive
  healthy : c'.healthy → c.healthy
  missing : (∃ reason, result = .missing reason) → c'.selections = c.selections
  found : ∀ selection, result = .found selection → c.healthy ∧ selection.id = c.selections.length ∧
    c'.selections = c.selections ++ [(selection.id, ⟨origin, thumbprint⟩)] ∧
    ∃ entry, (origin, entry) ∈ c.positive ∧ entry.document.jwks.Contains thumbprint

theorem Unchanged.missing {reason : UnverifiedCode} (h : Unchanged c c') :
    LookedUp c origin thumbprint (.missing reason) c' :=
  ⟨h.positive, h.healthy, fun _ => h.selections, by simp⟩

theorem lookup_spec {result : DirectoryCacheLookup} (horigin : configuredOrigin O originInput = .ok origin)
    (h : c.lookup O A originInput thumbprint sample = (c', .ok result)) :
    LookedUp c origin thumbprint result c' := by
  unfold lookup at h
  rw [horigin] at h
  simp only at h
  split at h
  · rename_i hnow
    simp only [Prod.mk.injEq, Except.ok.injEq] at h
    obtain ⟨rfl, rfl⟩ := h
    exact (now_spec hnow).1.missing
  · rename_i c₁ now hnow
    have hsame := (now_spec hnow).1
    have hhealthy : c.healthy := by
      by_contra hfaulty
      simp [DirectoryCache.now, hfaulty] at hnow
    split at h
    · simp only [Prod.mk.injEq, Except.ok.injEq] at h
      obtain ⟨rfl, rfl⟩ := h
      exact hsame.missing
    · rename_i entry hentry
      split at h
      · split at h
        · simp only [Prod.mk.injEq, Except.ok.injEq] at h
          obtain ⟨rfl, rfl⟩ := h
          exact hsame.missing
        · rename_i key hkey
          simp only [Prod.mk.injEq, Except.ok.injEq] at h
          obtain ⟨rfl, rfl⟩ := h
          obtain ⟨-, hthumbprint⟩ := LoadedJwks.lookup_eq_found hkey
          refine ⟨hsame.positive, hsame.healthy, by simp, fun selection hselection => ?_⟩
          obtain rfl := DirectoryCacheLookup.found.inj hselection
          exact ⟨hhealthy, by rw [hsame.selections], by rw [hsame.selections, hthumbprint], entry,
            hsame.positive ▸ OrderedMap.mem_of_lookup hentry, LoadedJwks.contains_of_lookup hkey⟩
      · simp only [Prod.mk.injEq, Except.ok.injEq] at h
        obtain ⟨rfl, rfl⟩ := h
        exact hsame.missing

theorem lookup_unchanged {e : DirectoryError}
    (h : (c.lookup O A originInput thumbprint sample).2 = .error e) :
    (c.lookup O A originInput thumbprint sample).1 = c := by
  unfold lookup at h ⊢
  split at h
  · rfl
  · split at h
    · simp at h
    · split at h
      · simp at h
      · split at h
        · split at h <;> simp at h
        · simp at h

/-! ## Commits -/

theorem mem_remove {e : Text × Entry} (h : e ∈ (c.remove origin).positive) :
    e ∈ c.positive ∧ e.1 ≠ origin := by
  unfold remove at h
  split at h
  · simpa using List.mem_filter.mp h
  · rename_i hnone
    refine ⟨h, fun horigin => ?_⟩
    have hsome := OrderedMap.lookup_isSome.mpr (List.mem_map_of_mem (f := (·.1)) h)
    rw [horigin, hnone] at hsome
    simp at hsome

theorem remove_selections : (c.remove origin).selections = c.selections := by
  unfold remove
  split <;> rfl

theorem remove_healthy : (c.remove origin).healthy = c.healthy := by
  unfold remove
  split <;> rfl

/-- Eviction leaves the newest entries. -/
theorem mem_evict {options : DirectoryCacheConfiguration} {accountedBytes : ℕ} {e : Text × Entry} :
    ∀ {positive : List (Text × Entry)} {bytes : ℤ},
      e ∈ (evict options accountedBytes positive bytes).1 → e ∈ positive
  | [], _, h => h
  | (_, _) :: rest, bytes, h => by
    unfold evict at h
    split at h
    · exact List.mem_cons_of_mem _ (mem_evict h)
    · exact h

/-- A set that is kept is the only new entry. -/
theorem keep_spec (c : DirectoryCache) (origin : Text) (prepared : PreparedDirectory) (now : ℚ) :
    (∀ e ∈ (c.keep origin prepared now).1.positive, e ∈ c.positive ∨
      e.1 = origin ∧ e.2.document = prepared.document) ∧
    (c.keep origin prepared now).1.selections = c.selections ∧
    (c.keep origin prepared now).1.healthy = c.healthy := by
  unfold keep
  simp only
  split
  · exact ⟨fun e he => .inl he, rfl, rfl⟩
  · have hevict : ∀ e ∈ (evict c.options (prepared.document.accountedBytes + origin.length * 2 + 256)
        c.positive c.bytes).1, e ∈ c.positive := fun e he => mem_evict he
    split
    · rename_i hresult
      rw [hresult] at hevict
      exact ⟨fun e he => .inl (hevict e he), rfl, rfl⟩
    · rename_i hresult
      rw [hresult] at hevict
      refine ⟨fun e he => ?_, rfl, rfl⟩
      rcases OrderedMap.mem_set he with he | rfl
      · exact .inl (hevict e he)
      · exact .inr ⟨rfl, rfl⟩

/-- What a commit at an origin does: the entries of other origins were there before, and that of the
origin has the set that was committed. -/
structure Committed (c : DirectoryCache) (origin : Text) (document : DirectoryDocument)
    (c' : DirectoryCache) : Prop where
  selections : c'.selections = c.selections
  healthy : c'.healthy → c.healthy
  positive : c'.healthy → ∀ e ∈ c'.positive,
    (e ∈ c.positive ∧ e.1 ≠ origin) ∨ e.1 = origin ∧ e.2.document = document

theorem commit_spec {ticket : ℕ} {prepared : PreparedDirectory} {kept : Bool}
    (horigin : configuredOrigin O originInput = .ok origin)
    (hprepared : OrderedMap.lookup c.prepared ticket = some prepared)
    (h : c.commit O originInput ticket sample = (c', .ok kept)) :
    Committed c origin prepared.document c' := by
  unfold commit at h
  rw [horigin] at h
  simp only [hprepared] at h
  split at h
  · rename_i c₁ hnow
    obtain ⟨hsame, hfaulty⟩ := now_spec hnow
    obtain ⟨rfl, -⟩ := Prod.mk.inj h
    refine ⟨hsame.selections, hsame.healthy, fun hhealthy => ?_⟩
    rw [hfaulty rfl] at hhealthy
    simp at hhealthy
  · rename_i c₁ now hnow
    obtain ⟨hsame, -⟩ := now_spec hnow
    obtain ⟨rfl, -⟩ := Prod.mk.inj h
    obtain ⟨hpositive, hselections, hhealthy⟩ := keep_spec
      { c₁.remove origin with negative := (c₁.remove origin).negative.filter (·.1 ≠ origin) }
      origin prepared now
    refine ⟨hselections.trans (remove_selections.trans hsame.selections), fun h => hsame.healthy ?_,
      fun _ e he => ?_⟩
    · rwa [hhealthy, remove_healthy] at h
    · rcases hpositive e he with he | he
      · obtain ⟨he, hne⟩ := mem_remove he
        exact .inl ⟨hsame.positive ▸ he, hne⟩
      · exact .inr he

/-! ## Steps -/

/-- What one operation does, with what the history records of it. -/
inductive StepOf (c : DirectoryCache) : List CacheEvent → DirectoryCache → Prop
  | silent {c' : DirectoryCache} : Unchanged c c' → StepOf c [] c'
  | commit {c' : DirectoryCache} {origin : Text} {document : DirectoryDocument} {kept : Bool} :
    Committed c origin document c' → StepOf c [.committed origin document kept] c'
  | lookup {c' : DirectoryCache} {origin thumbprint : Text} {result : DirectoryCacheLookup} :
    LookedUp c origin thumbprint result c' → StepOf c [.lookedUp origin thumbprint result] c'
  | recheck {c' : DirectoryCache} {selection : ℕ} {result : Bool} : Unchanged c c' →
    (result = true → c.healthy ∧ ∃ selected entry,
      OrderedMap.lookup c.selections selection = some selected ∧ (selected.origin, entry) ∈ c.positive ∧
      entry.document.jwks.Contains selected.thumbprint) →
    StepOf c [.rechecked selection result] c'

theorem stepOf_commit {ticket : ℕ} : StepOf c (c.commitEvents O originInput ticket sample)
    (c.commit O originInput ticket sample).1 := by
  cases horigin : configuredOrigin O originInput with
  | error e =>
    have hcommit : c.commit O originInput ticket sample = (c, .error e) := by
      simp only [commit, horigin]
    simp only [commitEvents, horigin, hcommit]
    exact .silent (.refl c)
  | ok origin =>
    cases hprepared : OrderedMap.lookup c.prepared ticket with
    | none =>
      have hcommit : (c.commit O originInput ticket sample).1 = c := by
        simp only [commit, horigin, hprepared]
      simp only [commitEvents, horigin, hprepared, hcommit]
      exact .silent (.refl c)
    | some prepared =>
      obtain ⟨c', kept, hcommit⟩ : ∃ c' kept, c.commit O originInput ticket sample = (c', .ok kept) := by
        simp only [commit, horigin, hprepared]
        split <;> exact ⟨_, _, rfl⟩
      simp only [commitEvents, horigin, hprepared, hcommit]
      exact .commit (commit_spec horigin hprepared hcommit)

/-- An operation after one that has changed nothing. -/
theorem StepOf.after {c₁ : DirectoryCache} (h : StepOf c₁ es c') (hsame : Unchanged c c₁) :
    StepOf c es c' := by
  cases h with
  | silent h => exact .silent (hsame.trans h)
  | commit h =>
    refine .commit ⟨h.selections.trans hsame.selections, fun h' => hsame.healthy (h.healthy h'), ?_⟩
    rw [← hsame.positive]
    exact h.positive
  | lookup h =>
    refine .lookup ⟨h.positive.trans hsame.positive, fun h' => hsame.healthy (h.healthy h'),
      fun hmissing => (h.missing hmissing).trans hsame.selections, fun selection hfound => ?_⟩
    obtain ⟨hhealthy, hfound⟩ := h.found selection hfound
    rw [hsame.selections, hsame.positive] at hfound
    exact ⟨hsame.healthy hhealthy, hfound⟩
  | recheck h hresult =>
    refine .recheck (hsame.trans h) fun htrue => ?_
    obtain ⟨hhealthy, hfound⟩ := hresult htrue
    rw [hsame.selections, hsame.positive] at hfound
    exact ⟨hsame.healthy hhealthy, hfound⟩

/-- What each operation does. -/
theorem stepOf_step {operation : CacheOperation ρ}
    (h : c.step read O A sample operation = (c', es)) : StepOf c es c' := by
  cases operation with
  | prepare response =>
    obtain ⟨rfl, rfl⟩ := Prod.mk.inj h
    exact .silent (prepare_unchanged read c response)
  | commit originInput ticket =>
    obtain ⟨rfl, rfl⟩ := Prod.mk.inj h
    exact stepOf_commit
  | replace originInput response =>
    obtain ⟨rfl, rfl⟩ := Prod.mk.inj h
    have hsame := prepare_unchanged read c response
    unfold replace
    cases horigin : configuredOrigin O originInput with
    | error e => exact .silent (.refl c)
    | ok origin =>
      cases hprepare : c.prepare read response with
      | mk c₁ result =>
        rw [hprepare] at hsame
        cases result with
        | error e => exact .silent hsame
        | ok ticket => exact stepOf_commit.after hsame
  | lookup originInput thumbprint =>
    obtain ⟨rfl, rfl⟩ := Prod.mk.inj h
    cases horigin : configuredOrigin O originInput with
    | error e =>
      have hlookup : c.lookup O A originInput thumbprint sample = (c, .error e) := by
        simp only [lookup, horigin]
      rw [hlookup]
      exact .silent (.refl c)
    | ok origin =>
      cases hlookup : c.lookup O A originInput thumbprint sample with
      | mk c₁ result =>
        cases result with
        | error e =>
          have hsame := lookup_unchanged (congrArg Prod.snd hlookup)
          rw [hlookup] at hsame
          obtain rfl : c₁ = c := hsame
          exact .silent (.refl c₁)
        | ok result => exact .lookup (lookup_spec horigin hlookup)
  | recheck selection =>
    obtain ⟨rfl, rfl⟩ := Prod.mk.inj h
    exact .recheck recheck_spec.1 recheck_spec.2
  | recordFailure originInput =>
    obtain ⟨rfl, rfl⟩ := Prod.mk.inj h
    exact .silent recordFailure_unchanged
  | fetchBlocked originInput =>
    obtain ⟨rfl, rfl⟩ := Prod.mk.inj h
    exact .silent fetchBlocked_unchanged

/-! ## Histories -/

/-- The cache has no usable evidence of a key at an origin. -/
def Revoked (c : DirectoryCache) (origin thumbprint : Text) : Prop :=
  c.healthy → ∀ e ∈ c.positive, e.1 = origin → ¬ e.2.document.jwks.Contains thumbprint

/-- No set with a key is committed at an origin. -/
def NotReintroduced (origin thumbprint : Text) (es : List CacheEvent) : Prop :=
  ∀ e ∈ es, ∀ document, e.Commits origin document → ¬ document.jwks.Contains thumbprint

/-- A key stays revoked until a set with the key is committed. -/
theorem StepOf.revoked (h : StepOf c es c') (hrevoked : Revoked c origin thumbprint)
    (hes : NotReintroduced origin thumbprint es) : Revoked c' origin thumbprint := by
  intro hhealthy e he horigin
  cases h with
  | silent h => exact hrevoked (h.healthy hhealthy) e (h.positive ▸ he) horigin
  | @commit _ origin' document kept h =>
    rcases h.positive hhealthy e he with ⟨he, -⟩ | ⟨heq, hdocument⟩
    · exact hrevoked (h.healthy hhealthy) e he horigin
    · rw [hdocument]
      exact hes _ (List.mem_singleton.mpr rfl) document ⟨kept, by rw [← horigin, heq]⟩
  | lookup h => exact hrevoked (h.healthy hhealthy) e (h.positive ▸ he) horigin
  | recheck h => exact hrevoked (h.healthy hhealthy) e (h.positive ▸ he) horigin

/-- A commit of a set without a key revokes it. -/
theorem Committed.revoked {document : DirectoryDocument} (h : Committed c origin document c')
    (hremoved : ¬ document.jwks.Contains thumbprint) : Revoked c' origin thumbprint := by
  intro hhealthy e he horigin
  rcases h.positive hhealthy e he with ⟨-, hne⟩ | ⟨-, hdocument⟩
  · exact absurd horigin hne
  · rwa [hdocument]

/-- Selections have different numbers. -/
def Numbered (c : DirectoryCache) : Prop := ∀ e ∈ c.selections, e.1 < c.selections.length

theorem StepOf.numbered (h : StepOf c es c') (hnumbered : Numbered c) : Numbered c' := by
  cases h with
  | silent h => rwa [Numbered, h.selections]
  | commit h => rwa [Numbered, h.selections]
  | recheck h => rwa [Numbered, h.selections]
  | @lookup _ _ _ result h =>
    cases result with
    | missing reason => rwa [Numbered, h.missing ⟨reason, rfl⟩]
    | found selection =>
      obtain ⟨-, hid, hselections, -⟩ := h.found selection rfl
      intro e he
      rw [hselections, List.length_append, List.length_singleton]
      rw [hselections] at he
      rcases List.mem_append.mp he with he | he
      · exact (hnumbered e he).trans (Nat.lt_succ_self _)
      · obtain rfl := List.mem_singleton.mp he
        exact hid ▸ Nat.lt_succ_self _

/-- A selection stays as it is. -/
theorem StepOf.selected (h : StepOf c es c') {selection : ℕ} {selected : Selected}
    (hselected : OrderedMap.lookup c.selections selection = some selected) :
    OrderedMap.lookup c'.selections selection = some selected := by
  cases h with
  | silent h => rwa [h.selections]
  | commit h => rwa [h.selections]
  | recheck h => rwa [h.selections]
  | @lookup _ _ _ result h =>
    cases result with
    | missing reason => rwa [h.missing ⟨reason, rfl⟩]
    | found selection =>
      obtain ⟨-, -, hselections, -⟩ := h.found selection rfl
      rw [hselections, OrderedMap.lookup_append, hselected]
      rfl

/-- What a lookup has found is what is known of the selection. -/
theorem StepOf.issued (h : StepOf c es c') (hnumbered : Numbered c)
    {selection : DirectoryKeySelection} (hfound : .lookedUp origin thumbprint (.found selection) ∈ es) :
    OrderedMap.lookup c'.selections selection.id = some ⟨origin, thumbprint⟩ := by
  cases h with
  | silent => simp at hfound
  | commit => simp at hfound
  | recheck => simp at hfound
  | lookup h =>
    obtain ⟨rfl, rfl, rfl⟩ := CacheEvent.lookedUp.inj (List.mem_singleton.mp hfound)
    obtain ⟨-, hid, hselections, -⟩ := h.found selection rfl
    have hfresh : OrderedMap.lookup c.selections selection.id = none := by
      by_contra hsome
      obtain ⟨e, he, hkey⟩ := List.mem_map.mp
        (OrderedMap.lookup_isSome.mp (Option.isSome_iff_ne_none.mpr hsome))
      have hlt := hnumbered e he
      omega
    rw [hselections, OrderedMap.lookup_append, hfresh]
    simp [OrderedMap.lookup]

/-- What the history says of a cache. -/
structure HistoryOf (es : List CacheEvent) (c : DirectoryCache) : Prop where
  numbered : Numbered c
  issued : ∀ origin thumbprint selection, .lookedUp origin thumbprint (.found selection) ∈ es →
    OrderedMap.lookup c.selections selection.id = some ⟨origin, thumbprint⟩
  revoked : ∀ pre origin document kept mid thumbprint, es = pre ++ .committed origin document kept :: mid →
    ¬ document.jwks.Contains thumbprint → NotReintroduced origin thumbprint mid →
    Revoked c origin thumbprint

/-- One operation keeps what the history says. -/
theorem HistoryOf.step {fs : List CacheEvent} (h : HistoryOf es c) (hstep : StepOf c fs c') :
    HistoryOf (es ++ fs) c' := by
  refine ⟨hstep.numbered h.numbered, fun origin thumbprint selection hfound => ?_,
    fun pre origin document kept mid thumbprint heq hremoved hmid => ?_⟩
  · rcases List.mem_append.mp hfound with hfound | hfound
    · exact hstep.selected (h.issued origin thumbprint selection hfound)
    · exact hstep.issued h.numbered hfound
  · rcases append_eq_append_cons heq with ⟨mid', rfl, rfl⟩ | ⟨pre', rfl, rfl⟩
    · have hearlier : NotReintroduced origin thumbprint mid' := fun e he =>
        hmid e (List.mem_append_left _ he)
      exact hstep.revoked (h.revoked pre origin document kept mid' thumbprint rfl hremoved hearlier)
        fun e he => hmid e (List.mem_append_right _ he)
    · generalize hfs : pre' ++ .committed origin document kept :: mid = fs at hstep
      cases hstep with
      | silent => simp at hfs
      | commit hcommitted =>
        cases pre' with
        | cons => simp at hfs
        | nil =>
          obtain ⟨rfl, rfl, -⟩ := CacheEvent.committed.inj (List.cons.inj hfs).1
          exact hcommitted.revoked hremoved
      | lookup => cases pre' <;> simp at hfs
      | recheck => cases pre' <;> simp at hfs

/-! ## Runs -/

variable {operations : List (CacheOperation ρ × Sample)}

/-- The operations are steps. -/
theorem steps_run (c : DirectoryCache) : Run (· = c) (Steps read O A) (c.run read O A operations).2
    (c.run read O A operations).1 := by
  induction operations generalizing c with
  | nil => exact .init rfl
  | cons e operations ih =>
    have hnone : Run (· = c) (Steps read O A) [] c := .init rfl
    have hstep : Steps read O A c (c.step read O A e.2 e.1).2 (c.step read O A e.2 e.1).1 :=
      ⟨e.2, e.1, rfl⟩
    exact (hnone.step hstep).append (ih _)

/-- What the history says, of every run of a new cache. -/
theorem historyOf_of_run {options : DirectoryCacheConfiguration}
    (h : Run (· = create options) (Steps read O A) es c) : HistoryOf es c := by
  refine h.invariant (fun c hc => ?_) fun _ hhistory hstep => ?_
  · subst hc
    exact ⟨by simp [Numbered, create], by simp, by simp⟩
  · obtain ⟨sample, operation, hstep⟩ := hstep
    exact hhistory.step (stepOf_step hstep)

/-- A selection stays as it is in the rest of a run. -/
theorem selected_of_run (h : Run (· = c) (Steps read O A) es c') {selection : ℕ} {selected : Selected}
    (hselected : OrderedMap.lookup c.selections selection = some selected) :
    OrderedMap.lookup c'.selections selection = some selected := by
  refine h.invariant (I := fun _ c' => OrderedMap.lookup c'.selections selection = some selected)
    (fun c'' heq => heq ▸ hselected) fun _ ih hstep => ?_
  obtain ⟨sample, operation, hstep⟩ := hstep
  exact (stepOf_step hstep).selected ih

/-- A key that was removed is not found until it is reintroduced. -/
theorem not_found_of_removed {options : DirectoryCacheConfiguration}
    (h : Run (· = create options) (Steps read O A) es c) {pre mid post : List CacheEvent}
    {document : DirectoryDocument} {kept : Bool} {e : CacheEvent}
    (hes : es = pre ++ .committed origin document kept :: (mid ++ e :: post))
    (hremoved : ¬ document.jwks.Contains thumbprint) (hmid : NotReintroduced origin thumbprint mid) :
    (∀ selection, e ≠ .lookedUp origin thumbprint (.found selection)) ∧
      ∀ selection, .lookedUp origin thumbprint (.found selection) ∈ es →
        e ≠ .rechecked selection.id true := by
  have hes' : es = (pre ++ .committed origin document kept :: mid) ++ e :: post := by simp [hes]
  obtain ⟨pre', start, stop, post', before, after, hpre, -, hrun, ⟨sample, operation, hstep⟩, hpost⟩ :=
    h.exists_step_at hes'
  have hrest := hpost
  have hstepOf := stepOf_step hstep
  have hstart : start = [] := by
    generalize hfs : start ++ e :: stop = fs at hstepOf
    cases hstepOf <;> cases start <;> simp_all
  rw [hstart, List.append_nil] at hpre
  rw [hstart, List.nil_append] at hstepOf
  have hrevoked : Revoked before origin thumbprint :=
    (historyOf_of_run hrun).revoked pre origin document kept mid thumbprint hpre.symm hremoved hmid
  constructor
  · rintro selection rfl
    cases hstepOf with
    | lookup hlookedUp =>
      obtain ⟨hhealthy, -, -, entry, hentry, hcontains⟩ := hlookedUp.found selection rfl
      exact hrevoked hhealthy (origin, entry) hentry rfl hcontains
  · rintro selection hissued rfl
    have hknown := (historyOf_of_run h).issued origin thumbprint selection hissued
    cases hstepOf with
    | recheck hsame hresult =>
      obtain ⟨hhealthy, selected, entry, hselected, hentry, hcontains⟩ := hresult rfl
      have hlater : OrderedMap.lookup c.selections selection.id = some selected :=
        selected_of_run hpost (hsame.selections ▸ hselected)
      obtain rfl := Option.some.inj (hlater.symm.trans hknown)
      exact hrevoked hhealthy _ hentry rfl hcontains

/-- A response that cannot be prepared changes nothing. -/
theorem step_of_error {response : ρ} {e : DirectoryError} (hread : read response = .error e)
    (originInput : Text) :
    c.step read O A sample (.prepare response) = (c, []) ∧
      c.step read O A sample (.replace originInput response) = (c, []) := by
  have hprepare : c.prepare read response = (c, .error e) := by
    simp only [prepare, hread]
  refine ⟨by rw [step, hprepare], ?_⟩
  rw [step, replace, hprepare]
  cases configuredOrigin O originInput <;> rfl

/-- A step that changes nothing may be left out. -/
theorem run_of_silent {before after : List (CacheOperation ρ × Sample)} {operation : CacheOperation ρ}
    (hsilent : ∀ c : DirectoryCache, c.step read O A sample operation = (c, [])) :
    c.run read O A (before ++ (operation, sample) :: after) = c.run read O A (before ++ after) := by
  induction before generalizing c with
  | nil => simp only [List.nil_append, run, hsilent]
  | cons e before ih => simp only [List.cons_append, run, ih]

end DirectoryCache

/-- In every sequence of operations of a cache, with any options and any samples of the clock: after a
commit at an origin of a set that does not have a key, no lookup of the key at the origin finds it, and
no recheck of a selection of the key at the origin succeeds, until a set with the key is committed at the
origin, whether the sets were kept or not. A response that cannot be prepared leaves the results of all
other operations as they are. -/
theorem removal_authoritative {ρ : Type} (read : ρ → Except DirectoryError PreparedDirectory)
    (O : OriginPlatform) (A : Rounding) (options : DirectoryCacheConfiguration) :
    (∀ operations pre origin document kept mid e post thumbprint,
      ((DirectoryCache.create options).run read O A operations).2 =
        pre ++ .committed origin document kept :: (mid ++ e :: post) →
      ¬ document.jwks.Contains thumbprint → DirectoryCache.NotReintroduced origin thumbprint mid →
      (∀ selection, e ≠ .lookedUp origin thumbprint (.found selection)) ∧
      ∀ selection, .lookedUp origin thumbprint (.found selection) ∈
          ((DirectoryCache.create options).run read O A operations).2 →
        e ≠ .rechecked selection.id true) ∧
    ∀ before after sample response e, read response = .error e →
      (DirectoryCache.create options).run read O A (before ++ (.prepare response, sample) :: after) =
        (DirectoryCache.create options).run read O A (before ++ after) ∧
      ∀ originInput, (DirectoryCache.create options).run read O A
          (before ++ (.replace originInput response, sample) :: after) =
        (DirectoryCache.create options).run read O A (before ++ after) := by
  constructor
  · intro operations pre origin document kept mid e post thumbprint hes hremoved hmid
    exact DirectoryCache.not_found_of_removed (DirectoryCache.steps_run _) hes hremoved hmid
  · intro before after sample response e hread
    refine ⟨DirectoryCache.run_of_silent fun c => ?_, fun originInput =>
      DirectoryCache.run_of_silent fun c => ?_⟩
    · exact (DirectoryCache.step_of_error hread []).1
    · exact (DirectoryCache.step_of_error hread originInput).2

/-- A key of an example. -/
def exampleKey : LoadedVerificationKey := ⟨0, none, ascii "k", [], false⟩

/-- Responses with the keys of an example: the second must not be stored, the third cannot be prepared. -/
def exampleRead : ℕ → Except DirectoryError PreparedDirectory
  | 0 => .ok ⟨⟨⟨[exampleKey], []⟩, 10⟩, ⟨true, .finite 1000, .finite 0⟩⟩
  | 1 => .ok ⟨⟨⟨[], []⟩, 10⟩, ⟨false, .finite 0, .finite 0⟩⟩
  | _ => .error (.document "directory must contain bounded valid public JWKS" none)

/-- The default options. -/
def defaultOptions : DirectoryCacheConfiguration :=
  ⟨60, 1000, 16777216, 1000, ⟨60, 300, by decide⟩, by decide⟩

/-- A key is selected and then removed. -/
def exampleOperations : List (CacheOperation ℕ × Sample) :=
  [(.replace (ascii "https://a.test") 0, some 0), (.lookup (ascii "https://a.test") (ascii "k"), some 1),
    (.replace (ascii "https://a.test") 1, some 2), (.recheck 0, some 3)]

/-- What the history records of the operations. -/
def exampleEvents : List CacheEvent :=
  [.committed (ascii "https://a.test") ⟨⟨[exampleKey], []⟩, 10⟩ true,
    .lookedUp (ascii "https://a.test") (ascii "k") (.found ⟨0, ascii "https://a.test", exampleKey⟩),
    .committed (ascii "https://a.test") ⟨⟨[], []⟩, 10⟩ false, .rechecked 0 false]

theorem removal_authoritative_example :
    ((DirectoryCache.create defaultOptions).run exampleRead spelledOrigins .exact exampleOperations).2 =
        exampleEvents ∧
      (∀ selection, .lookedUp (ascii "https://a.test") (ascii "k") (.found selection) ∈ exampleEvents →
        CacheEvent.rechecked 0 false ≠ .rechecked selection.id true) ∧
      (DirectoryCache.create defaultOptions).run exampleRead spelledOrigins .exact
          ([] ++ (.prepare 2, none) :: exampleOperations) =
        (DirectoryCache.create defaultOptions).run exampleRead spelledOrigins .exact
          ([] ++ exampleOperations) := by
  have hevents : ((DirectoryCache.create defaultOptions).run exampleRead spelledOrigins .exact
      exampleOperations).2 = exampleEvents := by decide +kernel
  have hremoved : ¬ (⟨[], []⟩ : LoadedJwks).Contains (ascii "k") := by simp [LoadedJwks.Contains]
  have hmid : DirectoryCache.NotReintroduced (ascii "https://a.test") (ascii "k") [] := by
    simp [DirectoryCache.NotReintroduced]
  obtain ⟨hfound, hsilent⟩ :=
    removal_authoritative exampleRead spelledOrigins .exact defaultOptions
  refine ⟨hevents, ?_, (hsilent [] exampleOperations none 2 _ rfl).1⟩
  have hnot := (hfound exampleOperations (exampleEvents.take 2) (ascii "https://a.test")
    ⟨⟨[], []⟩, 10⟩ false [] (.rechecked 0 false) [] (ascii "k") hevents hremoved hmid).2
  rwa [hevents] at hnot

end AgentSig.Discovery
