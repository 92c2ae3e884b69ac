import AgentSig.Discovery.FreshnessRules

/-!
# What headers say of freshness

The pass over the headers, with its flags and its maps, finds out what the lines of each field say, taken
together. The budget bounds their total size.

## Main definitions

* `HeaderSummary`, `summary`: what the lines of the fields say
* `Matches`: a scan has found out what a summary says
* `totalBytes`: the size of the headers

## Main results

* `matches_scanHeader`: a round of the loop adds a line
* `scanHeaders_spec`: the loop ends within the budget, and has found out what the headers say
-/

namespace AgentSig.Discovery

open Commons Core Profiles StructuredFields

/-- The values of a field, in order. -/
def fieldLines (name : Text) (headers : List (Text × Text)) : List Text :=
  (headers.filter fun h => toLowerCase h.1 = name).map Prod.snd

/-- The directives of the lines that parse. -/
def listed (lines : List Text) : List Directive := lines.flatMap fun line => (directives line).getD []

/-- A directive that states a lifetime. -/
def Directive.isLifetime (d : Directive) : Bool := d.name = ascii "max-age" ∨ d.name = ascii "s-maxage"

/-- A directive that forbids to keep a response. -/
def Directive.forbids (d : Directive) : Bool := d.name = ascii "no-store" ∨ d.name = ascii "private"

/-- A directive that forbids to use a response again. -/
def Directive.revalidates (d : Directive) : Bool := d.name = ascii "no-cache"

/-- The fields that may occur once. -/
def singleNames : List Text := [ascii "date", ascii "age", ascii "expires"]

/-- What headers say: whether the lines of the lists parse, and their directives, and the values of the
other fields. -/
structure HeaderSummary where
  parsed : Bool
  pragmaParsed : Bool
  control : List Directive
  pragma : List Directive
  single : Text → List Text

namespace HeaderSummary

variable (m : HeaderSummary)

/-- The response may be kept. -/
def persists : Bool := m.parsed && m.control.all fun d => !d.forbids

/-- The response may not be used again. -/
def revalidates : Bool := (m.control ++ m.pragma).any Directive.revalidates

/-- The directives that state lifetimes. -/
def lifetimeFields : List Directive := m.control.filter Directive.isLifetime

/-- The lifetimes that are well formed. -/
def lifetimes : List ℕ := m.lifetimeFields.filterMap fun d => deltaSeconds d.value

/-- Nothing is malformed or repeated. -/
structure WellFormed : Prop where
  parsed : m.parsed
  pragmaParsed : m.pragmaParsed
  once : (m.lifetimeFields.map Directive.name).Nodup
  seconds : ∀ d ∈ m.lifetimeFields, (deltaSeconds d.value).isSome
  single : ∀ name ∈ singleNames, (m.single name).length ≤ 1

end HeaderSummary

/-- What the headers say. -/
def summary (headers : List (Text × Text)) : HeaderSummary where
  parsed := (fieldLines (ascii "cache-control") headers).all fun line => (directives line).isSome
  pragmaParsed := (fieldLines (ascii "pragma") headers).all fun line => (directives line).isSome
  control := listed (fieldLines (ascii "cache-control") headers)
  pragma := listed (fieldLines (ascii "pragma") headers)
  single name := fieldLines name headers

/-- A scan has found out what a summary says. -/
structure Matches (s : FreshnessScan) (m : HeaderSummary) : Prop where
  persist : s.persist = m.persists
  invalid : s.invalid = false ↔ m.WellFormed
  revalidate : s.revalidate = m.revalidates
  lifetimes : s.lifetimes = m.lifetimes
  seen : ∀ name, name ∈ s.seenLifetime ↔ name ∈ m.lifetimeFields.map Directive.name
  single : ∀ name ∈ singleNames, OrderedMap.lookup s.single name = (m.single name).getLast?

variable {s : FreshnessScan} {m : HeaderSummary} {headers : List (Text × Text)}

theorem matches_start : Matches .start (summary []) where
  persist := rfl
  invalid := by
    refine iff_of_true rfl ⟨rfl, rfl, List.nodup_nil, ?_, ?_⟩
    · intro d hd
      exact absurd hd List.not_mem_nil
    · intro name _
      exact Nat.zero_le 1
  revalidate := rfl
  lifetimes := rfl
  seen name := Iff.rfl
  single name _ := rfl

/-! ## Directives -/

/-- What a round for a directive finds out. -/
theorem scanField_eq (pragma : Bool) (s : FreshnessScan) (d : Directive) :
    scanField pragma s d = {
      persist := s.persist && (pragma || !d.forbids)
      invalid := s.invalid || (!pragma && d.isLifetime &&
        (s.seenLifetime.contains d.name || (deltaSeconds d.value).isNone))
      revalidate := s.revalidate || d.revalidates
      bytes := s.bytes
      single := s.single
      lifetimes := s.lifetimes ++ if !pragma && d.isLifetime then (deltaSeconds d.value).toList else []
      seenLifetime := if !pragma && d.isLifetime then d.name :: s.seenLifetime
        else s.seenLifetime } := by
  have hcache : (if d.name = ascii "no-cache" then { s with revalidate := true } else s) =
      { s with revalidate := s.revalidate || d.revalidates } := by
    unfold Directive.revalidates
    split <;> rename_i hname <;> simp [hname]
  unfold scanField
  rw [hcache]
  cases pragma with
  | true => simp
  | false =>
    have hforbids : (if d.name = ascii "no-store" ∨ d.name = ascii "private" then
        { s with revalidate := s.revalidate || d.revalidates, persist := false }
        else { s with revalidate := s.revalidate || d.revalidates }) =
        { s with
          revalidate := s.revalidate || d.revalidates
          persist := s.persist && !d.forbids } := by
      unfold Directive.forbids
      split <;> rename_i hname <;> simp [hname]
    dsimp only
    rw [if_neg Bool.false_ne_true, hforbids]
    by_cases hlifetime : d.name = ascii "max-age" ∨ d.name = ascii "s-maxage"
    · have hknown : d.isLifetime = true := by simpa [Directive.isLifetime] using hlifetime
      rw [if_neg (by tauto)]
      cases hseconds : deltaSeconds d.value <;> simp [hknown]
    · have hother : d.isLifetime = false := by simpa [Directive.isLifetime] using hlifetime
      rw [if_pos (by tauto)]
      simp [hother]

/-- A directive of a `pragma` line. -/
theorem matches_pragmaField (h : Matches s m) (d : Directive) :
    Matches (scanField true s d) { m with pragma := m.pragma ++ [d] } := by
  rw [scanField_eq]
  refine ⟨?_, ?_, ?_, ?_, ?_, h.single⟩
  · rw [h.persist]
    exact Bool.and_true _
  · have hsame : m.WellFormed ↔ ({ m with pragma := m.pragma ++ [d] } : HeaderSummary).WellFormed :=
      ⟨fun h => ⟨h.1, h.2, h.3, h.4, h.5⟩, fun h => ⟨h.1, h.2, h.3, h.4, h.5⟩⟩
    rw [← hsame, ← h.invalid]
    simp
  · rw [h.revalidate]
    simp [HeaderSummary.revalidates, Bool.or_assoc]
  · rw [h.lifetimes]
    exact List.append_nil _
  · exact h.seen

/-- A directive of a `cache-control` line. -/
theorem matches_controlField (h : Matches s m) (d : Directive) :
    Matches (scanField false s d) { m with control := m.control ++ [d] } := by
  have hfields : ({ m with control := m.control ++ [d] } : HeaderSummary).lifetimeFields =
      m.lifetimeFields ++ if d.isLifetime then [d] else [] := by
    rw [HeaderSummary.lifetimeFields, List.filter_append]
    cases hlifetime : d.isLifetime <;> simp [HeaderSummary.lifetimeFields, hlifetime]
  rw [scanField_eq]
  refine ⟨?_, ?_, ?_, ?_, ?_, h.single⟩
  · rw [h.persist]
    simp [HeaderSummary.persists, Bool.and_assoc]
  · have hname : (s.seenLifetime.contains d.name = false) ↔ d.name ∉ m.lifetimeFields.map Directive.name := by
      rw [← h.seen, Bool.eq_false_iff, ne_eq, List.contains_iff_mem]
    have hseconds : (deltaSeconds d.value).isNone = false ↔ (deltaSeconds d.value).isSome := by
      cases deltaSeconds d.value <;> simp
    simp only [Bool.or_eq_false_iff, Bool.not_false, Bool.true_and, Bool.and_eq_false_iff]
    rw [h.invalid, hname, hseconds]
    cases hlifetime : d.isLifetime with
    | false =>
      have hsame : ({ m with control := m.control ++ [d] } : HeaderSummary).lifetimeFields =
          m.lifetimeFields := by
        rw [hfields, hlifetime]
        simp
      constructor
      · rintro ⟨hw, -⟩
        exact ⟨hw.1, hw.2, hsame ▸ hw.3, hsame ▸ hw.4, hw.5⟩
      · intro hw
        exact ⟨⟨hw.1, hw.2, hsame ▸ hw.3, hsame ▸ hw.4, hw.5⟩, .inl rfl⟩
    | true =>
      have hmore : ({ m with control := m.control ++ [d] } : HeaderSummary).lifetimeFields =
          m.lifetimeFields ++ [d] := by
        rw [hfields, hlifetime]
        simp
      have hnodup : (({ m with control := m.control ++ [d] } : HeaderSummary).lifetimeFields.map
          Directive.name).Nodup ↔ (m.lifetimeFields.map Directive.name).Nodup ∧
          d.name ∉ m.lifetimeFields.map Directive.name := by
        rw [hmore, List.map_append, List.map_singleton, List.nodup_append_comm, List.singleton_append,
          List.nodup_cons, and_comm]
      have hsome : (∀ e ∈ ({ m with control := m.control ++ [d] } : HeaderSummary).lifetimeFields,
          (deltaSeconds e.value).isSome) ↔ (∀ e ∈ m.lifetimeFields, (deltaSeconds e.value).isSome) ∧
          (deltaSeconds d.value).isSome := by
        rw [hmore, List.forall_mem_append, List.forall_mem_singleton]
      constructor
      · rintro ⟨hw, hd⟩
        obtain ⟨hnew, hvalue⟩ := hd.resolve_left (by simp)
        exact ⟨hw.1, hw.2, hnodup.mpr ⟨hw.3, hnew⟩, hsome.mpr ⟨hw.4, hvalue⟩, hw.5⟩
      · intro hw
        obtain ⟨hold, hnew⟩ := hnodup.mp hw.3
        obtain ⟨hvalues, hvalue⟩ := hsome.mp hw.4
        exact ⟨⟨hw.1, hw.2, hold, hvalues, hw.5⟩, .inr ⟨hnew, hvalue⟩⟩
  · rw [h.revalidate]
    simp only [HeaderSummary.revalidates, List.any_append, List.any_cons, List.any_nil, Bool.or_false]
    exact Bool.or_right_comm _ _ _
  · rw [HeaderSummary.lifetimes, hfields, List.filterMap_append, h.lifetimes]
    cases hlifetime : d.isLifetime with
    | false => rfl
    | true => cases hseconds : deltaSeconds d.value <;> simp [hseconds, HeaderSummary.lifetimes]
  · intro name
    rw [hfields, List.map_append, List.mem_append, ← h.seen]
    cases hlifetime : d.isLifetime with
    | false => simp
    | true =>
      simp only [Bool.not_false, Bool.true_and, if_true, List.map_singleton, List.mem_cons,
        List.not_mem_nil, or_false]
      exact or_comm

/-- The directives of a line. -/
theorem matches_pragmaFields (h : Matches s m) (fields : List Directive) :
    Matches (fields.foldl (scanField true) s) { m with pragma := m.pragma ++ fields } := by
  induction fields generalizing s m with
  | nil => simpa using h
  | cons d fields ih => simpa using ih (matches_pragmaField h d)

theorem matches_controlFields (h : Matches s m) (fields : List Directive) :
    Matches (fields.foldl (scanField false) s) { m with control := m.control ++ fields } := by
  induction fields generalizing s m with
  | nil => simpa using h
  | cons d fields ih => simpa using ih (matches_controlField h d)

/-! ## Lines -/

theorem fieldLines_append (name : Text) (headers headers' : List (Text × Text)) :
    fieldLines name (headers ++ headers') = fieldLines name headers ++ fieldLines name headers' := by
  simp [fieldLines]

theorem fieldLines_singleton (name rawName value : Text) :
    fieldLines name [(rawName, value)] = if toLowerCase rawName = name then [value] else [] := by
  unfold fieldLines
  split <;> rename_i hname <;> simp [hname]

theorem listed_append (lines lines' : List Text) : listed (lines ++ lines') = listed lines ++ listed lines' :=
  List.flatMap_append

/-- The budget does not matter for what is found out. -/
theorem Matches.charge (h : Matches s m) (bytes : ℕ) : Matches { s with bytes } m :=
  ⟨h.persist, h.invalid, h.revalidate, h.lifetimes, h.seen, h.single⟩

/-- Only what a summary says matters. -/
theorem Matches.congr {m' : HeaderSummary} (h : Matches s m) (hparsed : m.parsed = m'.parsed)
    (hpragma : m.pragmaParsed = m'.pragmaParsed) (hcontrol : m.control = m'.control)
    (hlist : m.pragma = m'.pragma) (hsingle : ∀ name ∈ singleNames, m.single name = m'.single name) :
    Matches s m' := by
  obtain ⟨parsed, pragmaParsed, control, pragma, single⟩ := m
  obtain ⟨parsed', pragmaParsed', control', pragma', single'⟩ := m'
  dsimp only at hparsed hpragma hcontrol hlist hsingle
  subst hparsed hpragma hcontrol hlist
  refine ⟨h.persist, h.invalid.trans ⟨fun hw => ?_, fun hw => ?_⟩, h.revalidate, h.lifetimes, h.seen,
    fun name hmem => ?_⟩
  · refine ⟨hw.1, hw.2, hw.3, hw.4, fun name hmem => ?_⟩
    dsimp only
    rw [← hsingle name hmem]
    exact hw.5 name hmem
  · refine ⟨hw.1, hw.2, hw.3, hw.4, fun name hmem => ?_⟩
    dsimp only
    rw [hsingle name hmem]
    exact hw.5 name hmem
  · dsimp only
    rw [← hsingle name hmem]
    exact h.single name hmem

/-- A line of `cache-control` that does not parse. -/
theorem matches_unparsedControl (h : Matches s m) :
    Matches { s with invalid := true, persist := false } { m with parsed := false } where
  persist := rfl
  invalid := by
    refine iff_of_false (by simp) fun hw => ?_
    exact absurd hw.parsed Bool.false_ne_true
  revalidate := h.revalidate
  lifetimes := h.lifetimes
  seen := h.seen
  single := h.single

/-- A line of `pragma` that does not parse. -/
theorem matches_unparsedPragma (h : Matches s m) :
    Matches { s with invalid := true } { m with pragmaParsed := false } where
  persist := h.persist
  invalid := by
    refine iff_of_false (by simp) fun hw => ?_
    exact absurd hw.pragmaParsed Bool.false_ne_true
  revalidate := h.revalidate
  lifetimes := h.lifetimes
  seen := h.seen
  single := h.single

/-- A line of a field that may occur once. -/
theorem matches_singleLine (h : Matches s m) {name : Text} (hname : name ∈ singleNames) (value : Text) :
    Matches { s with
        invalid := s.invalid || (OrderedMap.lookup s.single name).isSome
        single := OrderedMap.set s.single name value }
      { m with single := Function.update m.single name (m.single name ++ [value]) } where
  persist := h.persist
  invalid := by
    have hseen : (OrderedMap.lookup s.single name).isSome = false ↔ m.single name = [] := by
      rw [h.single name hname]
      simp
    rw [Bool.or_eq_false_iff, h.invalid, hseen]
    constructor
    · rintro ⟨hw, hnone⟩
      refine ⟨hw.1, hw.2, hw.3, hw.4, fun other hother => ?_⟩
      by_cases heq : other = name
      · subst heq
        simp [hnone]
      · simpa [Function.update_of_ne heq] using hw.5 other hother
    · intro hw
      have hlength : (m.single name ++ [value]).length ≤ 1 := by simpa using hw.5 name hname
      have hnone : m.single name = [] := by
        rw [← List.length_eq_zero_iff]
        rw [List.length_append, List.length_singleton] at hlength
        omega
      refine ⟨⟨hw.1, hw.2, hw.3, hw.4, fun other hother => ?_⟩, hnone⟩
      by_cases heq : other = name
      · subst heq
        simp [hnone]
      · simpa [Function.update_of_ne heq] using hw.5 other hother
  revalidate := h.revalidate
  lifetimes := h.lifetimes
  seen := h.seen
  single other hother := by
    rw [OrderedMap.lookup_set]
    by_cases heq : other = name
    · subst heq
      simp
    · simpa [heq, Ne.symm heq, Function.update_of_ne heq] using h.single other hother

theorem lines_unparsed {value : Text} (h : directives value = none) (lines : List Text) :
    ((lines ++ [value]).all fun line => (directives line).isSome) = false ∧
      listed (lines ++ [value]) = listed lines := by
  simp [listed, h]

theorem lines_parsed {value : Text} {fields : List Directive} (h : directives value = some fields)
    (lines : List Text) :
    ((lines ++ [value]).all fun line => (directives line).isSome) =
        (lines.all fun line => (directives line).isSome) ∧
      listed (lines ++ [value]) = listed lines ++ fields := by
  simp [listed, h]

/-- **A round of the loop adds a line.** -/
theorem matches_scanHeader (h : Matches s (summary headers)) (rawName value : Text) :
    Matches (scanHeader s rawName value) (summary (headers ++ [(rawName, value)])) := by
  have hlines (name : Text) : fieldLines name (headers ++ [(rawName, value)]) =
      if toLowerCase rawName = name then fieldLines name headers ++ [value]
      else fieldLines name headers := by
    rw [fieldLines_append, fieldLines_singleton]
    split
    · rfl
    · exact List.append_nil _
  have hother {known : Text} (hknown : toLowerCase rawName = known) {name : Text} (hne : known ≠ name) :
      fieldLines name (headers ++ [(rawName, value)]) = fieldLines name headers := by
    rw [hlines, hknown, if_neg hne]
  have hsame {known : Text} (hknown : toLowerCase rawName = known) :
      fieldLines known (headers ++ [(rawName, value)]) = fieldLines known headers ++ [value] := by
    rw [hlines, if_pos hknown]
  unfold scanHeader
  dsimp only
  by_cases hcontrol : toLowerCase rawName = ascii "cache-control"
  · rw [if_pos (.inl hcontrol)]
    have hrest (name : Text) (hmem : name ∈ singleNames) :
        fieldLines name headers = fieldLines name (headers ++ [(rawName, value)]) :=
      (hother hcontrol (by rintro rfl; exact absurd hmem (by decide))).symm
    have hpragma := hother hcontrol (show ascii "cache-control" ≠ ascii "pragma" by decide)
    cases hfields : directives value with
    | none =>
      obtain ⟨hparsed, hlisted⟩ := lines_unparsed hfields (fieldLines (ascii "cache-control") headers)
      have hresult := matches_unparsedControl h
      rw [hcontrol]
      simp only [ne_eq, not_true_eq_false, decide_false, Bool.and_false]
      refine hresult.congr ?_ ?_ ?_ ?_ hrest
      · simp only [summary, hsame hcontrol, hparsed]
      · simp only [summary, hpragma]
      · simp only [summary, hsame hcontrol, hlisted]
      · simp only [summary, hpragma]
    | some fields =>
      obtain ⟨hparsed, hlisted⟩ := lines_parsed hfields (fieldLines (ascii "cache-control") headers)
      have hpragma' : decide (toLowerCase rawName = ascii "pragma") = false := by
        rw [hcontrol]
        decide
      have hresult := matches_controlFields h fields
      dsimp only
      rw [hpragma']
      refine hresult.congr ?_ ?_ ?_ ?_ hrest
      · simp only [summary, hsame hcontrol, hparsed]
      · simp only [summary, hpragma]
      · simp only [summary, hsame hcontrol, hlisted]
      · simp only [summary, hpragma]
  · by_cases hpragma : toLowerCase rawName = ascii "pragma"
    · rw [if_pos (.inr hpragma)]
      have hrest (name : Text) (hmem : name ∈ singleNames) :
          fieldLines name headers = fieldLines name (headers ++ [(rawName, value)]) :=
        (hother hpragma (by rintro rfl; exact absurd hmem (by decide))).symm
      have hlist := hother hpragma (show ascii "pragma" ≠ ascii "cache-control" by decide)
      cases hfields : directives value with
      | none =>
        obtain ⟨hparsed, hlisted⟩ := lines_unparsed hfields (fieldLines (ascii "pragma") headers)
        have hresult := matches_unparsedPragma h
        simp only [ne_eq, hcontrol, not_false_eq_true, decide_true, Bool.and_true]
        refine hresult.congr ?_ ?_ ?_ ?_ hrest
        · simp only [summary, hlist]
        · simp only [summary, hsame hpragma, hparsed]
        · simp only [summary, hlist]
        · simp only [summary, hsame hpragma, hlisted]
      | some fields =>
        obtain ⟨hparsed, hlisted⟩ := lines_parsed hfields (fieldLines (ascii "pragma") headers)
        have hresult := matches_pragmaFields h fields
        simp only [hpragma, decide_true]
        refine hresult.congr ?_ ?_ ?_ ?_ hrest
        · simp only [summary, hlist]
        · simp only [summary, hsame hpragma, hparsed]
        · simp only [summary, hlist]
        · simp only [summary, hsame hpragma, hlisted]
    · rw [if_neg (by tauto)]
      have hcontrolLines : fieldLines (ascii "cache-control") (headers ++ [(rawName, value)]) =
          fieldLines (ascii "cache-control") headers := by rw [hlines, if_neg hcontrol]
      have hpragmaLines : fieldLines (ascii "pragma") (headers ++ [(rawName, value)]) =
          fieldLines (ascii "pragma") headers := by rw [hlines, if_neg hpragma]
      have hmem : toLowerCase rawName ∈ singleNames ↔ toLowerCase rawName = ascii "date" ∨
          toLowerCase rawName = ascii "age" ∨ toLowerCase rawName = ascii "expires" := by
        simp [singleNames]
      split
      · rename_i hsingle
        have hresult := matches_singleLine h (hmem.mpr hsingle) value
        refine hresult.congr ?_ ?_ ?_ ?_ fun name hname => ?_
        · simp only [summary, hcontrolLines]
        · simp only [summary, hpragmaLines]
        · simp only [summary, hcontrolLines]
        · simp only [summary, hpragmaLines]
        · simp only [summary, hlines]
          by_cases heq : toLowerCase rawName = name
          · subst heq
            simp
          · rw [if_neg heq, Function.update_of_ne (Ne.symm heq)]
      · rename_i hsingle
        refine h.congr ?_ ?_ ?_ ?_ fun name hname => ?_
        · simp only [summary, hcontrolLines]
        · simp only [summary, hpragmaLines]
        · simp only [summary, hcontrolLines]
        · simp only [summary, hpragmaLines]
        · simp only [summary, hlines]
          rw [if_neg]
          rintro rfl
          exact hsingle (hmem.mp hname)

/-! ## The budget -/

/-- The size of the headers. -/
def totalBytes (headers : List (Text × Text)) : ℕ :=
  (headers.map fun h => byteLength h.1 + byteLength h.2 + 4).sum

theorem unitBytes_pos (c : UInt16) : 1 ≤ unitBytes c := by
  unfold unitBytes
  split
  · exact le_rfl
  · split <;> omega

theorem length_le_byteLength (t : Text) : t.length ≤ byteLength t := by
  fun_induction byteLength t with
  | case1 => exact le_rfl
  | case2 c => exact unitBytes_pos c
  | case3 high low rest hpair ih =>
    simp only [List.length_cons]
    omega
  | case4 high low rest hpair ih =>
    have hunit := unitBytes_pos high
    simp only [List.length_cons] at ih ⊢
    omega

theorem four_mul_length_le_totalBytes (headers : List (Text × Text)) :
    4 * headers.length ≤ totalBytes headers := by
  induction headers with
  | nil => exact le_rfl
  | cons h headers ih =>
    have hcons : totalBytes (h :: headers) =
        byteLength h.1 + byteLength h.2 + 4 + totalBytes headers := by simp [totalBytes]
    rw [hcons, List.length_cons]
    omega

theorem bytes_scanField (pragma : Bool) (fields : List Directive) (s : FreshnessScan) :
    (fields.foldl (scanField pragma) s).bytes = s.bytes := by
  induction fields generalizing s with
  | nil => rfl
  | cons d fields ih => rw [List.foldl_cons, ih, scanField_eq]

theorem bytes_scanHeader (s : FreshnessScan) (rawName value : Text) :
    (scanHeader s rawName value).bytes = s.bytes := by
  unfold scanHeader
  dsimp only
  split
  · split
    · rfl
    · exact bytes_scanField _ _ _
  · split <;> rfl

/-- The loop goes on from what it has found out. -/
theorem scanHeaders_run (h : Matches s (summary headers)) (rest : List (Text × Text)) :
    if s.bytes + totalBytes rest ≤ 16384 ∨ rest = [] then
      ∃ s', scanHeaders s rest = some s' ∧ Matches s' (summary (headers ++ rest))
    else scanHeaders s rest = none := by
  induction rest generalizing s headers with
  | nil =>
    rw [if_pos (.inr rfl)]
    exact ⟨s, rfl, by simpa using h⟩
  | cons e rest ih =>
    obtain ⟨rawName, value⟩ := e
    have hcons : totalBytes ((rawName, value) :: rest) =
        byteLength rawName + byteLength value + 4 + totalBytes rest := by simp [totalBytes]
    have hname := length_le_byteLength rawName
    have hvalue := length_le_byteLength value
    let t := scanHeader { s with bytes := s.bytes + (byteLength rawName + byteLength value + 4) } rawName
      value
    have hbytes : t.bytes = s.bytes + (byteLength rawName + byteLength value + 4) :=
      bytes_scanHeader _ _ _
    have hnext := ih (matches_scanHeader (h.charge (s.bytes + (byteLength rawName + byteLength value + 4)))
      rawName value)
    rw [hcons]
    rw [show scanHeader _ rawName value = t from rfl, hbytes, List.append_assoc, List.singleton_append]
      at hnext
    unfold scanHeaders
    dsimp only
    have hempty : rest = [] → totalBytes rest = 0 := by
      rintro rfl
      rfl
    by_cases hfits : s.bytes + (byteLength rawName + byteLength value + 4 + totalBytes rest) ≤ 16384
    · rw [if_pos (.inl hfits), if_neg (by omega), if_neg (by omega)]
      rwa [if_pos (.inl (by omega))] at hnext
    · rw [if_neg (by simpa using hfits)]
      split
      · rfl
      · split
        · rfl
        · rename_i hone
          rwa [if_neg] at hnext
          rintro (hsmall | hnil)
          · omega
          · have := hempty hnil
            omega

/-- **The loop ends within the budget**, and has then found out what the headers say. -/
theorem scanHeaders_spec (headers : List (Text × Text)) :
    if totalBytes headers ≤ 16384 then
      ∃ s, scanHeaders .start headers = some s ∧ Matches s (summary headers)
    else scanHeaders .start headers = none := by
  have hrun := scanHeaders_run matches_start headers
  rw [List.nil_append] at hrun
  by_cases hfits : totalBytes headers ≤ 16384
  · rw [if_pos hfits]
    rwa [if_pos (.inl (by simpa [FreshnessScan.start] using hfits))] at hrun
  · rw [if_neg hfits]
    rwa [if_neg] at hrun
    rintro (hsmall | rfl)
    · exact hfits (by simpa [FreshnessScan.start] using hsmall)
    · exact hfits (Nat.zero_le _)

/-- The calculation within the budget. -/
theorem calculateDirectoryFreshness_eq (A : Rounding) (response : FreshnessResponse)
    (policy : DirectoryFreshnessPolicy) :
    (16384 < totalBytes response.headers ∧ calculateDirectoryFreshness A response policy =
        ⟨false, .finite 0, response.responseReceivedMonotonicMs⟩) ∨
      totalBytes response.headers ≤ 16384 ∧ ∃ s, Matches s (summary response.headers) ∧
        calculateDirectoryFreshness A response policy = concludeFreshness A response policy s := by
  have hspec := scanHeaders_spec response.headers
  have hcount := four_mul_length_le_totalBytes response.headers
  unfold calculateDirectoryFreshness
  dsimp only
  by_cases hfits : totalBytes response.headers ≤ 16384
  · rw [if_pos hfits] at hspec
    obtain ⟨s, hs, hmatches⟩ := hspec
    rw [if_neg (by omega), hs]
    exact .inr ⟨hfits, s, hmatches, rfl⟩
  · rw [if_neg hfits] at hspec
    refine .inl ⟨by omega, ?_⟩
    split
    · rfl
    · rw [hspec]

end AgentSig.Discovery
