import AgentSig.Discovery.HeaderSummary

/-!
# Freshness is conservative

Evidence is fresh only where every rule of the response has been read, none was broken, and the time since
the request, or since the receipt, is within the lifetime that the rules leave. The order of the headers, the
case of their names and the lines that a list is spread on do not matter.

## Main definitions

* `Conservative`: what holds of a response that is fresh
* `lifetimeBound`: the lifetime of a response
* `HeadersRespelled`: the ways in which headers are rewritten

## Main results

* `isDirectoryFresh_conservative`: **a fresh response keeps every rule**
* `calculateDirectoryFreshness_respelled`: **rewritten headers leave the same time**
-/

namespace AgentSig.Discovery

open Commons Core Profiles StructuredFields

variable {s : FreshnessScan} {response : FreshnessResponse} {policy : DirectoryFreshnessPolicy} {now : ℚ}

/-- The age that headers state, in seconds. -/
def statedAge (m : HeaderSummary) : Option ℕ :=
  match (m.single (ascii "age")).getLast? with
  | none => some 0
  | some value => deltaSeconds (some value)

/-- A date that headers state. -/
def statedDate (m : HeaderSummary) (name : Text) : Option ℤ :=
  (m.single name).getLast?.bind httpDate

/-- The lifetime of a response in seconds: at most the maximum, and the smallest of the lifetimes that are
given, or else the time from `Date` to `Expires`, or else the fallback. -/
def lifetimeBound (policy : DirectoryFreshnessPolicy) (m : HeaderSummary) : ℚ :=
  min policy.maximumLifetimeSeconds (match m.lifetimes.min? with
    | some least => least
    | none =>
      match statedDate m (ascii "date"), statedDate m (ascii "expires") with
      | some date, some expires => (expires - date) / 1000
      | _, _ => policy.fallbackSeconds)

/-- What holds of a response that is fresh at a time: every rule was read, none was broken, and the time is
within the lifetime, counted from the request with the age, and from the receipt with the age by the date. -/
structure Conservative (response : FreshnessResponse) (policy : DirectoryFreshnessPolicy) (now : ℚ) :
    Prop where
  control : ∀ line ∈ fieldLines (ascii "cache-control") response.headers, ∃ fields,
    directives line = some fields ∧ ∀ d ∈ fields, d.forbids = false ∧ d.revalidates = false
  pragma : ∀ line ∈ fieldLines (ascii "pragma") response.headers, ∃ fields,
    directives line = some fields ∧ ∀ d ∈ fields, d.revalidates = false
  once : ((summary response.headers).lifetimeFields.map Directive.name).Nodup
  seconds : ∀ d ∈ (summary response.headers).lifetimeFields, (deltaSeconds d.value).isSome
  single : ∀ name ∈ singleNames, (fieldLines name response.headers).length ≤ 1
  dates : ∀ name ∈ [ascii "date", ascii "expires"], ∀ value ∈ fieldLines name response.headers,
    (httpDate value).isSome
  /-- A response with a date of expiry, but no lifetime, has a date. -/
  dated : (summary response.headers).lifetimes = [] → fieldLines (ascii "expires") response.headers ≠ [] →
    fieldLines (ascii "date") response.headers ≠ []
  times : ∃ started received wall : ℚ, ∃ age : ℕ,
    response.requestStartedMonotonicMs = .finite started ∧
    response.responseReceivedMonotonicMs = .finite received ∧
    response.responseReceivedWallMs = .finite wall ∧ 0 ≤ started ∧ started ≤ received ∧
    received ≤ now ∧ statedAge (summary response.headers) = some age ∧
    now - started + age * 1000 < 1000 * lifetimeBound policy (summary response.headers) ∧
    now - received + (match statedDate (summary response.headers) (ascii "date") with
      | none => 0
      | some date => max 0 (wall - date)) < 1000 * lifetimeBound policy (summary response.headers) ∧
    now - started < 1000 * policy.maximumLifetimeSeconds

/-- What is fresh was kept, and is within the time that remained. -/
theorem isDirectoryFresh_spec {freshness : DirectoryFreshness}
    (h : isDirectoryFresh .exact freshness now) : ∃ received remaining,
      freshness.receivedMonotonicMs = .finite received ∧
      freshness.remainingAtReceiptMs = .finite remaining ∧ freshness.persist ∧ received ≤ now ∧
      0 < remaining ∧ now - received < remaining := by
  unfold isDirectoryFresh at h
  split at h
  · rename_i received remaining hreceived hremaining
    obtain ⟨hpersist, helapsed, hpositive, -, hlt⟩ := of_decide_eq_true h
    exact ⟨received, remaining, hreceived, hremaining, hpersist, by simpa [Rounding.exact] using helapsed,
      hpositive, hlt⟩
  · exact absurd h Bool.false_ne_true

theorem Reading.safe?_eq_some {r : Reading} {value : ℚ} (h : r.safe? = some value) : r = .finite value := by
  unfold Reading.safe? at h
  split at h
  · split at h
    · rw [Option.some.inj h]
    · simp at h
  · simp at h

theorem times?_spec {started received wall : ℚ} (h : response.times? = some (started, received, wall)) :
    response.requestStartedMonotonicMs = .finite started ∧
      response.responseReceivedMonotonicMs = .finite received ∧
      response.responseReceivedWallMs = .finite wall ∧ 0 ≤ started ∧ started ≤ received := by
  simp only [FreshnessResponse.times?, Option.bind_eq_bind, Option.bind_eq_some_iff] at h
  obtain ⟨started', hstarted, received', hreceived, wall', hwall, h⟩ := h
  split at h
  · simp at h
  · rename_i hordered
    obtain ⟨rfl, rfl, rfl⟩ : started' = started ∧ received' = received ∧ wall' = wall := by
      simpa using h
    rw [not_or, not_lt, not_lt] at hordered
    exact ⟨Reading.safe?_eq_some hstarted, Reading.safe?_eq_some hreceived, Reading.safe?_eq_some hwall,
      hordered⟩

/-- Where time remains, every rule was kept. -/
theorem concludeFreshness_spec {remaining : ℚ} (A : Rounding)
    (h : (concludeFreshness A response policy s).remainingAtReceiptMs = .finite remaining)
    (hpositive : 0 < remaining) :
    s.invalid = false ∧ s.revalidate = false ∧ s.persist = true ∧
      (∀ name ∈ [ascii "date", ascii "expires"], ∀ value, OrderedMap.lookup s.single name = some value →
        (httpDate value).isSome) ∧
      ∃ age started received wall seconds,
        (match OrderedMap.lookup s.single (ascii "age") with
          | none => some 0
          | some value => deltaSeconds (some value)) = some age ∧
        response.times? = some (started, received, wall) ∧
        lifetimeSeconds policy s.lifetimes (OrderedMap.lookup s.single (ascii "expires")).isSome
          ((OrderedMap.lookup s.single (ascii "date")).bind httpDate)
          ((OrderedMap.lookup s.single (ascii "expires")).bind httpDate) = some seconds ∧
        remaining = max 0 (A.round (A.round (min seconds policy.maximumLifetimeSeconds * 1000) -
          max (match (OrderedMap.lookup s.single (ascii "date")).bind httpDate with
            | none => 0
            | some date => max 0 (A.round (wall - date)))
            (A.round (age * 1000 + A.round (received - started))))) := by
  have hzero {r : ℚ} (hr : Reading.finite 0 = .finite r) (hr' : 0 < r) : False := by
    rw [← Reading.finite.inj hr] at hr'
    exact lt_irrefl 0 hr'
  unfold concludeFreshness at h
  dsimp only at h
  split at h
  · exact (hzero h hpositive).elim
  · rename_i hkept
    simp only [not_or, not_and, Bool.not_eq_true, Bool.not_eq_false] at hkept
    obtain ⟨hinvalid, hdate, hexpires, hrevalidate, hpersist⟩ := hkept
    have hdates : ∀ name ∈ [ascii "date", ascii "expires"], ∀ value,
        OrderedMap.lookup s.single name = some value → (httpDate value).isSome := by
      intro name hname value hvalue
      rw [Option.isSome_iff_ne_none]
      rcases List.mem_pair.mp hname with rfl | rfl
      · simpa [hvalue] using hdate (by simp [hvalue])
      · simpa [hvalue] using hexpires (by simp [hvalue])
    refine ⟨hinvalid, hrevalidate, hpersist, hdates, ?_⟩
    split at h
    · rename_i age started received wall hage htimes
      split at h
      · exact (hzero h hpositive).elim
      · rename_i seconds hseconds
        exact ⟨age, started, received, wall, seconds, hage, htimes, hseconds, (Reading.finite.inj h).symm⟩
    · exact (hzero h hpositive).elim

/-- The directives of lines that parse, line by line. -/
theorem directives_of_parsed {lines : List Text}
    (hparsed : (lines.all fun line => (directives line).isSome) = true) {p : Directive → Prop}
    (hall : ∀ d ∈ listed lines, p d) {line : Text} (hline : line ∈ lines) :
    ∃ fields, directives line = some fields ∧ ∀ d ∈ fields, p d := by
  obtain ⟨fields, hfields⟩ := Option.isSome_iff_exists.mp (List.all_eq_true.mp hparsed line hline)
  refine ⟨fields, hfields, fun d hd => hall d ?_⟩
  exact List.mem_flatMap.mpr ⟨line, hline, by simpa [hfields] using hd⟩

/-- A field that occurs once has the value that is looked up. -/
theorem value_of_single {lines : List Text} (hlength : lines.length ≤ 1) {value : Text}
    (hvalue : value ∈ lines) : lines.getLast? = some value := by
  match lines, hlength, hvalue with
  | [v], _, hvalue => simpa using (List.mem_singleton.mp hvalue).symm

/-- The bound of the lifetime, where time remains. -/
theorem seconds_le_lifetimeBound {m : HeaderSummary} {seconds : ℚ} {date expires : Option Text}
    (hseconds : lifetimeSeconds policy m.lifetimes expires.isSome (date.bind httpDate)
      (expires.bind httpDate) = some seconds)
    (hdate : (m.single (ascii "date")).getLast? = date)
    (hexpires : (m.single (ascii "expires")).getLast? = expires)
    (hparsed : ∀ value, expires = some value → (httpDate value).isSome)
    (hpositive : 0 < min seconds policy.maximumLifetimeSeconds) :
    min seconds policy.maximumLifetimeSeconds = lifetimeBound policy m ∧
      (m.lifetimes = [] → expires.isSome → date.isSome) := by
  unfold lifetimeSeconds at hseconds
  unfold lifetimeBound statedDate
  rw [hdate, hexpires, min_comm]
  cases hleast : m.lifetimes.min? with
  | some least =>
    rw [hleast] at hseconds
    obtain rfl := Option.some.inj hseconds
    refine ⟨rfl, fun hnil => ?_⟩
    rw [hnil] at hleast
    simp at hleast
  | none =>
    rw [hleast] at hseconds
    dsimp only at hseconds ⊢
    cases expires with
    | none =>
      obtain rfl := Option.some.inj hseconds
      refine ⟨?_, fun _ h => absurd h (by simp)⟩
      cases date.bind httpDate <;> rfl
    | some expires =>
      simp only [Option.isSome_some, if_true] at hseconds
      generalize hd : date.bind httpDate = d at hseconds ⊢
      generalize (some expires).bind httpDate = e at hseconds ⊢
      cases d with
      | none => simp at hseconds
      | some d =>
        cases e with
        | none => simp at hseconds
        | some e =>
          obtain rfl := Option.some.inj hseconds
          dsimp only
          have hlate : 0 < max (0 : ℚ) ((e - d) / 1000) := (lt_min_iff.mp hpositive).1
          have hsame : max (0 : ℚ) ((e - d) / 1000) = (e - d) / 1000 := by
            rcases lt_max_iff.mp hlate with h | h
            · exact absurd h (lt_irrefl 0)
            · exact max_eq_right h.le
          refine ⟨by rw [hsame], fun _ _ => ?_⟩
          cases date with
          | none => simp at hd
          | some date => rfl

/-- **A fresh response keeps every rule.** -/
theorem isDirectoryFresh_conservative (response : FreshnessResponse) (policy : DirectoryFreshnessPolicy)
    (now : ℚ) (h : isDirectoryFresh .exact (calculateDirectoryFreshness .exact response policy) now) :
    Conservative response policy now := by
  obtain ⟨received', remaining, hreceived', hremaining, hkept, hbefore, hpositive, hlt⟩ :=
    isDirectoryFresh_spec h
  rcases calculateDirectoryFreshness_eq .exact response policy with ⟨-, hnone⟩ | ⟨-, s, hmatches, heq⟩
  · rw [hnone] at hkept
    exact absurd hkept Bool.false_ne_true
  · rw [heq] at hremaining hreceived'
    obtain ⟨hinvalid, hrevalidate, hpersist, hdates, age, started, received, wall, seconds, hage, htimes,
      hseconds, hvalue⟩ := concludeFreshness_spec .exact hremaining hpositive
    have hwell := hmatches.invalid.mp hinvalid
    have hpersists : (summary response.headers).persists := hmatches.persist ▸ hpersist
    have hcurrent : (summary response.headers).revalidates = false := hmatches.revalidate ▸ hrevalidate
    rw [HeaderSummary.persists, Bool.and_eq_true] at hpersists
    rw [HeaderSummary.revalidates, List.any_append, Bool.or_eq_false_iff] at hcurrent
    have hlookup (name : Text) (hname : name ∈ singleNames) := hmatches.single name hname
    have hdateLookup := hlookup (ascii "date") (by decide)
    have hexpiresLookup := hlookup (ascii "expires") (by decide)
    have hageLookup := hlookup (ascii "age") (by decide)
    obtain ⟨hstarted, hreceived, hwall, hnonneg, hordered⟩ := times?_spec htimes
    have hsame : received' = received := by
      have hfield : (concludeFreshness .exact response policy s).receivedMonotonicMs =
          response.responseReceivedMonotonicMs := by
        unfold concludeFreshness
        dsimp only
        split
        · rfl
        · split
          · split <;> rfl
          · rfl
      rw [hfield, hreceived] at hreceived'
      exact (Reading.finite.inj hreceived').symm
    subst hsame
    -- The remaining time is positive, so the lifetime exceeds both ages.
    simp only [Rounding.exact, id] at hvalue
    have hleft : remaining = min seconds policy.maximumLifetimeSeconds * 1000 -
        max (match (OrderedMap.lookup s.single (ascii "date")).bind httpDate with
          | none => 0
          | some date => max 0 (wall - date)) (age * 1000 + (received' - started)) := by
      rw [hvalue]
      refine max_eq_right (le_of_lt ?_)
      rw [hvalue] at hpositive
      exact (lt_max_iff.mp hpositive).resolve_left (lt_irrefl 0)
    have hcorrected : 0 ≤ (age : ℚ) * 1000 + (received' - started) := by
      have hage : (0 : ℚ) ≤ age := Nat.cast_nonneg age
      linarith
    have hlifetime : 0 < min seconds policy.maximumLifetimeSeconds := by
      have := le_max_right (match (OrderedMap.lookup s.single (ascii "date")).bind httpDate with
          | none => 0
          | some date => max 0 (wall - date)) ((age : ℚ) * 1000 + (received' - started))
      linarith
    rw [hmatches.lifetimes] at hseconds
    obtain ⟨hbound, hdated⟩ := seconds_le_lifetimeBound hseconds hdateLookup.symm hexpiresLookup.symm
      (fun value hv => hdates _ (by simp) value hv) hlifetime
    have hmaximum : lifetimeBound policy (summary response.headers) ≤ policy.maximumLifetimeSeconds :=
      min_le_left _ _
    rw [hbound] at hleft
    have happarent := le_max_left (match (OrderedMap.lookup s.single (ascii "date")).bind httpDate with
          | none => 0
          | some date => max 0 (wall - date)) ((age : ℚ) * 1000 + (received' - started))
    have hcorrected' := le_max_right (match (OrderedMap.lookup s.single (ascii "date")).bind httpDate with
          | none => 0
          | some date => max 0 (wall - date)) ((age : ℚ) * 1000 + (received' - started))
    have hagePos : (0 : ℚ) ≤ age := Nat.cast_nonneg age
    refine {
      control := ?_
      pragma := ?_
      once := hwell.once
      seconds := hwell.seconds
      single := hwell.single
      dates := ?_
      dated := ?_
      times := ⟨started, received', wall, age, hstarted, hreceived, hwall, hnonneg, hordered, hbefore, ?_,
        ?_, ?_, ?_⟩ }
    · intro line hline
      refine directives_of_parsed hwell.parsed (fun d hd => ⟨?_, ?_⟩) hline
      · simpa using List.all_eq_true.mp hpersists.2 d hd
      · simpa using List.any_eq_false.mp hcurrent.1 d hd
    · intro line hline
      refine directives_of_parsed hwell.pragmaParsed (fun d hd => ?_) hline
      simpa using List.any_eq_false.mp hcurrent.2 d hd
    · intro name hname value hmem
      have hsingle : name ∈ singleNames := by
        rcases List.mem_pair.mp hname with rfl | rfl <;> decide
      refine hdates name hname value ?_
      rw [hlookup name hsingle]
      exact value_of_single (hwell.single name hsingle) hmem
    · intro hnil hne
      have hgiven : (OrderedMap.lookup s.single (ascii "expires")).isSome := by
        rw [hexpiresLookup]
        simpa [summary] using hne
      have hdate := hdated hnil hgiven
      rw [hdateLookup] at hdate
      simpa [summary] using hdate
    · rw [statedAge, ← hageLookup]
      exact hage
    · linarith
    · rw [statedDate, ← hdateLookup]
      linarith
    · linarith

/-- A response that may be used for a minute, received at once. -/
def minuteResponse : FreshnessResponse :=
  ⟨[(ascii "Cache-Control", ascii "max-age=60"), (ascii "Age", ascii "5")], .finite 0, .finite 1,
    .finite 0⟩

theorem isDirectoryFresh_conservative_minuteResponse :
    Conservative minuteResponse ⟨60, 300, by decide⟩ 50000 :=
  isDirectoryFresh_conservative minuteResponse ⟨60, 300, by decide⟩ 50000 (by decide +kernel)

/-! ## Rewritten headers -/

/-- The quotes of a text are closed: a comma after it is no part of a quoted string. -/
def Unquoted (t : Text) : Prop := (splitMembers false false [] [] t).isSome

/-- One rewriting of headers: lines change places, a name changes its case, and lists of `cache-control` are
merged or split, within the budget. -/
inductive HeadersRespelled : List (Text × Text) → List (Text × Text) → Prop
  | permute {headers headers' : List (Text × Text)} : headers.Perm headers' →
      HeadersRespelled headers headers'
  | name {before after : List (Text × Text)} {rawName rawName' value : Text} :
      toLowerCase rawName = toLowerCase rawName' →
      HeadersRespelled (before ++ (rawName, value) :: after) (before ++ (rawName', value) :: after)
  /-- Two lines that parse are merged at a comma. -/
  | merge {before after : List (Text × Text)} {first second name line rest blanks : Text} :
      toLowerCase first = ascii "cache-control" → toLowerCase second = ascii "cache-control" →
      toLowerCase name = ascii "cache-control" → (directives line).isSome → (directives rest).isSome →
      Blanks blanks →
      totalBytes (before ++ (first, line) :: (second, rest) :: after) ≤ 16384 →
      totalBytes (before ++ (name, line ++ 44 :: (blanks ++ rest)) :: after) ≤ 16384 →
      HeadersRespelled (before ++ (first, line) :: (second, rest) :: after)
        (before ++ (name, line ++ 44 :: (blanks ++ rest)) :: after)
  /-- A line that parses is split at a comma that is not quoted. -/
  | split {before after : List (Text × Text)} {first second name line rest : Text} :
      toLowerCase first = ascii "cache-control" → toLowerCase second = ascii "cache-control" →
      toLowerCase name = ascii "cache-control" → (directives (line ++ 44 :: rest)).isSome → Unquoted line →
      totalBytes (before ++ (name, line ++ 44 :: rest) :: after) ≤ 16384 →
      totalBytes (before ++ (first, line) :: (second, rest) :: after) ≤ 16384 →
      HeadersRespelled (before ++ (name, line ++ 44 :: rest) :: after)
        (before ++ (first, line) :: (second, rest) :: after)

/-- What two summaries have in common where they say the same, in any order. -/
structure Agrees (m m' : HeaderSummary) : Prop where
  parsed : m.parsed = m'.parsed
  pragmaParsed : m.pragmaParsed = m'.pragmaParsed
  control : m.control.Perm m'.control
  pragma : m.pragma.Perm m'.pragma
  single : ∀ name ∈ singleNames, (m.single name).Perm (m'.single name)

theorem Agrees.refl (m : HeaderSummary) : Agrees m m := ⟨rfl, rfl, .refl _, .refl _, fun _ _ => .refl _⟩

variable {m m' : HeaderSummary}

theorem Agrees.persists (h : Agrees m m') : m.persists = m'.persists := by
  unfold HeaderSummary.persists
  rw [h.parsed, h.control.all_eq]

theorem Agrees.revalidates (h : Agrees m m') : m.revalidates = m'.revalidates :=
  (h.control.append h.pragma).any_eq

theorem Agrees.lifetimeFields (h : Agrees m m') : m.lifetimeFields.Perm m'.lifetimeFields :=
  h.control.filter _

theorem Agrees.wellFormed (h : Agrees m m') (hw : m.WellFormed) : m'.WellFormed where
  parsed := h.parsed ▸ hw.parsed
  pragmaParsed := h.pragmaParsed ▸ hw.pragmaParsed
  once := (h.lifetimeFields.map _).nodup_iff.mp hw.once
  seconds d hd := hw.seconds d (h.lifetimeFields.mem_iff.mpr hd)
  single name hname := (h.single name hname).length_eq ▸ hw.single name hname

theorem Agrees.symm (h : Agrees m m') : Agrees m' m :=
  ⟨h.parsed.symm, h.pragmaParsed.symm, h.control.symm, h.pragma.symm,
    fun name hname => (h.single name hname).symm⟩

/-- The smallest of some numbers, in any order. -/
theorem min?_perm {l l' : List ℕ} (h : l.Perm l') : l.min? = l'.min? := by
  cases hl : l.min? with
  | none =>
    rw [List.min?_eq_none_iff] at hl
    subst hl
    rw [List.nil_perm.mp h]
    rfl
  | some least =>
    rw [List.min?_eq_some_iff] at hl
    symm
    rw [List.min?_eq_some_iff]
    exact ⟨h.mem_iff.mp hl.1, fun b hb => hl.2 b (h.mem_iff.mpr hb)⟩

/-- **Summaries that agree leave the same time.** -/
theorem concludeFreshness_agrees {s' : FreshnessScan} (A : Rounding) (policy : DirectoryFreshnessPolicy)
    {response' : FreshnessResponse} (hs : Matches s m) (hs' : Matches s' m') (h : Agrees m m')
    (hstarted : response.requestStartedMonotonicMs = response'.requestStartedMonotonicMs)
    (hreceived : response.responseReceivedMonotonicMs = response'.responseReceivedMonotonicMs)
    (hwall : response.responseReceivedWallMs = response'.responseReceivedWallMs) :
    concludeFreshness A response policy s = concludeFreshness A response' policy s' := by
  have hpersist : s.persist = s'.persist := by rw [hs.persist, hs'.persist, h.persists]
  have hrevalidate : s.revalidate = s'.revalidate := by rw [hs.revalidate, hs'.revalidate, h.revalidates]
  have hinvalid : s.invalid = s'.invalid := by
    rw [Bool.eq_iff_iff, ← not_iff_not, Bool.not_eq_true, Bool.not_eq_true, hs.invalid, hs'.invalid]
    exact ⟨h.wellFormed, h.symm.wellFormed⟩
  have htimes : response.times? = response'.times? := by
    unfold FreshnessResponse.times?
    rw [hstarted, hreceived, hwall]
  unfold concludeFreshness
  dsimp only
  rw [← hpersist, ← hrevalidate, ← hinvalid, ← htimes, ← hreceived]
  cases hbroken : s.invalid with
  | true => simp
  | false =>
    -- Without repetitions, the values that are looked up do not depend on the order.
    have hw := hs.invalid.mp hbroken
    have hlookup (name : Text) (hname : name ∈ singleNames) :
        OrderedMap.lookup s.single name = OrderedMap.lookup s'.single name := by
      rw [hs.single name hname, hs'.single name hname]
      have hone := hw.single name hname
      have hperm := h.single name hname
      rcases hlines : m.single name with _ | ⟨value, _ | ⟨value', lines⟩⟩
      · rw [hlines] at hperm
        rw [List.nil_perm.mp hperm]
      · rw [hlines] at hperm
        rw [List.singleton_perm.mp hperm]
      · rw [hlines] at hone
        simp at hone
    have hleast : s.lifetimes.min? = s'.lifetimes.min? := by
      rw [hs.lifetimes, hs'.lifetimes]
      exact min?_perm (h.lifetimeFields.filterMap _)
    have hseconds (given : Bool) (date expires : Option ℤ) :
        lifetimeSeconds policy s.lifetimes given date expires =
          lifetimeSeconds policy s'.lifetimes given date expires := by
      unfold lifetimeSeconds
      rw [hleast]
    rw [hlookup (ascii "date") (by decide), hlookup (ascii "expires") (by decide),
      hlookup (ascii "age") (by decide), hseconds]

/-! ## Lists -/

/-- Parts that have been read stay before the others. -/
theorem splitMembers_parts (quoted escaped : Bool) (part : Text) (before parts : List Text) (text : Text) :
    splitMembers quoted escaped part (before ++ parts) text =
      (splitMembers quoted escaped part parts text).map (before ++ ·) := by
  fun_induction splitMembers quoted escaped part parts text with
  | case1 quoted escaped part parts hopen => rw [splitMembers, if_pos hopen, Option.map_none]
  | case2 quoted escaped part parts hclosed =>
    rw [splitMembers, if_neg hclosed, Option.map_some, List.append_assoc]
  | case3 quoted part parts c rest ih => rw [splitMembers, ih]
  | case4 quoted part parts c rest hescape ih => rw [splitMembers, if_pos hescape, ih]
  | case5 quoted part parts c rest hescape quoted' hcomma ih =>
    rw [splitMembers, if_neg hescape]
    dsimp only
    rw [if_pos hcomma, List.append_assoc, ih]
  | case6 quoted part parts c rest hescape quoted' hcomma ih =>
    rw [splitMembers, if_neg hescape]
    dsimp only
    rw [if_neg hcomma, ih]

/-- After a text whose quotes are closed, a comma ends a part. -/
theorem splitMembers_comma {quoted escaped : Bool} {part line : Text} {parts members : List Text}
    (h : splitMembers quoted escaped part parts line = some members) (rest : Text) :
    splitMembers quoted escaped part parts (line ++ 44 :: rest) =
      splitMembers false false [] members rest := by
  fun_induction splitMembers quoted escaped part parts line with
  | case1 => simp at h
  | case2 quoted escaped part parts hclosed =>
    obtain ⟨rfl, rfl⟩ : quoted = false ∧ escaped = false := by simpa using hclosed
    obtain rfl := Option.some.inj h
    rw [List.nil_append, splitMembers, if_neg (by simp)]
    simp
  | case3 quoted part parts c line ih => rw [List.cons_append, splitMembers, ih h]
  | case4 quoted part parts c line hescape ih => rw [List.cons_append, splitMembers, if_pos hescape, ih h]
  | case5 quoted part parts c line hescape quoted' hcomma ih =>
    rw [List.cons_append, splitMembers, if_neg hescape]
    dsimp only
    rw [if_pos hcomma, ih h]
  | case6 quoted part parts c line hescape quoted' hcomma ih =>
    rw [List.cons_append, splitMembers, if_neg hescape]
    dsimp only
    rw [if_neg hcomma, ih h]

variable {line rest : Text} {fields : List Directive}

/-- **A list splits at a comma that is not quoted.** -/
theorem directives_split (hline : Unquoted line) (h : directives (line ++ 44 :: rest) = some fields) :
    ∃ ds es, directives line = some ds ∧ directives rest = some es ∧ fields = ds ++ es := by
  obtain ⟨members, hmembers⟩ := Option.isSome_iff_exists.mp hline
  obtain ⟨all, hsplit, hread⟩ := Option.bind_eq_some_iff.mp h
  rw [splitMembers_comma hmembers, ← List.append_nil members, splitMembers_parts] at hsplit
  obtain ⟨others, hothers, rfl⟩ := Option.map_eq_some_iff.mp hsplit
  obtain ⟨read, hmapped, rfl⟩ := Option.map_eq_some_iff.mp hread
  rw [List.mapM_append] at hmapped
  simp only [Option.bind_eq_bind, Option.pure_def, Option.bind_eq_some_iff, Option.some.injEq] at hmapped
  obtain ⟨ds, hds, es, hes, rfl⟩ := hmapped
  refine ⟨ds.flatten, es.flatten, ?_, ?_, List.flatten_append⟩
  · rw [directives, hmembers, Option.bind_some, hds, Option.map_some]
  · rw [directives, hothers, Option.bind_some, hes, Option.map_some]

theorem Blanks.append {s t : Text} (hs : Blanks s) (ht : Blanks t) : Blanks (s ++ t) :=
  fun c hc => (List.mem_append.mp hc).elim (hs c) (ht c)

theorem MemberText.blanks {blanks : Text} (hblanks : Blanks blanks) (h : MemberText line fields) :
    MemberText (blanks ++ line) fields := by
  cases h with
  | empty hleading => exact .empty (hblanks.append hleading)
  | name hleading hname htrailing =>
    rw [← List.append_assoc, ← List.append_assoc]
    exact .name (hblanks.append hleading) hname htrailing
  | value hleading hname hbefore hafter hvalue htrailing =>
    rw [← List.append_assoc, ← List.append_assoc]
    exact .value (hblanks.append hleading) hname hbefore hafter hvalue htrailing

theorem ListText.blanks {blanks : Text} (hblanks : Blanks blanks) (h : ListText line fields) :
    ListText (blanks ++ line) fields := by
  cases h with
  | one hmember => exact .one (hmember.blanks hblanks)
  | cons hmember hrest =>
    rw [← List.append_assoc]
    exact .cons (hmember.blanks hblanks) hrest

/-- Lists are merged at a comma. -/
theorem ListText.append {ds es : List Directive} (hline : ListText line ds) (hrest : ListText rest es) :
    ListText (line ++ 44 :: rest) (ds ++ es) := by
  induction hline with
  | one hmember => exact .cons hmember hrest
  | cons hmember _ ih =>
    rw [List.append_assoc, List.append_assoc, List.cons_append]
    exact .cons hmember ih

/-! ## The size of the headers -/

theorem totalBytes_append (headers headers' : List (Text × Text)) :
    totalBytes (headers ++ headers') = totalBytes headers + totalBytes headers' := by
  simp [totalBytes]

theorem totalBytes_perm {headers headers' : List (Text × Text)} (h : headers.Perm headers') :
    totalBytes headers = totalBytes headers' :=
  (h.map _).sum_eq

/-- Units keep their sizes in lower case, and surrogates stay as they are. -/
theorem lower_unit (c : UInt16) :
    unitBytes (if 65 ≤ c ∧ c ≤ 90 then c + 32 else c) = unitBytes c ∧
      highSurrogate (if 65 ≤ c ∧ c ≤ 90 then c + 32 else c) = highSurrogate c ∧
      lowSurrogate (if 65 ≤ c ∧ c ≤ 90 then c + 32 else c) = lowSurrogate c := by
  split
  · rename_i hupper
    refine ⟨?_, ?_, ?_⟩
    all_goals grind [unitBytes, highSurrogate, lowSurrogate]
  · exact ⟨rfl, rfl, rfl⟩

theorem byteLength_toLowerCase (t : Text) : byteLength (toLowerCase t) = byteLength t := by
  fun_induction byteLength t with
  | case1 => rfl
  | case2 c => exact (lower_unit c).1
  | case3 high low rest hpair ih =>
    have hhigh := (lower_unit high).2.1
    have hlow := (lower_unit low).2.2
    rw [← ih]
    unfold toLowerCase
    rw [List.map_cons, List.map_cons, byteLength, if_pos (by rw [hhigh, hlow, hpair])]
  | case4 high low rest hpair ih =>
    have hhigh := (lower_unit high).2.1
    have hlow := (lower_unit low).2.2
    rw [← ih, ← (lower_unit high).1]
    unfold toLowerCase
    rw [List.map_cons, List.map_cons, byteLength, if_neg (by rwa [hhigh, hlow])]

/-! ## The same time -/

theorem fieldLines_cons (name : Text) (h : Text × Text) (headers : List (Text × Text)) :
    fieldLines name (h :: headers) =
      (if toLowerCase h.1 = name then [h.2] else []) ++ fieldLines name headers := by
  rw [← List.singleton_append, fieldLines_append, fieldLines_singleton]

theorem listed_perm {lines lines' : List Text} (h : lines.Perm lines') : (listed lines).Perm (listed lines') :=
  h.flatMap_right _

theorem agrees_permute {headers headers' : List (Text × Text)} (h : headers.Perm headers') :
    Agrees (summary headers) (summary headers') := by
  have hlines (name : Text) : (fieldLines name headers).Perm (fieldLines name headers') :=
    (h.filter _).map _
  exact ⟨(hlines _).all_eq, (hlines _).all_eq, listed_perm (hlines _), listed_perm (hlines _),
    fun name _ => hlines name⟩

theorem agrees_name {before after : List (Text × Text)} {rawName rawName' value : Text}
    (h : toLowerCase rawName = toLowerCase rawName') :
    Agrees (summary (before ++ (rawName, value) :: after)) (summary (before ++ (rawName', value) :: after)) := by
  have hlines (name : Text) : fieldLines name (before ++ (rawName, value) :: after) =
      fieldLines name (before ++ (rawName', value) :: after) := by
    rw [fieldLines_append, fieldLines_append, fieldLines_cons, fieldLines_cons, h]
  have hsame : summary (before ++ (rawName, value) :: after) =
      summary (before ++ (rawName', value) :: after) := by
    unfold summary
    simp only [hlines]
  rw [hsame]
  exact .refl _

/-- Two lines of `cache-control` agree with one line that has the directives of both. -/
theorem agrees_merge {before after : List (Text × Text)} {first second name whole : Text}
    {ds es : List Directive} (hfirst : toLowerCase first = ascii "cache-control")
    (hsecond : toLowerCase second = ascii "cache-control")
    (hname : toLowerCase name = ascii "cache-control") (hline : directives line = some ds)
    (hrest : directives rest = some es) (hwhole : directives whole = some (ds ++ es)) :
    Agrees (summary (before ++ (first, line) :: (second, rest) :: after))
      (summary (before ++ (name, whole) :: after)) := by
  have hcontrol : fieldLines (ascii "cache-control") (before ++ (first, line) :: (second, rest) :: after) =
      fieldLines (ascii "cache-control") before ++ line :: rest ::
        fieldLines (ascii "cache-control") after := by
    rw [fieldLines_append, fieldLines_cons, fieldLines_cons, if_pos hfirst, if_pos hsecond]
    rfl
  have hmerged : fieldLines (ascii "cache-control") (before ++ (name, whole) :: after) =
      fieldLines (ascii "cache-control") before ++ whole :: fieldLines (ascii "cache-control") after := by
    rw [fieldLines_append, fieldLines_cons, if_pos hname]
    rfl
  have hother {field : Text} (hne : ascii "cache-control" ≠ field) :
      fieldLines field (before ++ (first, line) :: (second, rest) :: after) =
        fieldLines field (before ++ (name, whole) :: after) := by
    rw [fieldLines_append, fieldLines_append, fieldLines_cons, fieldLines_cons, fieldLines_cons, hfirst,
      hsecond, hname, if_neg hne, if_neg hne, if_neg hne]
    rfl
  have hpragma := hother (show ascii "cache-control" ≠ ascii "pragma" by decide)
  refine ⟨?_, ?_, ?_, ?_, fun field hfield => ?_⟩
  · simp [summary, hcontrol, hmerged, hline, hrest, hwhole]
  · simp only [summary, hpragma]
  · simp [summary, hcontrol, hmerged, listed, hline, hrest, hwhole]
  · simp only [summary, hpragma]
    exact .refl _
  · simp only [summary]
    rw [hother (by rintro rfl; exact absurd hfield (by decide))]

/-- One rewriting leaves what the headers say, and whether they fit. -/
theorem HeadersRespelled.agrees {headers headers' : List (Text × Text)} (h : HeadersRespelled headers headers') :
    Agrees (summary headers) (summary headers') ∧
      (totalBytes headers ≤ 16384 ↔ totalBytes headers' ≤ 16384) := by
  cases h with
  | permute hperm => exact ⟨agrees_permute hperm, by rw [totalBytes_perm hperm]⟩
  | @name before after rawName rawName' value hname =>
    refine ⟨agrees_name hname, ?_⟩
    have hbytes : byteLength rawName = byteLength rawName' := by
      rw [← byteLength_toLowerCase, hname, byteLength_toLowerCase]
    have hsame : totalBytes (before ++ (rawName, value) :: after) =
        totalBytes (before ++ (rawName', value) :: after) := by simp [totalBytes, hbytes]
    rw [hsame]
  | merge hfirst hsecond hname hline hrest hblanks hbefore hafter =>
    obtain ⟨ds, hds⟩ := Option.isSome_iff_exists.mp hline
    obtain ⟨es, hes⟩ := Option.isSome_iff_exists.mp hrest
    have hwhole := ((directives_iff _ _).mp hds).append (((directives_iff _ _).mp hes).blanks hblanks)
    exact ⟨agrees_merge hfirst hsecond hname hds hes ((directives_iff _ _).mpr hwhole),
      iff_of_true hbefore hafter⟩
  | split hfirst hsecond hname hwhole hline hbefore hafter =>
    obtain ⟨fields, hfields⟩ := Option.isSome_iff_exists.mp hwhole
    obtain ⟨ds, es, hds, hes, rfl⟩ := directives_split hline hfields
    exact ⟨(agrees_merge hfirst hsecond hname hds hes hfields).symm, iff_of_true hbefore hafter⟩

/-- **Rewritten headers leave the same time.** -/
theorem calculateDirectoryFreshness_respelled (A : Rounding) (response : FreshnessResponse)
    (policy : DirectoryFreshnessPolicy) (headers : List (Text × Text))
    (h : Relation.ReflTransGen HeadersRespelled response.headers headers) :
    calculateDirectoryFreshness A { response with headers := headers } policy =
      calculateDirectoryFreshness A response policy := by
  induction h with
  | refl => rfl
  | @tail between headers' _ hstep ih =>
    rw [← ih]
    obtain ⟨hagrees, hfits⟩ := hstep.agrees
    rcases calculateDirectoryFreshness_eq A { response with headers := between } policy with
      ⟨hlarge, heq⟩ | ⟨hsmall, s, hmatches, heq⟩
    · rcases calculateDirectoryFreshness_eq A { response with headers := headers' } policy with
        ⟨-, heq'⟩ | ⟨hsmall', -⟩
      · rw [heq, heq']
      · exact absurd (hfits.mpr hsmall') (by simpa using hlarge)
    · rcases calculateDirectoryFreshness_eq A { response with headers := headers' } policy with
        ⟨hlarge', -⟩ | ⟨-, s', hmatches', heq'⟩
      · exact absurd (hfits.mp hsmall) (by simpa using hlarge')
      · rw [heq, heq']
        exact (concludeFreshness_agrees A policy hmatches hmatches' hagrees rfl rfl rfl).symm

/-- Two lists are merged, and then the lines change places. -/
theorem calculateDirectoryFreshness_respelled_minuteResponse :
    calculateDirectoryFreshness .exact ⟨[(ascii "AGE", ascii "5"), (ascii "cache-control",
        ascii "ext=\"a,b\", max-age=60")], .finite 0, .finite 1, .finite 0⟩ ⟨60, 300, by decide⟩ =
      calculateDirectoryFreshness .exact ⟨[(ascii "Cache-Control", ascii "ext=\"a,b\""),
        (ascii "Cache-Control", ascii "max-age=60"), (ascii "Age", ascii "5")],
        .finite 0, .finite 1, .finite 0⟩ ⟨60, 300, by decide⟩ := by
  refine calculateDirectoryFreshness_respelled .exact ⟨_, _, _, _⟩ _ _ (.tail (.tail (.single
    (@HeadersRespelled.merge [] [(ascii "Age", ascii "5")] (ascii "Cache-Control") (ascii "Cache-Control")
      (ascii "cache-control") (ascii "ext=\"a,b\"") (ascii "max-age=60") [32] (by decide) (by decide)
      (by decide) (by decide) (by decide) (by unfold Blanks; decide) (by decide +kernel)
      (by decide +kernel)))
    (@HeadersRespelled.name [(ascii "cache-control", ascii "ext=\"a,b\", max-age=60")] [] (ascii "Age")
      (ascii "AGE") (ascii "5") (by decide)))
    (.permute (.swap _ _ _)))

end AgentSig.Discovery
