import AgentSig.Http.Assessment

/-!
# Enforcement fails closed

An integration that enforces a policy goes on with a request only where the hook has said so in time, with a
handle that it was given for this request. Whatever else happens, it responds with an error or throws.

## Main definitions

* `Allowed`: what has happened when a request goes on
* `Judged`: the outcome of a request whose policy is enforced
* `PhaseOf`, `Enforced`: what the history says about a request, and about all of them

## Main results

* `judged_concludePolicy`: the end of the race is judged
* `enforced_step`: every step keeps what the history says
* `enforcement_fails_closed`: **every outcome is judged, in every run**
-/

namespace AgentSig.Http

open Commons Core Profiles StructuredFields

/-- A verified status is one that the verifier has reported for the request. -/
def Reported (es : List HttpEvent) (request : ℕ) : HttpAssessment → Prop
  | .mapped _ verification => isVerifiedStatus verification →
      ∃ result, .verified request result ∈ es ∧ isVerifiedStatus result
  | .rejected _ => True

/-- The hook has returned a value before the timer expired. A handle was made before. -/
def ReturnedInTime (es : List HttpEvent) (request objects : ℕ) (value : HookValue) : Prop :=
  ∃ pre post, es = pre ++ .returned request value :: post ∧ .expired request ∉ pre ∧
    ∀ handle, value = .object handle → handle < objects ∧
      ∀ r call, .minted r call handle ∉ post

/-- What has happened when a request goes on: in time the hook has returned a handle that the tools of this
request made as a decision to allow, the request was mapped, and its body was not rejected. A verified
identity is allowed where the verifier has reported one, for the view of this request. -/
structure Allowed (A : Rounding) (es : List HttpEvent) (request : ℕ) (config : Configuration)
    (outcome : HttpAdapterOutcome) (view : ℕ) (started : ℚ) (call : ToolCall) (handle : ℕ) : Prop where
  continues : outcome.action = .continue
  viewed : .viewed request view started ∈ es
  returned : ∃ pre mid post,
    es = pre ++ .minted request call handle :: (mid ++ .returned request (.object handle) :: post) ∧
      .expired request ∉ pre ++ mid
  checked : ∃ now, .checked request now ∈ es ∧ A.round (now - started) < config.timeout
  mapped : ∃ mapping verification, outcome.assessment = .mapped mapping verification ∧
    (mapping.bodyPresent → config.bodyPolicy ≠ .reject)
  basis : call = .allowAnonymous ∧ outcome.authorization = .allowedAnonymous ∨
    call = .allowVerified (.object view) ∧ outcome.authorization = .allowedVerifiedIdentity ∧
      ∃ result, .verified request result ∈ es ∧ isVerifiedStatus result

/-- The request is answered with an error. -/
structure Responds (outcome : HttpAdapterOutcome) : Prop where
  responds : outcome.action = .respond
  authorization : outcome.authorization = .denied ∨
    ∃ retryAfterSeconds, outcome.authorization = .rateLimited retryAfterSeconds
  status : ∃ status, outcome.responseStatus = some status ∧ 400 ≤ status ∧ status ≤ 599

/-- The outcome of a request whose policy is enforced. -/
def Judged (A : Rounding) (es : List HttpEvent) (request : ℕ) (config : Configuration)
    (outcome : HttpAdapterOutcome) : Prop :=
  Responds outcome ∨
    ∃ view started call handle, Allowed A es request config outcome view started call handle

/-- The request of an event. -/
def HttpEvent.request : HttpEvent → ℕ
  | .mappingRejected request _ | .verificationError request | .policyDenied request _
  | .verified request _ | .viewed request _ _ | .minted request _ _ | .toolThrew request _
  | .returned request _ | .failed request | .expired request | .checked request _
  | .aborted request | .completed request _ | .refused request | .delivered request _ _ => request

/-- At most one view of a request is made, and at most one result of a verifier is accepted for it. -/
structure Once (es : List HttpEvent) (request : ℕ) : Prop where
  viewed : ∀ view started view' started', .viewed request view started ∈ es →
    .viewed request view' started' ∈ es → view = view' ∧ started = started'
  verified : ∀ result result', .verified request result ∈ es → .verified request result' ∈ es →
    result = result'

/-- Nothing has been found out about a request. -/
def Unseen (es : List HttpEvent) (request : ℕ) : Prop :=
  ∀ e ∈ es, e.request = request → e = .refused request

/-- What the history says about a request whose policy decides. -/
structure Deciding (es : List HttpEvent) (request : ℕ) (config : Configuration) (objects : ℕ)
    (assessment : HttpAssessment) (view : ℕ) (decisions : List (ℕ × Decision)) (started : ℚ)
    (race : Option PolicyResult) : Prop where
  once : Once es request
  viewed : .viewed request view started ∈ es
  reported : Reported es request assessment
  decisions : ∀ e ∈ decisions, ∃ call, .minted request call e.1 ∈ es ∧
    askedDecision config assessment view call = some e.2
  /-- Until the race has an end, the timer has not expired. -/
  running : race = none → .expired request ∉ es
  returned : ∀ value, race = some (.value value) → ReturnedInTime es request objects value

/-- What the history says about a request. -/
def PhaseOf (A : Rounding) (es : List HttpEvent) (request : ℕ) (config : Configuration)
    (objects : ℕ) : EvaluatePhase → Prop
  | .mapping | .verifying _ => Unseen es request
  | .deciding assessment view decisions started _ race =>
    Deciding es request config objects assessment view decisions started race
  | .ended outcome => Once es request ∧
      ∀ o, outcome = some o → config.mode = .enforce → Judged A es request config o

/-- What the history says about a request, registered or not. -/
def StateOf (A : Rounding) (es : List HttpEvent) (s : HttpSystem) (request : ℕ) : Prop :=
  match s.requests request with
  | none => Unseen es request
  | some state => PhaseOf A es request state.config s.objects state.phase

/-- What the history says about the integrations. -/
structure Enforced (A : Rounding) (es : List HttpEvent) (s : HttpSystem) : Prop where
  requests : ∀ request, StateOf A es s request
  delivered : ∀ request config outcome, .delivered request config (some outcome) ∈ es →
    config.mode = .enforce → Judged A es request config outcome

variable {A : Rounding} {es fs : List HttpEvent} {request objects objects' : ℕ}
  {config : Configuration} {assessment : HttpAssessment} {s t : HttpSystem}

/-! ## Longer histories -/

/-- Events of one request, which makes its objects anew. -/
structure Local (request objects : ℕ) (fs : List HttpEvent) : Prop where
  request : ∀ e ∈ fs, e.request = request
  minted : ∀ r call handle, .minted r call handle ∈ fs → objects ≤ handle

theorem ReturnedInTime.append {value : HookValue} (h : ReturnedInTime es request objects value)
    (hle : objects ≤ objects')
    (hnew : ∀ r call handle, .minted r call handle ∈ fs → objects ≤ handle) :
    ReturnedInTime (es ++ fs) request objects' value := by
  obtain ⟨pre, post, rfl, htimely, hhandle⟩ := h
  refine ⟨pre, post ++ fs, by simp, htimely, fun handle heq => ?_⟩
  obtain ⟨hlt, hold⟩ := hhandle handle heq
  refine ⟨hlt.trans_le hle, fun r call hmem => ?_⟩
  rcases List.mem_append.mp hmem with hmem | hmem
  · exact hold r call hmem
  · exact absurd (hnew r call handle hmem) (not_le.mpr hlt)

theorem Judged.append {outcome : HttpAdapterOutcome} (h : Judged A es request config outcome)
    (fs : List HttpEvent) : Judged A (es ++ fs) request config outcome := by
  rcases h with h | ⟨view, started, call, handle, h⟩
  · exact .inl h
  · refine .inr ⟨view, started, call, handle, h.continues, List.mem_append_left _ h.viewed, ?_, ?_,
      h.mapped, ?_⟩
    · obtain ⟨pre, mid, post, rfl, htimely⟩ := h.returned
      exact ⟨pre, mid, post ++ fs, by simp, htimely⟩
    · obtain ⟨now, hnow, hlt⟩ := h.checked
      exact ⟨now, List.mem_append_left _ hnow, hlt⟩
    · refine h.basis.imp_right fun ⟨hcall, hallowed, result, hresult, hverified⟩ => ?_
      exact ⟨hcall, hallowed, result, List.mem_append_left _ hresult, hverified⟩

theorem Reported.append (h : Reported es request assessment) (fs : List HttpEvent) :
    Reported (es ++ fs) request assessment := by
  cases assessment with
  | mapped mapping verification =>
    intro hstatus
    obtain ⟨result, hresult, hverified⟩ := h hstatus
    exact ⟨result, List.mem_append_left _ hresult, hverified⟩
  | rejected code => trivial

/-- What was found out once is found out once in a longer history that finds out nothing. -/
theorem Once.append (h : Once es request) (hviewed : ∀ v t, .viewed request v t ∉ fs)
    (hverified : ∀ result, .verified request result ∉ fs) : Once (es ++ fs) request := by
  constructor
  · intro v t v' t' hv hv'
    exact h.viewed v t v' t' ((List.mem_append.mp hv).resolve_right (hviewed v t))
      ((List.mem_append.mp hv').resolve_right (hviewed v' t'))
  · intro r r' hr hr'
    exact h.verified r r' ((List.mem_append.mp hr).resolve_right (hverified r))
      ((List.mem_append.mp hr').resolve_right (hverified r'))

theorem Unseen.notMem (h : Unseen es request) {e : HttpEvent} (hrequest : e.request = request)
    (hne : e ≠ .refused request) : e ∉ es := by
  intro hmem
  exact hne (h e hmem hrequest)

theorem Unseen.once (h : Unseen es request) : Once es request :=
  ⟨fun _ _ _ _ hmem => absurd hmem (h.notMem rfl (by simp)),
    fun _ _ hmem => absurd hmem (h.notMem rfl (by simp))⟩

theorem Unseen.append (h : Unseen es request)
    (hnew : ∀ e ∈ fs, e.request = request → e = .refused request) : Unseen (es ++ fs) request := by
  intro e hmem
  rcases List.mem_append.mp hmem with hmem | hmem
  · exact h e hmem
  · exact hnew e hmem

/-- A longer history that finds out nothing, and in which the timer does not expire. -/
theorem Deciding.append {view : ℕ} {decisions : List (ℕ × Decision)} {started : ℚ}
    {race : Option PolicyResult}
    (h : Deciding es request config objects assessment view decisions started race)
    (hle : objects ≤ objects') (hviewed : ∀ v t, .viewed request v t ∉ fs)
    (hverified : ∀ result, .verified request result ∉ fs) (hexpired : .expired request ∉ fs)
    (hnew : ∀ r call handle, .minted r call handle ∈ fs → objects ≤ handle) :
    Deciding (es ++ fs) request config objects' assessment view decisions started race where
  once := h.once.append hviewed hverified
  viewed := List.mem_append_left _ h.viewed
  reported := h.reported.append fs
  decisions := by
    intro e he
    obtain ⟨call, hcall, hasked⟩ := h.decisions e he
    exact ⟨call, List.mem_append_left _ hcall, hasked⟩
  running := by
    intro hrace hmem
    exact (List.mem_append.mp hmem).elim (h.running hrace) hexpired
  returned := by
    intro value hrace
    exact (h.returned value hrace).append hle hnew

/-- A phase that has ended stays judged. -/
theorem PhaseOf.append_ended {outcome : Option HttpAdapterOutcome}
    (h : PhaseOf A es request config objects (.ended outcome))
    (hviewed : ∀ v t, .viewed request v t ∉ fs) (hverified : ∀ result, .verified request result ∉ fs) :
    PhaseOf A (es ++ fs) request config objects' (.ended outcome) :=
  ⟨h.1.append hviewed hverified, fun o ho hmode => (h.2 o ho hmode).append fs⟩

/-- Neither the events of another request nor a refusal matter for a request. -/
theorem PhaseOf.append {phase : EvaluatePhase} (h : PhaseOf A es request config objects phase)
    (hle : objects ≤ objects') (hforeign : ∀ e ∈ fs, e.request = request → e = .refused request)
    (hnew : ∀ r call handle, .minted r call handle ∈ fs → objects ≤ handle) :
    PhaseOf A (es ++ fs) request config objects' phase := by
  have hnone (e : HttpEvent) (hrequest : e.request = request) (hne : e ≠ .refused request) : e ∉ fs :=
    fun hmem => hne (hforeign e hmem hrequest)
  cases phase with
  | mapping => exact Unseen.append h hforeign
  | verifying mapping => exact Unseen.append h hforeign
  | deciding assessment view decisions started settled race =>
    refine Deciding.append h hle ?_ ?_ (hnone _ rfl (by simp)) hnew
    · intro v t
      exact hnone _ rfl (by simp)
    · intro result
      exact hnone _ rfl (by simp)
  | ended outcome =>
    refine PhaseOf.append_ended h ?_ ?_
    · intro v t
      exact hnone _ rfl (by simp)
    · intro result
      exact hnone _ rfl (by simp)

theorem Enforced.phase {state : RequestState} (h : Enforced A es s)
    (hstate : s.requests request = some state) :
    PhaseOf A es request state.config s.objects state.phase := by
  have hphase := h.requests request
  rwa [StateOf, hstate] at hphase

theorem Enforced.none (h : Enforced A es s) (hstate : s.requests request = none) :
    Unseen es request := by
  have hphase := h.requests request
  rwa [StateOf, hstate] at hphase

/-- A step of one request keeps what the history says about the others. -/
theorem Enforced.advance (h : Enforced A es s) (hothers : ∀ r ≠ request, t.requests r = s.requests r)
    (hle : s.objects ≤ t.objects) (hlocal : Local request s.objects fs)
    (hown : StateOf A (es ++ fs) t request)
    (hdelivered : ∀ r c o, .delivered r c (some o) ∈ fs → c.mode = .enforce → Judged A es r c o) :
    Enforced A (es ++ fs) t := by
  refine ⟨fun r => ?_, fun r c o hmem hmode => ?_⟩
  · by_cases hr : r = request
    · rw [hr]
      exact hown
    · have hforeign (e : HttpEvent) (hmem : e ∈ fs) (heq : e.request = r) : e = .refused r :=
        absurd (heq.symm.trans (hlocal.request e hmem)) hr
      have hother := h.requests r
      rw [StateOf, hothers r hr]
      rw [StateOf] at hother
      split at hother
      · exact hother.append hforeign
      · exact hother.append hle hforeign hlocal.minted
  · rcases List.mem_append.mp hmem with hmem | hmem
    · exact (h.delivered r c o hmem hmode).append fs
    · exact (hdelivered r c o hmem hmode).append fs

/-- A step of one request that delivers nothing. -/
theorem Enforced.enter {state : RequestState} {phase : EvaluatePhase} (h : Enforced A es s)
    (hle : s.objects ≤ objects) (hlocal : Local request s.objects fs)
    (hphase : PhaseOf A (es ++ fs) request state.config objects phase)
    (hdelivered : ∀ r c o, .delivered r c (some o) ∉ fs) :
    Enforced A (es ++ fs) (s.enter request state phase objects) := by
  refine h.advance ?_ hle hlocal ?_ fun r c o hmem => absurd hmem (hdelivered r c o)
  · intro r hr
    exact Function.update_of_ne hr _ _
  · simpa [StateOf, HttpSystem.enter] using hphase

/-! ## The parts of `evaluate` -/

theorem responds_denyOutcome (config : Configuration) (assessment : HttpAssessment) :
    Responds (denyOutcome config assessment) := by
  refine ⟨rfl, .inl rfl, _, rfl, ?_⟩
  have hstatuses := config.statuses
  cases assessment with
  | mapped => exact hstatuses config.denyStatus (by simp)
  | rejected => exact hstatuses config.mappingStatus (by simp)

/-- The calls that ask for a decision to allow. -/
theorem askedDecision_allows {view : ℕ} {call : ToolCall} {decision : Decision}
    (h : askedDecision config assessment view call = some decision) :
    (decision = .allowVerified → call = .allowVerified (.object view)) ∧
      (decision = .allowAnonymous → call = .allowAnonymous) := by
  cases call with
  | allowVerified candidate =>
    simp only [askedDecision] at h
    split at h
    · simp at h
    · rename_i hcandidate
      simp only [ne_eq, not_or, not_not] at hcandidate
      obtain rfl := Option.some.inj h
      exact ⟨fun _ => by rw [hcandidate.1], by simp⟩
  | allowAnonymous =>
    obtain rfl := Option.some.inj h
    exact ⟨by simp, fun _ => rfl⟩
  | deny =>
    obtain rfl := Option.some.inj h
    exact ⟨by simp, by simp⟩
  | rateLimit retryAfterSeconds =>
    have hlimits : ∃ n, decision = .rateLimit n := by
      cases retryAfterSeconds with
      | undefined => exact ⟨_, (Option.some.inj h).symm⟩
      | number n =>
        simp only [askedDecision] at h
        split at h
        · split at h
          · exact ⟨_, (Option.some.inj h).symm⟩
          · simp at h
        · simp at h
      | null | text | function | object | other => simp [askedDecision] at h
    obtain ⟨n, rfl⟩ := hlimits
    exact ⟨by simp, by simp⟩

/-- The hook is called once, and nothing else decides. -/
theorem phaseOf_beginPolicy (A : Rounding) (config : Configuration) (objects : ℕ)
    (honce : Once es request) (hviewed : ∀ v t, .viewed request v t ∉ es)
    (hexpired : .expired request ∉ es) (hreported : Reported es request assessment) (started : ℚ) :
    PhaseOf A (es ++ (beginPolicy config assessment request objects started).2.2) request config
        (beginPolicy config assessment request objects started).2.1
        (beginPolicy config assessment request objects started).1 ∧
      objects ≤ (beginPolicy config assessment request objects started).2.1 ∧
      Local request objects (beginPolicy config assessment request objects started).2.2 ∧
      ∀ r c o, .delivered r c (some o) ∉
        (beginPolicy config assessment request objects started).2.2 := by
  unfold beginPolicy
  split
  · rename_i hmode
    refine ⟨⟨honce.append (by simp) (by simp), fun o _ henforce => ?_⟩, le_rfl, ⟨?_, by simp⟩, by simp⟩
    · rw [hmode] at henforce
      simp at henforce
    · simp [HttpEvent.request]
  · split
    · exact ⟨⟨honce.append (by simp) (by simp), by simp⟩, le_rfl, ⟨by simp [HttpEvent.request], by simp⟩,
        by simp⟩
    · refine ⟨⟨⟨?_, ?_⟩, by simp, hreported.append _, by simp, by simp [hexpired], by simp⟩,
        Nat.le_succ _, ⟨by simp [HttpEvent.request], by simp⟩, by simp⟩
      · have hnew (v : ℕ) (t : ℚ) (hmem : .viewed request v t ∈ es ++ [.viewed request objects started]) :
            v = objects ∧ t = started := by
          simpa [hviewed] using hmem
        intro v t v' t' hv hv'
        obtain ⟨rfl, rfl⟩ := hnew v t hv
        obtain ⟨rfl, rfl⟩ := hnew v' t' hv'
        exact ⟨rfl, rfl⟩
      · intro result result' hr hr'
        exact honce.verified _ _ ((List.mem_append.mp hr).resolve_right (by simp))
          ((List.mem_append.mp hr').resolve_right (by simp))

/-- The end of the race is judged. -/
theorem judged_concludePolicy {view : ℕ} {decisions : List (ℕ × Decision)} {started now : ℚ}
    {race : PolicyResult} {outcome : HttpAdapterOutcome}
    (hdeciding : Deciding es request config objects assessment view decisions started (some race))
    (hchecked : .checked request now ∈ es)
    (h : (concludePolicy A config assessment decisions started race now).1 = some outcome) :
    Judged A es request config outcome := by
  have hdenied := responds_denyOutcome config assessment
  unfold concludePolicy at h
  dsimp only at h
  split at h
  · obtain rfl := Option.some.inj h
    exact .inl hdenied
  · rename_i hintime
    split at h
    · obtain rfl := Option.some.inj h
      exact .inl hdenied
    · obtain rfl := Option.some.inj h
      exact .inl hdenied
    · obtain rfl := Option.some.inj h
      exact .inl hdenied
    · rename_i handle
      split at h
      · obtain rfl := Option.some.inj h
        exact .inl hdenied
      · obtain rfl := Option.some.inj h
        exact .inl ⟨rfl, .inr ⟨_, rfl⟩, _, rfl, config.statuses config.rateStatus (by simp)⟩
      · rename_i decision hlimited hlookup
        split at h
        · obtain rfl := Option.some.inj h
          exact .inl hdenied
        · rename_i hbody
          -- The handle was made by these tools, and returned in time.
          obtain ⟨call, hminted, hasked⟩ := hdeciding.decisions _ (OrderedMap.mem_of_lookup hlookup)
          dsimp only at hminted hasked
          obtain ⟨pre, post, heq, htimely, hfresh⟩ := hdeciding.returned _ rfl
          have hbefore : .minted request call handle ∈ pre := by
            rw [heq] at hminted
            refine (List.mem_append.mp hminted).resolve_right fun hmem => ?_
            exact (hfresh handle rfl).2 request call ((List.mem_cons.mp hmem).resolve_left (by simp))
          obtain ⟨pre', mid, rfl⟩ := List.append_of_mem hbefore
          have hreturned : ∃ pre mid post, es = pre ++ .minted request call handle ::
              (mid ++ .returned request (.object handle) :: post) ∧ .expired request ∉ pre ++ mid :=
            ⟨pre', mid, post, by simp [heq], by simpa using htimely⟩
          have hclock : ∃ now, .checked request now ∈ es ∧ A.round (now - started) < config.timeout :=
            ⟨now, hchecked, not_le.mp hintime⟩
          split at h
          · obtain rfl := Option.some.inj h
            exact .inl hdenied
          · obtain rfl := Option.some.inj h
            exact .inl hdenied
          · rename_i mapping verification
            split at h
            · rename_i heligible
              obtain rfl := Option.some.inj h
              refine .inr ⟨view, started, call, handle, rfl, hdeciding.viewed, hreturned, hclock,
                ⟨mapping, verification, rfl, ?_⟩, .inr ⟨?_, rfl, hdeciding.reported heligible⟩⟩
              · simpa [bodyRejected] using hbody
              · exact (askedDecision_allows hasked).1 rfl
            · simp at h
          · rename_i mapping verification hdeny hverified
            obtain rfl := Option.some.inj h
            refine .inr ⟨view, started, call, handle, rfl, hdeciding.viewed, hreturned, hclock,
              ⟨mapping, verification, rfl, ?_⟩, .inl ⟨?_, rfl⟩⟩
            · simpa [bodyRejected] using hbody
            · refine (askedDecision_allows hasked).2 ?_
              cases decision with
              | allowVerified => exact absurd rfl hverified
              | allowAnonymous => rfl
              | deny => exact absurd rfl hdeny
              | rateLimit n => exact absurd rfl (hlimited n)

/-! ## Steps -/

/-- The copy of an assessment reports the status of the result. -/
theorem reported_copy {mapping : MappedHttpRequest} {result copy : Item}
    (hcopy : Item.ownedCopy (HttpAssessment.mapped mapping result).item = some copy)
    (hresult : .verified request result ∈ es) :
    Reported es request (.mapped mapping (copy.get (ascii "verification"))) := by
  intro hstatus
  refine ⟨result, hresult, ?_⟩
  obtain ⟨⟨_, left⟩, hvisit, rfl⟩ := Option.map_eq_some_iff.mp hcopy
  have hlookup : ∃ properties, (HttpAssessment.mapped mapping result).item = .object properties ∧
      OrderedMap.lookup properties (.name (ascii "verification")) = some result := by
    refine ⟨_, rfl, ?_⟩
    cases mapping.observedClient with
    | none => rfl
    | some client => rfl
  obtain ⟨properties, hitem, hproperty⟩ := hlookup
  rw [hitem] at hvisit
  obtain ⟨r, l, hverification⟩ := Item.get_visit hvisit hproperty
  rw [isVerifiedStatus, Item.isText_iff] at hstatus ⊢
  exact (Item.get_text_visit hverification).mp hstatus

/-- `evaluate` has thrown before it called the hook. -/
theorem phaseOf_threw (h : Once es request) : PhaseOf A es request config objects (.ended none) :=
  ⟨h, by simp⟩

theorem enforced_map (h : Enforced A es s) (hnone : Unseen es request) (state : RequestState)
    (mapping : HttpMappingResult) (started : ℚ) :
    Enforced A (es ++ (evaluateMapping s request state started mapping).2)
      (evaluateMapping s request state started mapping).1 := by
  cases mapping with
  | rejected code =>
    have hviewed (v : ℕ) (t : ℚ) : .viewed request v t ∉ es ++ [.mappingRejected request code] := by
      simpa using hnone.notMem rfl (by simp)
    have hexpired : .expired request ∉ es ++ [.mappingRejected request code] := by
      simpa using hnone.notMem rfl (by simp)
    obtain ⟨hphase, hle, hlocal, hdelivered⟩ := phaseOf_beginPolicy A state.config s.objects
      (hnone.once.append (by simp) (by simp)) hviewed hexpired
      (show Reported (es ++ [.mappingRejected request code]) request (.rejected code) from trivial) started
    rw [List.append_assoc] at hphase
    refine h.enter hle ⟨fun e hmem => ?_, fun r call handle hmem => ?_⟩ hphase fun r c o hmem => ?_
    · rcases List.mem_cons.mp hmem with rfl | hmem
      · rfl
      · exact hlocal.request e hmem
    · exact hlocal.minted r call handle ((List.mem_cons.mp hmem).resolve_left (by simp))
    · exact hdelivered r c o ((List.mem_cons.mp hmem).resolve_left (by simp))
  | mapped mapping =>
    unfold evaluateMapping
    dsimp only
    split
    · exact h.enter le_rfl ⟨by simp [HttpEvent.request], by simp⟩
        (phaseOf_threw (hnone.once.append (by simp) (by simp))) (by simp)
    · exact h.enter le_rfl ⟨by simp, by simp⟩ (hnone.append (by simp)) (by simp)

theorem enforced_verify (h : Enforced A es s) (hnone : Unseen es request) (state : RequestState)
    (mapping : MappedHttpRequest) (answer : Option Item) (started : ℚ) :
    Enforced A (es ++ (evaluateVerification s request state mapping answer started).2)
      (evaluateVerification s request state mapping answer started).1 := by
  have honce (result : Item) : Once (es ++ [.verified request result]) request := by
    constructor
    · intro v t _ _ hv
      exact absurd hv (by simpa using hnone.notMem rfl (by simp))
    · intro r r' hr hr'
      have hold (r : Item) : .verified request r ∉ es := hnone.notMem rfl (by simp)
      have heq := (List.mem_append.mp hr).resolve_left (hold r)
      have heq' := (List.mem_append.mp hr').resolve_left (hold r')
      rw [(HttpEvent.verified.inj (List.mem_singleton.mp heq)).2,
        (HttpEvent.verified.inj (List.mem_singleton.mp heq')).2]
  unfold evaluateVerification
  split
  · exact h.enter le_rfl ⟨by simp [HttpEvent.request], by simp⟩
      (phaseOf_threw (hnone.once.append (by simp) (by simp))) (by simp)
  · rename_i result _
    split
    · refine h.enter le_rfl ⟨by simp [HttpEvent.request], by simp⟩ (phaseOf_threw ?_) (by simp)
      have hended : Once ((es ++ [.verified request result]) ++ [.completed request none]) request :=
        (honce result).append (by simp) (by simp)
      simpa using hended
    · rename_i copy hcopy
      have hviewed (v : ℕ) (t : ℚ) : .viewed request v t ∉ es ++ [.verified request result] := by
        simpa using hnone.notMem rfl (by simp)
      have hexpired : .expired request ∉ es ++ [.verified request result] := by
        simpa using hnone.notMem rfl (by simp)
      obtain ⟨hphase, hle, hlocal, hdelivered⟩ := phaseOf_beginPolicy A state.config s.objects
        (honce result) hviewed hexpired (reported_copy hcopy (by simp)) started
      rw [List.append_assoc] at hphase
      refine h.enter hle ⟨fun e hmem => ?_, fun r call handle hmem => ?_⟩ hphase fun r c o hmem => ?_
      · rcases List.mem_cons.mp hmem with rfl | hmem
        · rfl
        · exact hlocal.request e hmem
      · exact hlocal.minted r call handle ((List.mem_cons.mp hmem).resolve_left (by simp))
      · exact hdelivered r c o ((List.mem_cons.mp hmem).resolve_left (by simp))

theorem enforced_tool {state : RequestState} (h : Enforced A es s)
    (hstate : s.requests request = some state) (call : ToolCall)
    (hstep : useTool s request state call = some (t, fs)) : Enforced A (es ++ fs) t := by
  have hphase := h.phase hstate
  have hthrew : Local request s.objects [.toolThrew request call] :=
    ⟨by simp [HttpEvent.request], by simp⟩
  unfold useTool at hstep
  split at hstep
  · rename_i assessment view decisions started settled race heq
    rw [heq] at hphase
    split at hstep
    · obtain ⟨rfl, rfl⟩ := Prod.mk.inj (Option.some.inj hstep)
      refine h.advance (fun _ _ => rfl) le_rfl hthrew ?_ (by simp)
      rw [StateOf, hstate]
      dsimp only
      rw [heq]
      exact Deciding.append hphase le_rfl (by simp) (by simp) (by simp) (by simp)
    · rename_i decision hasked
      obtain ⟨rfl, rfl⟩ := Prod.mk.inj (Option.some.inj hstep)
      have hminted (r : ℕ) (call' : ToolCall) (handle : ℕ)
          (hmem : .minted r call' handle ∈ [HttpEvent.minted request call s.objects]) :
          s.objects ≤ handle :=
        (HttpEvent.minted.inj (List.mem_singleton.mp hmem)).2.2.ge
      have hlonger := Deciding.append hphase (Nat.le_succ _) (by simp) (by simp) (by simp) hminted
      refine h.enter (Nat.le_succ _) ⟨by simp [HttpEvent.request], hminted⟩
        { hlonger with decisions := fun e he => ?_ } (by simp)
      rcases List.mem_cons.mp he with rfl | he
      · exact ⟨call, by simp, hasked⟩
      · exact hlonger.decisions e he
  · rename_i outcome heq
    rw [heq] at hphase
    obtain ⟨rfl, rfl⟩ := Prod.mk.inj (Option.some.inj hstep)
    refine h.advance (fun _ _ => rfl) le_rfl hthrew ?_ (by simp)
    rw [StateOf, hstate]
    dsimp only
    rw [heq]
    exact PhaseOf.append_ended hphase (by simp) (by simp)
  · simp at hstep

/-- A hook that is done ends the race, unless the timer has. -/
theorem deciding_settle {view : ℕ} {decisions : List (ℕ × Decision)} {started : ℚ}
    {race : Option PolicyResult} {e : HttpEvent} {result : PolicyResult}
    (h : Deciding es request config objects assessment view decisions started race)
    (hdone : e = .failed request ∧ result = .error ∨
      ∃ value, e = .returned request value ∧ result = .value value ∧ value.made objects) :
    Deciding (es ++ [e]) request config objects assessment view decisions started
      (some (race.getD result)) := by
  have hlonger : Deciding (es ++ [e]) request config objects assessment view decisions started race := by
    refine h.append le_rfl ?_ ?_ ?_ ?_
    all_goals rcases hdone with ⟨rfl, -⟩ | ⟨value, rfl, -⟩ <;> simp
  refine { hlonger with running := by simp, returned := fun value hvalue => ?_ }
  cases race with
  | some race => exact hlonger.returned value hvalue
  | none =>
    obtain rfl : result = .value value := by simpa using hvalue
    rcases hdone with ⟨-, hresult⟩ | ⟨value', rfl, hresult, hmade⟩
    · simp at hresult
    · obtain rfl := PolicyResult.value.inj hresult
      refine ⟨es, [], rfl, h.running rfl, fun handle heq => ⟨?_, by simp⟩⟩
      subst heq
      simpa [HookValue.made] using hmade

/-- The timer ends the race, unless it has ended. -/
theorem deciding_expire {view : ℕ} {decisions : List (ℕ × Decision)} {started : ℚ}
    {race : Option PolicyResult}
    (h : Deciding es request config objects assessment view decisions started race) :
    Deciding (es ++ [.expired request]) request config objects assessment view decisions started
      (some (race.getD .timeout)) where
  once := h.once.append (by simp) (by simp)
  viewed := List.mem_append_left _ h.viewed
  reported := h.reported.append _
  decisions := by
    intro e he
    obtain ⟨call, hcall, hasked⟩ := h.decisions e he
    exact ⟨call, List.mem_append_left _ hcall, hasked⟩
  running := by simp
  returned := by
    intro value hvalue
    cases race with
    | none => simp at hvalue
    | some race => exact (h.returned value hvalue).append le_rfl (by simp)

/-- Every step keeps what the history says about the integrations. -/
theorem enforced_step {action : HttpAction} (h : Enforced A es s)
    (hstep : httpStep A s action = some (t, fs)) : Enforced A (es ++ fs) t := by
  cases action with
  | assess config request adapter =>
    unfold httpStep at hstep
    dsimp only at hstep
    split at hstep
    · rename_i hnew
      obtain ⟨rfl, rfl⟩ := Prod.mk.inj (Option.some.inj hstep)
      exact h.enter le_rfl ⟨by simp, by simp⟩ ((h.none hnew).append (by simp)) (by simp)
    · rename_i state hstate
      split at hstep
      · obtain ⟨rfl, rfl⟩ := Prod.mk.inj (Option.some.inj hstep)
        simpa using h
      · obtain ⟨rfl, rfl⟩ := Prod.mk.inj (Option.some.inj hstep)
        have hlocal : Local request s.objects [.refused request] := ⟨by simp [HttpEvent.request], by simp⟩
        refine h.advance (fun _ _ => rfl) le_rfl hlocal ?_ (by simp)
        rw [StateOf, hstate]
        exact (h.phase hstate).append le_rfl (by simp) (by simp)
  | map request mapping started =>
    unfold httpStep at hstep
    dsimp only at hstep
    split at hstep
    · rename_i config adapter hstate
      have hmapped := enforced_map h (h.phase hstate) ⟨config, adapter, .mapping⟩ mapping started
      rwa [Option.some.inj hstep] at hmapped
    · simp at hstep
  | verify request answer started =>
    unfold httpStep at hstep
    dsimp only at hstep
    split at hstep
    · rename_i config adapter mapping hstate
      have hverified := enforced_verify h (h.phase hstate) ⟨config, adapter, .verifying mapping⟩
        mapping answer started
      rwa [Option.some.inj hstep] at hverified
    · simp at hstep
  | tool request call =>
    obtain ⟨state, hstate, htool⟩ := Option.bind_eq_some_iff.mp hstep
    exact enforced_tool h hstate call htool
  | settle request value =>
    unfold httpStep at hstep
    dsimp only at hstep
    split at hstep
    · rename_i config adapter assessment view decisions started race hstate
      split at hstep
      · rename_i hmade
        obtain ⟨rfl, rfl⟩ := Prod.mk.inj (Option.some.inj hstep)
        have hdeciding : Deciding es request config s.objects assessment view decisions started race :=
          h.phase hstate
        cases value with
        | none =>
          exact h.enter le_rfl ⟨by simp [HttpEvent.request], by simp⟩
            (deciding_settle hdeciding (.inl ⟨rfl, rfl⟩)) (by simp)
        | some value =>
          exact h.enter le_rfl ⟨by simp [HttpEvent.request], by simp⟩
            (deciding_settle hdeciding (.inr ⟨value, rfl, rfl, hmade⟩)) (by simp)
      · simp at hstep
    · simp at hstep
  | expire request =>
    unfold httpStep at hstep
    dsimp only at hstep
    split at hstep
    · rename_i config adapter assessment view decisions started settled race hstate
      obtain ⟨rfl, rfl⟩ := Prod.mk.inj (Option.some.inj hstep)
      exact h.enter le_rfl ⟨by simp [HttpEvent.request], by simp⟩ (deciding_expire (h.phase hstate))
        (by simp)
    · simp at hstep
  | conclude request now =>
    unfold httpStep at hstep
    dsimp only at hstep
    split at hstep
    · rename_i config adapter assessment view decisions started settled race hstate
      obtain ⟨rfl, hevents⟩ := Prod.mk.inj (Option.some.inj hstep)
      have hdeciding : Deciding es request config s.objects assessment view decisions started
        (some race) := h.phase hstate
      have hmem (e : HttpEvent) (he : e ∈ fs) : e = .checked request now ∨ e = .aborted request ∨
          (∃ reason, e = .policyDenied request reason) ∨ ∃ outcome, e = .completed request outcome := by
        rw [← hevents] at he
        simp only [List.cons_append, List.mem_cons, List.mem_append, List.mem_ite_nil_right,
          Option.mem_toList, Option.map_eq_some_iff, List.not_mem_nil, or_false] at he
        grind
      have hrequest (e : HttpEvent) (he : e ∈ fs) : e.request = request := by
        rcases hmem e he with rfl | rfl | ⟨_, rfl⟩ | ⟨_, rfl⟩ <;> rfl
      have hlonger : Deciding (es ++ fs) request config s.objects assessment view decisions started
          (some race) := by
        refine hdeciding.append le_rfl ?_ ?_ ?_ ?_
        all_goals grind
      refine h.enter le_rfl ⟨hrequest, by grind⟩ ⟨hlonger.once, fun o ho _ => ?_⟩ (by grind)
      refine judged_concludePolicy hlonger ?_ ho
      rw [← hevents]
      simp
    · simp at hstep
  | deliver request =>
    unfold httpStep at hstep
    dsimp only at hstep
    split at hstep
    · rename_i config adapter outcome hstate
      obtain ⟨rfl, rfl⟩ := Prod.mk.inj (Option.some.inj hstep)
      have hended := h.phase hstate
      have hlocal : Local request s.objects [.delivered request config
          (outcome.filter fun outcome => (Item.ownedCopy outcome.item).isSome)] :=
        ⟨by simp [HttpEvent.request], by simp⟩
      refine h.advance (fun _ _ => rfl) le_rfl hlocal ?_ fun r c o hmem hmode => ?_
      · rw [StateOf, hstate]
        exact PhaseOf.append_ended hended (by simp) (by simp)
      · obtain ⟨rfl, rfl, ho⟩ := HttpEvent.delivered.inj (List.mem_singleton.mp hmem)
        exact hended.2 o (Option.filter_eq_some_iff.mp ho.symm).1 hmode
    · simp at hstep

theorem enforced_run (hrun : HttpRun A es s) : Enforced A es s := by
  induction hrun with
  | init h =>
    subst h
    exact ⟨fun request e hmem => absurd hmem List.not_mem_nil, fun r c o hmem => absurd hmem List.not_mem_nil⟩
  | step _ hstep ih =>
    obtain ⟨action, hstep⟩ := hstep
    exact enforced_step ih hstep

/-- The race of a hook that never settles is ended by the timer, and the request is denied. -/
theorem responds_expired {adapter : HttpAdapterName} {view : ℕ} {decisions : List (ℕ × Decision)}
    {started : ℚ} {settled : Bool} (A : Rounding)
    (hstate : s.requests request = some ⟨config, adapter,
      .deciding assessment view decisions started settled none⟩) (now : ℚ) :
    ∃ t u fs gs outcome, httpStep A s (.expire request) = some (t, fs) ∧
      httpStep A t (.conclude request now) = some (u, gs) ∧
      u.requests request = some ⟨config, adapter, .ended (some outcome)⟩ ∧ Responds outcome := by
  let t := s.enter request ⟨config, adapter, .mapping⟩
    (.deciding assessment view decisions started settled (some .timeout)) s.objects
  have hexpire : httpStep A s (.expire request) = some (t, [.expired request]) := by
    simp [httpStep, hstate, t]
  have hexpired : t.requests request = some ⟨config, adapter,
      .deciding assessment view decisions started settled (some .timeout)⟩ := by
    simp [t, HttpSystem.enter]
  have hdenied : (concludePolicy A config assessment decisions started .timeout now).1 =
      some (denyOutcome config assessment) := by
    unfold concludePolicy
    split <;> rfl
  have hconclude : ∃ gs, httpStep A t (.conclude request now) = some (t.enter request
      ⟨config, adapter, .mapping⟩ (.ended (some (denyOutcome config assessment))) t.objects, gs) := by
    simp only [httpStep, hexpired, hdenied]
    exact ⟨_, rfl⟩
  obtain ⟨gs, hconclude⟩ := hconclude
  refine ⟨t, _, _, gs, denyOutcome config assessment, hexpire, hconclude, ?_,
    responds_denyOutcome config assessment⟩
  simp [HttpSystem.enter]

/-- **HTTP enforcement fails closed.** Where a policy is enforced, a request goes on only if the hook has
allowed it in time with a handle of this request, and whatever else happens ends with an error. -/
theorem enforcement_fails_closed (A : Rounding) (hrun : HttpRun A es s) :
    (∀ request config outcome, .delivered request config (some outcome) ∈ es → config.mode = .enforce →
      Judged A es request config outcome) ∧
    (∀ request config adapter outcome,
      s.requests request = some ⟨config, adapter, .ended (some outcome)⟩ → config.mode = .enforce →
      Judged A es request config outcome) ∧
    (∀ request, Once es request) ∧
    ∀ request config adapter assessment view decisions started settled,
      s.requests request = some ⟨config, adapter,
        .deciding assessment view decisions started settled none⟩ → ∀ now, ∃ t u fs gs outcome,
      httpStep A s (.expire request) = some (t, fs) ∧
      httpStep A t (.conclude request now) = some (u, gs) ∧
      u.requests request = some ⟨config, adapter, .ended (some outcome)⟩ ∧ Responds outcome := by
  have henforced := enforced_run hrun
  refine ⟨henforced.delivered, fun r c a o hstate hmode => ?_, fun r => ?_, fun r c a m v d t b hstate =>
    responds_expired A hstate⟩
  · exact (henforced.phase hstate).2 o rfl hmode
  · have hphase := henforced.requests r
    rw [StateOf] at hphase
    split at hphase
    · exact hphase.once
    · rename_i state _
      cases hstate : state.phase with
      | mapping =>
        rw [hstate] at hphase
        exact Unseen.once hphase
      | verifying mapping =>
        rw [hstate] at hphase
        exact Unseen.once hphase
      | deciding =>
        rw [hstate] at hphase
        exact hphase.once
      | ended outcome =>
        rw [hstate] at hphase
        exact hphase.1

/-! ## An example -/

theorem exampleTimeout_timed : 1 ≤ 1000 ∧ 1000 ≤ 2147483647 := by decide

/-- A configuration that enforces a policy for 1000 milliseconds. -/
def exampleConfiguration : Configuration where
  mapper := 0
  verifier := 1
  verify := 2
  mode := .enforce
  policy := some 3
  observer := none
  bodyPolicy := .reject
  timeout := 1000
  mappingStatus := 400
  denyStatus := 401
  rateStatus := 429
  timed := exampleTimeout_timed
  statuses := by decide
  enforced := by decide

/-- A mapped request without a body. -/
def exampleMapping : MappedHttpRequest :=
  ⟨⟨ascii "GET", ascii "https://a.example/", none, [], none⟩, .direct, ascii "a.example", false, none⟩

/-- A result of a verifier. -/
def exampleVerification : Item :=
  .record [(ascii "status", some (.text (ascii "verified"))), (ascii "candidates", some (.list [])),
    (ascii "verifiedCandidates",
      some (.list [.record [(ascii "status", some (.text (ascii "verified")))]]))]

/-- A hook allows the verified identity of the view that it is given. -/
def exampleEnforcement : List HttpAction :=
  [.assess exampleConfiguration 0 .express, .map 0 (.mapped exampleMapping) 0,
    .verify 0 (some exampleVerification) 0, .tool 0 (.allowVerified (.object 0)),
    .settle 0 (some (.object 1)), .conclude 0 5, .deliver 0]

/-- Whether a history delivers an outcome that goes on. -/
def continues (es : List HttpEvent) : Bool :=
  es.any fun
    | .delivered _ config (some outcome) => config.mode = .enforce ∧ outcome.action = .continue
    | _ => false

theorem enforcement_fails_closed_exampleEnforcement : ∃ es s request config outcome,
    HttpRun .exact es s ∧ outcome.action = .continue ∧ Judged .exact es request config outcome := by
  have hrun : (runAll (httpStep .exact) exampleEnforcement .create []).any fun r => continues r.2 := by
    decide +kernel
  obtain ⟨⟨s, es⟩, hsome, hcontinues⟩ := (Option.any_eq_true _ _).mp hrun
  obtain ⟨e, hmem, he⟩ := List.any_eq_true.mp hcontinues
  have hreached : HttpRun .exact es s := Run.runAll (.init rfl) hsome
  split at he
  · rename_i request config outcome
    obtain ⟨hmode, haction⟩ := of_decide_eq_true he
    exact ⟨es, s, request, config, outcome, hreached, haction,
      (enforcement_fails_closed .exact hreached).1 request config outcome hmem hmode⟩
  · exact absurd he Bool.false_ne_true

end AgentSig.Http
