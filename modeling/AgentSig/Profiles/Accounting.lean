import AgentSig.Profiles.Engine

/-!
# The accounting of candidates

Whichever way a call of `verify` ends, its result lists the candidates that were selected, each
once and in their order: a normal end, an ambiguity, and a failure part-way through.

## Main definitions

* `CandidateEvaluation.label`, `CandidateResult.label`: the label of a candidate
* `EvaluationsOf`: evaluations of the first candidates of a selection
* `Accounted`: what the result of a call says about its candidates

## Main results

* `nodup_labels`: a selection has each label once
* `accounted_failed`, `accounted_ambiguous`, `accounted_final`: every end accounts
-/

namespace AgentSig.Profiles

open Commons Core StructuredFields

/-- The label of an evaluated candidate. -/
def CandidateEvaluation.label : CandidateEvaluation → Text
  | .rejected result => result.label
  | .eligible candidate => candidate.label

/-- The label of a result. -/
def CandidateResult.label : CandidateResult → Text
  | .verified candidate => candidate.label
  | .rejected candidate => candidate.label

/-- Whether a candidate is verified. -/
def CandidateResult.isVerified (r : CandidateResult) : Bool := r.verified?.isSome

/-- Whether the status of a result is `unsigned`. -/
def VerificationResult.isUnsigned : VerificationResult → Bool
  | .unsigned _ => true
  | _ => false

/-- The labels of a selection. -/
def labels (selected : List ParsedSignature) : List Text := selected.map (·.input.label)

/-- Evaluations of the first candidates of a selection, in their order, under a configuration. -/
structure EvaluationsOf (config : EngineConfig) (selected : List ParsedSignature)
    (evaluations : List CandidateEvaluation) : Prop where
  labels : evaluations.map CandidateEvaluation.label =
    (labels selected).take evaluations.length
  time : ∀ candidate, .eligible candidate ∈ evaluations →
    ∃ profile, candidate.time = config.time profile

/-- What the result of a call says about its candidates. -/
structure Accounted (config : EngineConfig) (request : RequestParts) (failure : Option ProfileError)
    (result : VerificationResult) : Prop where
  /-- An unsigned result is that of a request without candidates. -/
  unsigned : ∀ reason, result = .unsigned reason →
    selectCandidates config request = .ok (.unsigned reason)
  /-- Every other result after a selection lists the candidates. -/
  labels : ∀ signatures selected,
    selectCandidates config request = .ok (.candidates signatures selected) →
      result.isUnsigned = false ∧ result.candidates.map CandidateResult.label = labels selected
  /-- Nothing is verified where several candidates were selected and exactly one is allowed. -/
  ambiguous : ∀ signatures selected,
    selectCandidates config request = .ok (.candidates signatures selected) →
      isAmbiguous config selected → result.isVerified = false ∧
        ∀ r ∈ result.candidates, r.isVerified = false
  /-- Otherwise the rule decides. -/
  verified : ∀ signatures selected,
    selectCandidates config request = .ok (.candidates signatures selected) →
      isAmbiguous config selected = false →
        (result.isVerified ↔ (∃ r ∈ result.candidates, r.isVerified) ∧
          (config.aggregate = .any ∨ ∀ r ∈ result.candidates, r.isVerified))
  /-- The verified candidates, and the reason of a verified result. -/
  verifiedCandidates : ∀ replayProtected candidates verified,
    result = .verified replayProtected candidates verified →
      verified = candidates.filterMap CandidateResult.verified? ∧
        (replayProtected ↔ ∀ candidate ∈ verified, candidate.replayProtected)
  /-- The status and the reason of a result that is not verified. -/
  failed : ∀ signatures selected,
    selectCandidates config request = .ok (.candidates signatures selected) →
      isAmbiguous config selected = false → ∀ rejection candidates,
        result = .failed rejection candidates →
          candidates.findSome? CandidateResult.rejection? = some rejection ∧ failure = none ∨
            ∃ e, failure = some e ∧ (engineError e).rejection? = some rejection

/-! ## Labels -/

variable {config : EngineConfig} {request : RequestParts} {selected signatures : List ParsedSignature}
  {evaluations : List CandidateEvaluation} {profile : Option WebBotAuthProfile} {e : ProfileError}
  {result : VerificationResult} {now : ℤ} {lost : List (ℕ × RejectedCandidate)}
  {outcomes : ReplayOutcomes} {L : CoreLimits} {headers : List HeaderField}

theorem nodup_parseSignatureHeaders (h : parseSignatureHeaders L headers = .ok signatures) :
    (labels signatures).Nodup := by
  obtain ⟨values, -, ⟨-, rfl⟩ | ⟨d, bytes, hd, hmap⟩⟩ := parseSignatureHeaders_spec h
  · exact List.nodup_nil
  · have hlabels := mapM_map_eq (g := (·.input.label)) (k := (·.1))
      (fun e _ s hs => (congrArg Prod.fst (parsedSignature_spec hs)).symm) hmap
    rw [labels, hlabels]
    simp only [parse, bind_eq_ok, pure_eq_ok, semantic_eq_lastWins] at hd
    obtain ⟨raw, -, rfl⟩ := hd
    cases raw.root.occurrences with
    | item i => exact List.nodup_nil
    | list ms => exact List.nodup_nil
    | dictionary es =>
      simp only [Field.lastWins, fieldEntries, List.map_map]
      exact OrderedMap.nodup_keys_lastWins es

/-- A selection has each label once. -/
theorem nodup_labels {sigs : List ParsedSignature}
    (h : selectCandidates config request = .ok (.candidates sigs selected)) :
    (labels selected).Nodup := by
  simp only [selectCandidates, bind_eq_ok] at h
  obtain ⟨request', -, h⟩ := h
  obtain ⟨signatures, hsignatures, hselected⟩ := selectWebBotAuthCandidates_selected h
  obtain rfl : selected = signatures.filter isCandidate := hselected
  simp only [screenedSignatures, classify_eq_ok, bind_eq_ok, withCore_eq_ok] at hsignatures
  obtain ⟨_, -, hsignatures⟩ := hsignatures
  exact (nodup_parseSignatureHeaders hsignatures).sublist (List.filter_sublist.map _)

theorem map_zipIdx {α β : Type} (l : List α) (f : α × ℕ → β) (g : α → β)
    (h : ∀ i a, l[i]? = some a → f (a, i) = g a) : l.zipIdx.map f = l.map g := by
  have hfst : l.zipIdx.map (g ∘ Prod.fst) = l.map g := by rw [← List.map_map, List.zipIdx_map_fst]
  rw [← hfst]
  refine List.map_congr_left fun p hp => ?_
  exact h p.2 p.1 (List.mem_zipIdx_iff_getElem?.mp hp)

theorem EvaluationsOf.label_eq (h : EvaluationsOf config selected evaluations) {i : ℕ}
    {evaluation : CandidateEvaluation} {signature : ParsedSignature}
    (he : evaluations[i]? = some evaluation) (hs : selected[i]? = some signature) :
    evaluation.label = signature.input.label := by
  have hlabel := congrArg (·[i]?) h.labels
  obtain ⟨hi, rfl⟩ := List.getElem?_eq_some_iff.mp he
  simpa [List.getElem?_take, hi, Profiles.labels, hs] using hlabel

theorem EvaluationsOf.labels_eq (h : EvaluationsOf config selected evaluations)
    (hlength : evaluations.length = selected.length) :
    evaluations.map CandidateEvaluation.label = Profiles.labels selected := by
  rw [h.labels, hlength, List.take_of_length_le]
  simp [Profiles.labels]

/-- No evaluation is an evaluation of no candidate. -/
theorem EvaluationsOf.nil : EvaluationsOf config selected [] := ⟨rfl, by simp⟩

/-- The evaluation of the next candidate. -/
theorem EvaluationsOf.concat (h : EvaluationsOf config selected evaluations)
    {evaluation : CandidateEvaluation} {signature : ParsedSignature}
    (hs : selected[evaluations.length]? = some signature)
    (hlabel : evaluation.label = signature.input.label)
    (htime : ∀ candidate, evaluation = .eligible candidate →
      ∃ profile, candidate.time = config.time profile) :
    EvaluationsOf config selected (evaluations ++ [evaluation]) := by
  refine ⟨?_, fun candidate hmem => ?_⟩
  · rw [List.map_append, List.length_append, List.length_singleton, List.take_add_one, h.labels]
    simp [Profiles.labels, hs, hlabel]
  · rcases List.mem_append.mp hmem with hmem | hmem
    · exact h.time candidate hmem
    · exact htime candidate (List.mem_singleton.mp hmem).symm

theorem labels_failed (h : EvaluationsOf config selected evaluations)
    (hresult : failedResult config selected profile evaluations e = .ok result) :
    ∃ rejection candidates, result = .failed rejection candidates ∧
      candidates.map CandidateResult.label = labels selected ∧
      (∀ r ∈ candidates, r.isVerified = false) ∧
      (isAmbiguous config selected = false → (engineError e).rejection? = some rejection) := by
  unfold failedResult at hresult
  split at hresult
  · simp at hresult
  · rename_i rejection hrejection
    obtain rfl := pure_eq_ok.mp hresult
    refine ⟨_, _, rfl, ?_, fun r hr => ?_, fun hambiguous => by simp [hambiguous, hrejection]⟩
    · rw [List.map_map]
      refine map_zipIdx selected _ _ fun i s hs => ?_
      simp only [Function.comp_apply, failedCandidate]
      split
      · rename_i result hrejected
        exact h.label_eq hrejected hs
      · rfl
    · obtain ⟨p, -, rfl⟩ := List.mem_map.mp hr
      unfold failedCandidate
      split <;> rfl

theorem candidateResult_label {candidate : EligibleCandidate}
    {x : Except ProfileError VerifiedCandidate} {r : CandidateResult}
    (hx : ∀ v, x = .ok v → v.label = candidate.label) (h : candidateResult candidate x = .ok r) :
    r.label = candidate.label := by
  unfold candidateResult at h
  split at h
  · rename_i verified
    obtain rfl := pure_eq_ok.mp h
    exact hx verified rfl
  · split at h
    · obtain rfl := pure_eq_ok.mp h
      rfl
    · simp at h

theorem labels_ambiguous {results : List CandidateResult}
    (h : evaluations.mapM (ambiguousCandidate now) = .ok results) :
    results.map CandidateResult.label = evaluations.map CandidateEvaluation.label := by
  refine mapM_map_eq (fun evaluation _ r hr => ?_) h
  cases evaluation with
  | rejected result =>
    obtain rfl := pure_eq_ok.mp hr
    rfl
  | eligible candidate =>
    refine candidateResult_label (fun v hv => ?_) hr
    obtain ⟨_, -, hv⟩ := bind_eq_ok.mp hv
    simp at hv

/-- The lost evidence is that of eligible candidates. -/
theorem lostEvidence_spec {checkEvidence : ℕ → Except ProfileError Unit} {eligible : List Positioned}
    (h : lostEvidence checkEvidence eligible = .ok lost) :
    ∀ entry ∈ lost, ∃ m ∈ eligible, m.1 = entry.1 ∧ entry.2.label = m.2.label := by
  induction eligible generalizing lost with
  | nil =>
    obtain rfl := pure_eq_ok.mp h
    simp
  | cons m rest ih =>
    simp only [lostEvidence, bind_eq_ok, pure_eq_ok] at h
    obtain ⟨rejection, hrejection, lost', hlost', rfl⟩ := h
    intro entry hentry
    rcases List.mem_append.mp hentry with hentry | hentry
    · refine ⟨m, List.mem_cons_self, ?_⟩
      obtain ⟨rejected, hrejected, rfl⟩ := Option.map_eq_some_iff.mp (Option.mem_toList.mp hentry)
      refine ⟨rfl, ?_⟩
      unfold evidenceRejection at hrejection
      split at hrejection
      · simp [← pure_eq_ok.mp hrejection] at hrejected
      · split at hrejection
        · rw [← pure_eq_ok.mp hrejection] at hrejected
          exact Option.some.inj hrejected ▸ rfl
        · simp at hrejection
    · obtain ⟨m', hm', hspec⟩ := ih hlost' entry hentry
      exact ⟨m', List.mem_cons_of_mem _ hm', hspec⟩

/-- A rejection for lost evidence has the label of its candidate. -/
theorem label_of_lost {checkEvidence : ℕ → Except ProfileError Unit} {position : ℕ}
    (h : lostEvidence checkEvidence (eligibleCandidates evaluations) = .ok lost)
    {rejected : RejectedCandidate} {evaluation : CandidateEvaluation}
    (hlost : OrderedMap.lookup lost position = some rejected)
    (heval : evaluations[position]? = some evaluation) : rejected.label = evaluation.label := by
  obtain ⟨m, hm, hposition, hlabel⟩ := lostEvidence_spec h _ (OrderedMap.mem_of_lookup hlost)
  simp only at hposition hlabel
  rw [eligibleCandidates_spec, hposition, heval] at hm
  obtain rfl := Option.some.inj hm
  exact hlabel

theorem labels_final {checkEvidence : ℕ → Except ProfileError Unit} {results : List CandidateResult}
    (hlost : lostEvidence checkEvidence (eligibleCandidates evaluations) = .ok lost)
    (h : evaluations.zipIdx.mapM (finalCandidate lost outcomes now) = .ok results) :
    results.map CandidateResult.label = evaluations.map CandidateEvaluation.label := by
  rw [mapM_map_eq (k := fun p => p.1.label) (fun p hp r hr => ?_) h]
  · exact map_zipIdx evaluations _ _ fun _ _ _ => rfl
  · unfold finalCandidate at hr
    split at hr
    · rename_i result hrejected
      obtain rfl := pure_eq_ok.mp hr
      rw [hrejected]
      rfl
    · rename_i result _ hlookup
      obtain rfl := pure_eq_ok.mp hr
      exact label_of_lost hlost hlookup (List.mem_zipIdx_iff_getElem?.mp hp)
    · rename_i candidate heligible _
      rw [heligible]
      exact candidateResult_label (fun v hv => by rw [(verifyCandidate_eq_ok hv).fields]) hr

/-- Dropping the candidates whose evidence is lost keeps the candidates accounted for. -/
theorem EvaluationsOf.screen {checkEvidence : ℕ → Except ProfileError Unit}
    {screened : List CandidateEvaluation} (h : EvaluationsOf config selected evaluations)
    (hscreen : screenEvaluations checkEvidence evaluations = .ok screened) :
    EvaluationsOf config selected screened ∧ screened.length = evaluations.length := by
  simp only [screenEvaluations, bind_eq_ok, pure_eq_ok] at hscreen
  obtain ⟨lost, hlost, rfl⟩ := hscreen
  have hlength : (dropLost lost evaluations).length = evaluations.length := by simp [dropLost]
  refine ⟨⟨?_, fun candidate hmem => ?_⟩, hlength⟩
  · rw [hlength, ← h.labels, dropLost, List.map_map]
    refine map_zipIdx evaluations _ _ fun i evaluation heval => ?_
    simp only [Function.comp_apply]
    split
    · rename_i rejected hlookup
      exact label_of_lost hlost hlookup heval
    · rfl
  · obtain ⟨p, hp, heq⟩ := List.mem_map.mp hmem
    split at heq
    · simp at heq
    · exact h.time candidate (heq ▸ List.fst_mem_of_mem_zipIdx hp)

/-! ## The ends of a call -/

theorem isVerified_iff {r : CandidateResult} : r.isVerified ↔ r.rejection? = none := by
  cases r <;> simp [CandidateResult.isVerified, CandidateResult.verified?, CandidateResult.rejection?]

theorem filterMap_verified_ne_nil {candidates : List CandidateResult} :
    candidates.filterMap CandidateResult.verified? ≠ [] ↔ ∃ r ∈ candidates, r.isVerified := by
  simp only [ne_eq, List.filterMap_eq_nil_iff, CandidateResult.isVerified, Option.isSome_iff_ne_none]
  push Not
  rfl

/-- A call that fails accounts for its candidates. -/
theorem accounted_failed (hselect : ∀ selection, selectCandidates config request = .ok selection →
      ∃ signatures, selection = .candidates signatures selected)
    (h : EvaluationsOf config selected evaluations)
    (hresult : failedResult config selected profile evaluations e = .ok result) :
    Accounted config request (some e) result := by
  obtain ⟨rejection, candidates, rfl, hlabels, hverified, hrejection⟩ := labels_failed h hresult
  refine ⟨by simp, ?_, fun _ _ _ _ => ⟨rfl, hverified⟩, ?_, by simp, ?_⟩
  · intro signatures selected' hselected
    obtain ⟨_, hselection⟩ := hselect _ hselected
    obtain ⟨-, rfl⟩ := CandidateSelection.candidates.inj hselection
    exact ⟨rfl, hlabels⟩
  · intro signatures selected' _ _
    refine ⟨by simp [VerificationResult.isVerified], ?_⟩
    rintro ⟨⟨r, hr, hr'⟩, -⟩
    simp [hverified r hr] at hr'
  · intro signatures selected' hselected hambiguous rejection' candidates' heq
    obtain ⟨_, hselection⟩ := hselect _ hselected
    obtain ⟨-, rfl⟩ := CandidateSelection.candidates.inj hselection
    obtain ⟨rfl, rfl⟩ := VerificationResult.failed.inj heq
    exact .inr ⟨e, rfl, hrejection hambiguous⟩

/-- A call that selected several candidates where exactly one is allowed accounts for them. -/
theorem accounted_ambiguous
    (hselect : selectCandidates config request = .ok (.candidates signatures selected))
    (hambiguous : isAmbiguous config selected) (h : EvaluationsOf config selected evaluations)
    (hlength : evaluations.length = selected.length)
    (hresult : ambiguousResult evaluations now = .ok result) :
    Accounted config request none result := by
  simp only [ambiguousResult, bind_eq_ok, pure_eq_ok] at hresult
  obtain ⟨candidates, hcandidates, rfl⟩ := hresult
  have hselected : ∀ {signatures' selected' : List ParsedSignature},
      selectCandidates config request = .ok (.candidates signatures' selected') →
        selected' = selected := fun h' =>
    (CandidateSelection.candidates.inj (Except.ok.inj (h'.symm.trans hselect))).2
  refine ⟨by simp, ?_, ?_, ?_, by simp, ?_⟩
  · intro _ _ h'
    obtain rfl := hselected h'
    exact ⟨rfl, (labels_ambiguous hcandidates).trans (h.labels_eq hlength)⟩
  · refine fun _ _ _ _ => ⟨rfl, fun r hr => ?_⟩
    obtain ⟨evaluation, -, hr⟩ := exists_of_mem_mapM hcandidates hr
    cases r with
    | rejected => rfl
    | verified v => exact absurd hr ambiguousCandidate_unverified
  · intro _ _ h' hunambiguous
    obtain rfl := hselected h'
    simp [hambiguous] at hunambiguous
  · intro _ _ h' hunambiguous
    obtain rfl := hselected h'
    simp [hambiguous] at hunambiguous

/-- A call that ends normally accounts for its candidates. -/
theorem accounted_final {checkEvidence : ℕ → Except ProfileError Unit}
    (hselect : selectCandidates config request = .ok (.candidates signatures selected))
    (hunambiguous : isAmbiguous config selected = false)
    (h : EvaluationsOf config selected evaluations)
    (hlength : evaluations.length = selected.length)
    (hlost : lostEvidence checkEvidence (eligibleCandidates evaluations) = .ok lost)
    (hresult : finalResult config.aggregate evaluations lost outcomes now = .ok result) :
    Accounted config request none result := by
  simp only [finalResult, bind_eq_ok] at hresult
  obtain ⟨candidates, hcandidates, haggregate⟩ := hresult
  have hlabels := (labels_final hlost hcandidates).trans (h.labels_eq hlength)
  have hselected : ∀ {signatures' selected' : List ParsedSignature},
      selectCandidates config request = .ok (.candidates signatures' selected') →
        selected' = selected := fun h' =>
    (CandidateSelection.candidates.inj (Except.ok.inj (h'.symm.trans hselect))).2
  unfold aggregate at haggregate
  simp only [filterMap_verified_ne_nil] at haggregate
  split at haggregate
  · rename_i hsome
    obtain rfl := pure_eq_ok.mp haggregate
    refine ⟨by simp, ?_, ?_, ?_, ?_, by simp⟩
    · intro _ _ h'
      obtain rfl := hselected h'
      exact ⟨rfl, hlabels⟩
    · intro _ _ h' hambiguous
      obtain rfl := hselected h'
      simp [hunambiguous] at hambiguous
    · refine fun _ _ _ _ => iff_of_true rfl ⟨hsome.1, hsome.2.imp_right fun hnone r hr => ?_⟩
      exact isVerified_iff.mpr (List.findSome?_eq_none_iff.mp hnone r hr)
    · intro replayProtected candidates' verified heq
      obtain ⟨rfl, rfl, rfl⟩ := VerificationResult.verified.inj heq
      exact ⟨rfl, List.all_eq_true⟩
  · rename_i hnone
    split at haggregate
    · simp at haggregate
    · rename_i rejection hrejection
      obtain rfl := pure_eq_ok.mp haggregate
      refine ⟨by simp, ?_, ?_, ?_, by simp, ?_⟩
      · intro _ _ h'
        obtain rfl := hselected h'
        exact ⟨rfl, hlabels⟩
      · intro _ _ h' hambiguous
        obtain rfl := hselected h'
        simp [hunambiguous] at hambiguous
      · refine fun _ _ _ _ => iff_of_false (by simp [VerificationResult.isVerified]) fun hsome =>
          hnone ⟨hsome.1, hsome.2.imp_right fun hall => ?_⟩
        exact List.findSome?_eq_none_iff.mpr fun r hr => isVerified_iff.mp (hall r hr)
      · intro _ _ _ _ rejection' candidates' heq
        obtain ⟨rfl, rfl⟩ := VerificationResult.failed.inj heq
        exact .inl ⟨hrejection, rfl⟩

end AgentSig.Profiles
