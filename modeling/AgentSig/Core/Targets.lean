import AgentSig.Core.Transport

/-!
# Components of targets

The components that are derived from a target are those of its parts. Lower case keeps the shape of a host.

## Main results

* `mem_toLowerCase`: lower case keeps a class that has the lower-case letters
* `requestComponent_parts`: the derived components of an accepted target
-/

namespace AgentSig.Core

open Commons

variable {P : Platform} {L : CoreLimits} {request : RequestParts} {parts : TargetParts}

/-! ## Lower case -/

/-- The characters of a class that has the lower-case letters stay in it. -/
theorem mem_toLowerCase {p : UInt16 → Bool} (hp : ∀ c, 97 ≤ c → c ≤ 122 → p c) {t : Text}
    (ht : ∀ c ∈ t, p c) : ∀ c ∈ toLowerCase t, p c := by
  intro c hc
  obtain ⟨d, hd, rfl⟩ := List.mem_map.mp hc
  split
  · rename_i hupper
    have hlow : 97 ≤ d + 32 ∧ d + 32 ≤ 122 := by
      obtain ⟨h65, h90⟩ := hupper
      simp only [UInt16.le_iff_toNat_le, UInt16.toNat_add, UInt16.reduceToNat] at h65 h90 ⊢
      omega
    exact hp _ hlow.1 hlow.2
  · exact ht d hd

theorem toLowerCase_toLowerCase (t : Text) : toLowerCase (toLowerCase t) = toLowerCase t := by
  unfold toLowerCase
  rw [List.map_map]
  refine List.map_congr_left fun c _ => ?_
  by_cases hc : 65 ≤ c ∧ c ≤ 90
  · have hlow : ¬ (65 ≤ c + 32 ∧ c + 32 ≤ 90) := by
      obtain ⟨h65, h90⟩ := hc
      simp only [UInt16.le_iff_toNat_le, UInt16.toNat_add, UInt16.reduceToNat] at h65 h90 ⊢
      omega
    simp [Function.comp, hc, hlow]
  · simp [Function.comp, hc]

theorem toLowerCase_ne_nil {t : Text} (h : t ≠ []) : toLowerCase t ≠ [] := by
  simpa [toLowerCase] using h

/-- The address of a host in brackets. -/
theorem toLowerCase_bracketed (inner : Text) :
    toLowerCase (91 :: (inner ++ [93])) = 91 :: (toLowerCase inner ++ [93]) := by
  simp [toLowerCase]

/-! ## Components -/

/-- The components that are derived from an accepted target. -/
theorem requestComponent_parts (h : targetParts P L request.targetUri = .ok parts)
    (encodedQueryName : Option Text) :
    requestComponent P L request (ascii "@target-uri") encodedQueryName = .ok parts.original ∧
      requestComponent P L request (ascii "@authority") encodedQueryName = .ok parts.authority ∧
      requestComponent P L request (ascii "@scheme") encodedQueryName = .ok parts.scheme ∧
      requestComponent P L request (ascii "@path") encodedQueryName = .ok parts.path ∧
      requestComponent P L request (ascii "@query") encodedQueryName = .ok parts.query := by
  refine ⟨?_, ?_, ?_, ?_, ?_⟩
  all_goals
    rw [requestComponent, if_neg (by decide), if_neg (by decide), h]
    rfl

end AgentSig.Core
