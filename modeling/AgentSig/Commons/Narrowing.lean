import AgentSig.Commons.Outcome

/-!
# Narrower runs

A run narrows another when it ends in the same way, or earlier with an error of a given kind. A run
under smaller limits narrows the run under larger ones, for the errors of exceeded limits: limits
turn outcomes into these errors and change nothing else.

## Main definitions

* `Narrows p x y`: `x` ends like `y`, or with an error in `p`

## Main results

* `Narrows.refl`, `Narrows.trans`: runs are preordered
* `Narrows.bind`, `Narrows.mapM`, `Narrows.forM`, `Narrows.foldlM`: runs narrow step by step
* `Narrows.ok`: the results of a narrower run are results of the other
-/

namespace Commons

variable {ε ε' α β γ : Type} {p : ε → Prop}

/-- `x` ends like `y`, or with an error in `p`. -/
def Narrows (p : ε → Prop) (x y : Except ε α) : Prop := x = y ∨ ∃ e, p e ∧ x = .error e

namespace Narrows

theorem refl (x : Except ε α) : Narrows p x x := .inl rfl

theorem of_eq {x y : Except ε α} (h : x = y) : Narrows p x y := .inl h

theorem of_error {e : ε} {y : Except ε α} (h : p e) : Narrows p (.error e) y := .inr ⟨e, h, rfl⟩

theorem trans {x y z : Except ε α} (h : Narrows p x y) (h' : Narrows p y z) : Narrows p x z := by
  rcases h with rfl | herror
  · exact h'
  · exact .inr herror

/-- A run whose results are results of another narrows it, for any error. -/
theorem of_results {x y : Except ε α} (h : ∀ a, x = .ok a → y = .ok a) :
    Narrows (fun _ => True) x y := by
  cases x with
  | error e => exact of_error trivial
  | ok a => exact of_eq (h a rfl).symm

/-- A result of the narrower run is a result of the other. -/
theorem ok {x y : Except ε α} (h : Narrows p x y) {a : α} (hx : x = .ok a) : y = .ok a := by
  rcases h with rfl | ⟨e, -, rfl⟩
  · exact hx
  · cases hx

/-- Where the other run fails, so does the narrower one. -/
theorem error {x y : Except ε α} (h : Narrows p x y) {e : ε} (hy : y = .error e) :
    ∃ e', x = .error e' ∧ (e' = e ∨ p e') := by
  rcases h with rfl | ⟨e', he', rfl⟩
  · exact ⟨e, hy, .inl rfl⟩
  · exact ⟨e', rfl, .inr he'⟩

/-- A run that goes on narrows step by step. -/
theorem bind {x y : Except ε α} {f g : α → Except ε β} (h : Narrows p x y)
    (hf : ∀ a, Narrows p (f a) (g a)) : Narrows p (x >>= f) (y >>= g) := by
  rcases h with rfl | ⟨e, he, rfl⟩
  · cases x with
    | error e => exact refl _
    | ok a => exact hf a
  · exact of_error he

/-- Two runs with the same first step narrow like what follows it. -/
theorem bind_right {x : Except ε α} {f g : α → Except ε β}
    (hf : ∀ a, x = .ok a → Narrows p (f a) (g a)) : Narrows p (x >>= f) (x >>= g) := by
  cases x with
  | error e => exact refl _
  | ok a => exact hf a rfl

/-- Two runs with the same continuation narrow like their first steps. -/
theorem bind_left {x y : Except ε α} (h : Narrows p x y) (f : α → Except ε β) :
    Narrows p (x >>= f) (y >>= f) :=
  h.bind fun a => refl (f a)

/-- A check narrows a weaker check when its error is in `p`. -/
theorem require {c d : Prop} [Decidable c] [Decidable d] {e e' : ε} (hcd : c → d) (he : p e) :
    Narrows p (Commons.require c e) (Commons.require d e') := by
  by_cases hc : c
  · rw [require_of hc, require_of (hcd hc)]
    exact refl _
  · rw [require_eq_error.mpr ⟨hc, rfl⟩]
    exact of_error he

theorem ite {c : Prop} [Decidable c] {x y x' y' : Except ε α} (h : Narrows p x y)
    (h' : Narrows p x' y') : Narrows p (if c then x else x') (if c then y else y') := by
  split
  · exact h
  · exact h'

theorem mapM {f g : α → Except ε β} {l : List α} (h : ∀ a ∈ l, Narrows p (f a) (g a)) :
    Narrows p (l.mapM f) (l.mapM g) := by
  induction l with
  | nil => exact refl _
  | cons a l ih =>
    obtain ⟨ha, hl⟩ := List.forall_mem_cons.mp h
    simp only [List.mapM_cons]
    apply ha.bind
    intro b
    exact (ih hl).bind_left _

theorem forM {f g : α → Except ε PUnit} {l : List α} (h : ∀ a ∈ l, Narrows p (f a) (g a)) :
    Narrows p (l.forM f) (l.forM g) := by
  induction l with
  | nil => exact refl _
  | cons a l ih =>
    obtain ⟨ha, hl⟩ := List.forall_mem_cons.mp h
    exact ha.bind fun _ => ih hl

theorem foldlM {f g : β → α → Except ε β} {l : List α} (h : ∀ b, ∀ a ∈ l, Narrows p (f b a) (g b a))
    (b : β) : Narrows p (l.foldlM f b) (l.foldlM g b) := by
  induction l generalizing b with
  | nil => exact refl _
  | cons a l ih =>
    simp only [List.foldlM_cons]
    apply (h b a List.mem_cons_self).bind
    intro c
    exact ih (fun c a ha => h c a (List.mem_cons_of_mem _ ha)) c

end Narrows

end Commons
