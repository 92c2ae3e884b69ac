import Mathlib.Data.List.Basic
import Mathlib.Tactic.Common

/-!
# Runs and their histories

A run of a system is a sequence of steps from an initial state, each of which adds some events
to the history. Invariants relate the history of a run to its last state; an event of a history
was added by one of the steps, in a state that a run reaches.

## Main definitions

* `Run init step es s`: a run with the history `es` ends in `s`
* `runAll step actions s es`: the state and the history after some actions

## Main results

* `Run.invariant`: what the initial states satisfy and the steps preserve holds of every run
* `Run.append`: runs compose
* `Run.invariant_after`: the same, of the continuations of a run
* `Run.exists_step_at`, `Run.exists_step`: an event was added by a step of the run
* `Run.runAll`: a list of actions continues a run
-/

namespace Commons

variable {σ ε : Type}

/-- A run with the history `es`, oldest event first, ends in a state. -/
inductive Run (init : σ → Prop) (step : σ → List ε → σ → Prop) : List ε → σ → Prop
  | init {s : σ} : init s → Run init step [] s
  | step {es fs : List ε} {s t : σ} : Run init step es s → step s fs t → Run init step (es ++ fs) t

/-- An event of two histories in a row is in one of them. -/
theorem append_eq_append_cons {es fs pre mid : List ε} {e : ε} (h : es ++ fs = pre ++ e :: mid) :
    (∃ mid', es = pre ++ e :: mid' ∧ mid = mid' ++ fs) ∨
      ∃ pre', pre = es ++ pre' ∧ fs = pre' ++ e :: mid := by
  rcases List.append_eq_append_iff.mp h with ⟨pre', rfl, rfl⟩ | ⟨post, rfl, hpost⟩
  · exact .inr ⟨pre', rfl, rfl⟩
  · rcases List.cons_eq_append_iff.mp hpost with ⟨rfl, hfs⟩ | ⟨mid', rfl, rfl⟩
    · exact .inr ⟨[], by simp, hfs⟩
    · exact .inl ⟨mid', rfl, rfl⟩

/-- An event of a history and one more event is in the history, or it is that event. -/
theorem append_singleton_eq_append_cons {es pre post : List ε} {e f : ε}
    (h : es ++ [f] = pre ++ e :: post) :
    (∃ post', es = pre ++ e :: post' ∧ post = post' ++ [f]) ∨ es = pre ∧ f = e ∧ post = [] := by
  rcases append_eq_append_cons h with ⟨post', rfl, rfl⟩ | ⟨pre', rfl, hlast⟩
  · exact .inl ⟨post', rfl, rfl⟩
  · rcases List.cons_eq_append_iff.mp hlast with ⟨rfl, hlast⟩ | ⟨_, -, hnil⟩
    · obtain ⟨rfl, rfl⟩ := List.cons.inj hlast
      exact .inr ⟨(List.append_nil _).symm, rfl, rfl⟩
    · simp at hnil

namespace Run

variable {init : σ → Prop} {step : σ → List ε → σ → Prop} {es : List ε} {s : σ}

/-- What the initial states satisfy and the steps preserve holds of every run. -/
theorem invariant {I : List ε → σ → Prop} (h : Run init step es s) (hinit : ∀ s, init s → I [] s)
    (hstep : ∀ {es fs s t}, Run init step es s → I es s → step s fs t → I (es ++ fs) t) :
    I es s := by
  induction h with
  | init h => exact hinit _ h
  | step hrun h ih => exact hstep hrun ih h

/-- A run goes on from where another has ended. -/
theorem append (h : Run init step es s) {fs : List ε} {t : σ} (h' : Run (· = s) step fs t) :
    Run init step (es ++ fs) t := by
  induction h' with
  | init heq => rwa [List.append_nil, heq]
  | step _ hstep ih =>
    rw [← List.append_assoc]
    exact ih.step hstep

/-- What holds where a run goes on and is preserved by the steps holds of every continuation. -/
theorem invariant_after {I : List ε → σ → Prop} (h : Run init step es s) {fs : List ε} {t : σ}
    (h' : Run (· = s) step fs t) (hinit : I [] s)
    (hstep : ∀ {fs gs t u}, Run init step (es ++ fs) t → I fs t → step t gs u → I (fs ++ gs) u) :
    I fs t := by
  induction h' with
  | init heq => exact heq ▸ hinit
  | step hrun h' ih => exact hstep (h.append hrun) ih h'

/-- An event of a history was added by a step of the run, from which the run goes on. -/
theorem exists_step_at (h : Run init step es s) {pre post : List ε} {e : ε}
    (hes : es = pre ++ e :: post) :
    ∃ pre' before after post' t t', pre = pre' ++ before ∧ post = after ++ post' ∧
      Run init step pre' t ∧ step t (before ++ e :: after) t' ∧ Run (· = t') step post' s := by
  induction h generalizing post with
  | init => simp at hes
  | @step es fs s t hrun h ih =>
    rcases append_eq_append_cons hes with ⟨mid, hmid, rfl⟩ | ⟨before, rfl, rfl⟩
    · obtain ⟨pre', before, after, post', u, u', rfl, rfl, hpre, hu, hpost⟩ := ih hmid
      exact ⟨pre', before, after, post' ++ fs, u, u', rfl, by simp, hpre, hu, hpost.step h⟩
    · exact ⟨es, before, post, [], s, t, rfl, by simp, hrun, h, .init rfl⟩

/-- An event was added by a step of the run, from which the run goes on. -/
theorem exists_step (h : Run init step es s) {e : ε} (he : e ∈ es) :
    ∃ pre fs post t t', es = pre ++ fs ++ post ∧ Run init step pre t ∧ step t fs t' ∧ e ∈ fs ∧
      Run (· = t') step post s := by
  obtain ⟨pre, post, hes⟩ := List.append_of_mem he
  obtain ⟨pre', before, after, post', t, t', rfl, rfl, hpre, hstep, hpost⟩ := h.exists_step_at hes
  exact ⟨pre', before ++ e :: after, post', t, t', by simp [hes], hpre, hstep, by simp, hpost⟩

end Run

section Actions

variable {a : Type} (step : σ → a → Option (σ × List ε))

/-- The state and the history after some actions, if each of them is one of its state. -/
def runAll : List a → σ → List ε → Option (σ × List ε)
  | [], s, es => some (s, es)
  | action :: rest, s, es => (step s action).bind fun t => runAll rest t.1 (es ++ t.2)

/-- A list of actions continues a run. -/
theorem Run.runAll {step : σ → a → Option (σ × List ε)} {init : σ → Prop} {actions : List a}
    {es fs : List ε} {s t : σ}
    (h : Run init (fun s events t => ∃ action, step s action = some (t, events)) es s)
    (hactions : Commons.runAll step actions s es = some (t, fs)) :
    Run init (fun s events t => ∃ action, step s action = some (t, events)) fs t := by
  induction actions generalizing s es with
  | nil =>
    obtain ⟨rfl, rfl⟩ := Prod.mk.inj (Option.some.inj hactions)
    exact h
  | cons action rest ih =>
    obtain ⟨⟨t', es'⟩, hstep, hrest⟩ := Option.bind_eq_some_iff.mp hactions
    exact ih (h.step ⟨action, hstep⟩) hrest

end Actions

end Commons
