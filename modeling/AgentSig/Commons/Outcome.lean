import Mathlib.Tactic.Common

/-!
# Outcomes of fallible computations

A computation that can throw is an `Except`. A run of `do` that returns is taken apart into
its steps by `bind_eq_ok`, so no proof about such a run unfolds the monad.

## Main definitions

* `require c e`: throw `e` unless `c` holds

## Main results

* `bind_eq_ok`, `ite_throw_eq_ok`, `require_eq_ok`: the steps of a run that returns
* `bind_eq_error`: the step at which a run throws
* `foldlM_invariant`: the invariant of a loop
-/

namespace Commons

variable {ε α β : Type}

@[simp] theorem bind_eq_ok {x : Except ε α} {f : α → Except ε β} {b : β} :
    (x >>= f) = .ok b ↔ ∃ a, x = .ok a ∧ f a = .ok b := by
  cases x <;> simp [bind, Except.bind]

theorem bind_eq_error {x : Except ε α} {f : α → Except ε β} {e : ε} :
    (x >>= f) = .error e ↔ x = .error e ∨ ∃ a, x = .ok a ∧ f a = .error e := by
  cases x <;> simp [bind, Except.bind]

@[simp] theorem ok_bind (a : α) (f : α → Except ε β) : (Except.ok a >>= f) = f a := rfl

@[simp] theorem error_bind (e : ε) (f : α → Except ε β) :
    ((Except.error e : Except ε α) >>= f) = .error e := rfl

@[simp] theorem pure_eq_ok {a b : α} : (pure a : Except ε α) = .ok b ↔ a = b := by
  simp [pure, Except.pure]

@[simp] theorem throw_eq_ok {e : ε} {b : α} : (throw e : Except ε α) = .ok b ↔ False := by
  simp [throw, throwThe, MonadExceptOf.throw]

@[simp] theorem ite_throw_eq_ok {c : Prop} [Decidable c] {e : ε} {x : Except ε α} {b : α} :
    (if c then throw e else x) = .ok b ↔ ¬ c ∧ x = .ok b := by
  split <;> simp_all

/-- Throw `e` unless `c` holds. -/
def require (c : Prop) [Decidable c] (e : ε) : Except ε Unit :=
  if c then pure () else throw e

@[simp] theorem require_eq_ok {c : Prop} [Decidable c] {e : ε} {u : Unit} :
    require c e = .ok u ↔ c := by
  unfold require
  split <;> simp_all

theorem require_of {c : Prop} [Decidable c] {e : ε} (h : c) : require c e = .ok () := by
  simp [h]

theorem require_eq_error {c : Prop} [Decidable c] {e e' : ε} :
    require c e = .error e' ↔ ¬ c ∧ e = e' := by
  unfold require
  split <;> simp_all [pure, Except.pure, throw, throwThe, MonadExceptOf.throw]

@[simp] theorem map_eq_ok {x : Except ε α} {f : α → β} {b : β} :
    f <$> x = .ok b ↔ ∃ a, x = .ok a ∧ f a = b := by
  cases x <;> simp [Functor.map, Except.map]

/-- A loop over a list returns exactly when each round does. -/
theorem forM_eq_ok {f : α → Except ε Unit} {l : List α} {u : Unit} :
    l.forM f = .ok u ↔ ∀ a ∈ l, f a = .ok () := by
  induction l with
  | nil => simp
  | cons a l ih =>
    rw [show (a :: l).forM f = (f a >>= fun _ => l.forM f) from rfl, bind_eq_ok, ih,
      List.forall_mem_cons]
    constructor
    · rintro ⟨⟨⟩, ha, hl⟩
      exact ⟨ha, hl⟩
    · rintro ⟨ha, hl⟩
      exact ⟨(), ha, hl⟩

/-- Where each element succeeds, so does the list. -/
theorem exists_mapM {f : α → Except ε β} {l : List α} (h : ∀ a ∈ l, ∃ b, f a = .ok b) :
    ∃ r, l.mapM f = .ok r := by
  induction l with
  | nil => exact ⟨[], rfl⟩
  | cons x l ih =>
    obtain ⟨⟨b, hb⟩, hrest⟩ := List.forall_mem_cons.mp h
    obtain ⟨bs, hbs⟩ := ih hrest
    exact ⟨b :: bs, by simp only [List.mapM_cons, hb, hbs, ok_bind, pure_eq_ok]⟩

/-- A map over a list has the result of each round. -/
theorem exists_mem_of_mapM {f : α → Except ε β} {l : List α} {r : List β} (h : l.mapM f = .ok r)
    {a : α} (ha : a ∈ l) : ∃ b ∈ r, f a = .ok b := by
  induction l generalizing r with
  | nil => simp at ha
  | cons x l ih =>
    simp only [List.mapM_cons, bind_eq_ok, pure_eq_ok] at h
    obtain ⟨b, hb, bs, hbs, rfl⟩ := h
    rcases List.mem_cons.mp ha with rfl | ha
    · exact ⟨b, List.mem_cons_self, hb⟩
    · obtain ⟨b', hb', h⟩ := ih hbs ha
      exact ⟨b', List.mem_cons_of_mem _ hb', h⟩

/-- A result of a map over a list is that of a round. -/
theorem exists_of_mem_mapM {f : α → Except ε β} {l : List α} {r : List β} (h : l.mapM f = .ok r)
    {b : β} (hb : b ∈ r) : ∃ a ∈ l, f a = .ok b := by
  induction l generalizing r with
  | nil =>
    obtain rfl := pure_eq_ok.mp h
    simp at hb
  | cons x l ih =>
    simp only [List.mapM_cons, bind_eq_ok, pure_eq_ok] at h
    obtain ⟨c, hc, cs, hcs, rfl⟩ := h
    rcases List.mem_cons.mp hb with rfl | hb
    · exact ⟨x, List.mem_cons_self, hc⟩
    · obtain ⟨a, ha, h⟩ := ih hcs hb
      exact ⟨a, List.mem_cons_of_mem _ ha, h⟩

/-- The results of a map over a list stand where their rounds do. -/
theorem getElem?_of_mapM {f : α → Except ε β} {l : List α} {r : List β} (h : l.mapM f = .ok r)
    {i : ℕ} {b : β} (hb : r[i]? = some b) : ∃ a, l[i]? = some a ∧ f a = .ok b := by
  induction l generalizing r i with
  | nil =>
    obtain rfl := pure_eq_ok.mp h
    simp at hb
  | cons x l ih =>
    simp only [List.mapM_cons, bind_eq_ok, pure_eq_ok] at h
    obtain ⟨c, hc, cs, hcs, rfl⟩ := h
    cases i with
    | zero =>
      obtain rfl := Option.some.inj hb
      exact ⟨x, rfl, hc⟩
    | succ i => exact ih hcs hb

/-- What each round of a map agrees on, the map agrees on. -/
theorem mapM_map_eq {γ : Type} {f : α → Except ε β} {g : β → γ} {k : α → γ} {l : List α}
    {r : List β} (hround : ∀ a ∈ l, ∀ b, f a = .ok b → g b = k a) (h : l.mapM f = .ok r) :
    r.map g = l.map k := by
  induction l generalizing r with
  | nil =>
    obtain rfl := pure_eq_ok.mp h
    rfl
  | cons a l ih =>
    simp only [List.mapM_cons, bind_eq_ok, pure_eq_ok] at h
    obtain ⟨b, hb, bs, hbs, rfl⟩ := h
    rw [List.map_cons, List.map_cons, hround a List.mem_cons_self b hb,
      ih (fun a ha => hround a (List.mem_cons_of_mem _ ha)) hbs]

/-- A map over a list pairs each element with its result. -/
theorem forall₂_of_mapM {f : α → Except ε β} {l : List α} {r : List β} (h : l.mapM f = .ok r) :
    List.Forall₂ (fun a b => f a = .ok b) l r := by
  induction l generalizing r with
  | nil =>
    obtain rfl := pure_eq_ok.mp h
    exact .nil
  | cons a l ih =>
    simp only [List.mapM_cons, bind_eq_ok, pure_eq_ok] at h
    obtain ⟨b, hb, bs, hbs, rfl⟩ := h
    exact .cons hb (ih hbs)

/-- What each round of a loop keeps, the loop keeps. -/
theorem foldlM_invariant (I : β → Prop) {f : β → α → Except ε β} {l : List α} {b b' : β}
    (hb : I b) (hstep : ∀ {a b b'}, a ∈ l → I b → f b a = .ok b' → I b')
    (h : l.foldlM f b = .ok b') : I b' := by
  induction l generalizing b with
  | nil => exact pure_eq_ok.mp h ▸ hb
  | cons a l ih =>
    rw [List.foldlM_cons] at h
    obtain ⟨c, hc, h⟩ := bind_eq_ok.mp h
    exact ih (hstep List.mem_cons_self hb hc) (fun hmem => hstep (List.mem_cons_of_mem _ hmem)) h

/-- Two runs that go on alike after a first step are alike. -/
theorem bind_congr_ok {x : Except ε α} {f g : α → Except ε β} (h : ∀ a, x = .ok a → f a = g a) :
    (x >>= f) = (x >>= g) := by
  cases x with
  | error e => rfl
  | ok a => exact h a rfl

end Commons
