import Mathlib.Order.Nat
import Mathlib.Tactic.Common

/-!
# Trees of spans

A tree of half-open spans of a source, as a parser records it. The children of a node are laid out in the
order of the source: within the span of the node, one after the other, and none overlaps the next.

## Main definitions

* `SpanTree`: a span and the trees of its parts
* `Nested t`: the children of every node of `t` are laid out in its span
* `LaidOut a ts b`: the trees `ts` are laid out between the positions `a` and `b`

## Main results

* `LaidOut.append`, `LaidOut.widen`: layouts next to each other and with gaps
* `Nested.of_part`: every node of a nested tree is nested and within its span
* `Nested.children_within`, `Nested.children_pairwise`: what a node says of its children
-/

namespace Commons

/-- A span and the trees of its parts. -/
inductive SpanTree
  | node (start stop : ℕ) (children : List SpanTree)

namespace SpanTree

/-- The first position of a tree. -/
def start : SpanTree → ℕ
  | node start _ _ => start

/-- The position after a tree. -/
def stop : SpanTree → ℕ
  | node _ stop _ => stop

/-- The trees of the parts. -/
def children : SpanTree → List SpanTree
  | node _ _ children => children

/-- A node of a tree: the tree, or a node of a child. -/
inductive Part : SpanTree → SpanTree → Prop
  | refl {t : SpanTree} : Part t t
  | child {t c n : SpanTree} (hc : c ∈ t.children) (h : Part n c) : Part n t

mutual

/-- The children of every node are laid out in its span. -/
inductive Nested : SpanTree → Prop
  | node {a b : ℕ} {ts : List SpanTree} (h : LaidOut a ts b) : Nested (.node a b ts)

/-- Trees that are nested, one after the other between two positions. -/
inductive LaidOut : ℕ → List SpanTree → ℕ → Prop
  | nil {a b : ℕ} (h : a ≤ b) : LaidOut a [] b
  | cons {a b : ℕ} {t : SpanTree} {ts : List SpanTree} (h : a ≤ t.start) (ht : Nested t)
      (hts : LaidOut t.stop ts b) : LaidOut a (t :: ts) b

end

mutual

/-- A nested tree does not end before it starts. -/
theorem Nested.le : ∀ {t : SpanTree}, Nested t → t.start ≤ t.stop
  | _, .node h => h.le

theorem LaidOut.le : ∀ {a b : ℕ} {ts : List SpanTree}, LaidOut a ts b → a ≤ b
  | _, _, _, .nil h => h
  | _, _, _, .cons h ht hts => h.trans (ht.le.trans hts.le)

end

variable {a b c : ℕ} {t u : SpanTree} {ts us : List SpanTree}

/-- A leaf is nested when it does not end before it starts. -/
theorem nested_leaf (h : a ≤ b) : Nested (.node a b []) := .node (.nil h)

theorem LaidOut.single (ht : Nested t) : LaidOut t.start [t] t.stop := .cons le_rfl ht (.nil le_rfl)

/-- A layout followed by another. -/
theorem LaidOut.append (hts : LaidOut a ts b) (hus : LaidOut b us c) : LaidOut a (ts ++ us) c := by
  induction ts generalizing a with
  | nil =>
    cases hts with
    | nil h =>
      cases hus with
      | nil h' => exact .nil (h.trans h')
      | cons h' ht hus => exact .cons (h.trans h') ht hus
  | cons t ts ih =>
    cases hts with
    | cons h ht hts => exact .cons h ht (ih hts)

/-- A layout with gaps before and after it. -/
theorem LaidOut.widen {a' b' : ℕ} (h : LaidOut a ts b) (ha : a' ≤ a) (hb : b ≤ b') :
    LaidOut a' ts b' := by
  have hbefore : LaidOut a' [] a := .nil ha
  have hafter : LaidOut b [] b' := .nil hb
  have hwide := (hbefore.append h).append hafter
  rwa [List.nil_append, List.append_nil] at hwide

/-- Each tree of a layout is nested and within the layout. -/
theorem LaidOut.of_mem (h : LaidOut a ts b) (hmem : t ∈ ts) : a ≤ t.start ∧ Nested t ∧ t.stop ≤ b := by
  induction ts generalizing a with
  | nil => cases hmem
  | cons u us ih =>
    cases h with
    | cons ha hu hus =>
      rcases List.mem_cons.mp hmem with rfl | hmem
      · exact ⟨ha, hu, hus.le⟩
      · obtain ⟨hstart, ht, hstop⟩ := ih hus hmem
        exact ⟨ha.trans (hu.le.trans hstart), ht, hstop⟩

/-- The trees of a layout are in order and do not overlap. -/
theorem LaidOut.pairwise (h : LaidOut a ts b) : ts.Pairwise fun t u => t.stop ≤ u.start := by
  induction ts generalizing a with
  | nil => exact .nil
  | cons t ts ih =>
    cases h with
    | cons ha ht hts => exact .cons (fun u hu => (hts.of_mem hu).1) (ih hts)

theorem Nested.children_laidOut (h : Nested t) : LaidOut t.start t.children t.stop := by
  cases h with
  | node h => exact h

/-- A child is within the span of its node. -/
theorem Nested.children_within (h : Nested t) (hu : u ∈ t.children) :
    t.start ≤ u.start ∧ u.stop ≤ t.stop :=
  ⟨(h.children_laidOut.of_mem hu).1, (h.children_laidOut.of_mem hu).2.2⟩

/-- Children are in order and do not overlap. -/
theorem Nested.children_pairwise (h : Nested t) : t.children.Pairwise fun t u => t.stop ≤ u.start :=
  h.children_laidOut.pairwise

/-- Every node of a nested tree is nested and within its span. -/
theorem Nested.of_part (h : Nested t) (hu : Part u t) : Nested u ∧ t.start ≤ u.start ∧ u.stop ≤ t.stop := by
  induction hu with
  | refl => exact ⟨h, le_rfl, le_rfl⟩
  | @child t c n hc _ ih =>
    obtain ⟨hstart, hc', hstop⟩ := h.children_laidOut.of_mem hc
    obtain ⟨hn, hstart', hstop'⟩ := ih hc'
    exact ⟨hn, hstart.trans hstart', hstop'.trans hstop⟩

end SpanTree

end Commons
