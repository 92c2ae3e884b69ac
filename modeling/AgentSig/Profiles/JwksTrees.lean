import AgentSig.Profiles.JwksInput
import Mathlib.Data.Set.Card

/-!
# The trees of graphs

A graph of JSON data stands for a tree: an object that is referred to more than once stands for as many
copies of its tree. A graph with a cycle, a hole, an accessor or a value that is no JSON has no tree, and
every other finite graph has one.

## Main definitions

* `unfold`, `Denotes heap value j`: the graph of a value has the tree `j`
* `Reaches heap value v`: the graph of a value reaches `v`
* `Faulty heap value`: the graph reaches a cycle or something that is no JSON data

## Main results

* `GraphObject.valueCount_assemble`: the octets of the text of a tree
* `Faulty.not_denotes`, `denotes_or_faulty`: a finite graph has a tree exactly when it is not faulty
* `proper_of_unfold`: numbers of a tree are finite, and names are distinct
-/

namespace AgentSig.Profiles.Snapshot

open Commons

/-! ## The tree of a graph -/

namespace GraphObject

/-- The tree of an object whose properties have these trees. -/
def assemble (trees : List JsonValue) : GraphObject → JsonValue
  | .plain object => .object ((object.members.map (·.1)).zip trees)
  | .array _ | .foreign => .array trees

end GraphObject

/-- The tree of a property, which is a data property. -/
def slotTree (tree : GraphValue → Option JsonValue) : Option Property → Option JsonValue
  | some (.data value) => tree value
  | _ => none

/-- The tree of a value in which objects nest at most so deep. -/
def unfold (heap : Heap) : ℕ → GraphValue → Option JsonValue
  | depth + 1, .reference source => do
    let slots ← (heap source).slots
    let trees ← slots.mapM (slotTree (unfold heap depth))
    return (heap source).assemble trees
  | _, value => leaf value

/-- The graph of a value has a tree. -/
def Denotes (heap : Heap) (value : GraphValue) (j : JsonValue) : Prop :=
  ∃ depth, unfold heap depth value = some j

variable {heap : Heap}

theorem mapM_eq_some {α β : Type} {f : α → Option β} {l : List α} {r : List β} :
    l.mapM f = some r ↔ List.Forall₂ (fun a b => f a = some b) l r := by
  induction l generalizing r with
  | nil => cases r <;> simp
  | cons a l ih =>
    rw [List.mapM_cons, Option.bind_eq_bind, Option.bind_eq_some_iff, List.forall₂_cons_left_iff]
    constructor
    · rintro ⟨b, hb, h⟩
      rw [Option.bind_eq_bind, Option.bind_eq_some_iff] at h
      obtain ⟨bs, hbs, h⟩ := h
      cases h
      exact ⟨b, bs, hb, ih.mp hbs, rfl⟩
    · rintro ⟨b, bs, hb, hbs, rfl⟩
      exact ⟨b, hb, by rw [ih.mpr hbs]; rfl⟩

/-- Each element of paired lists is paired with one of the other. -/
theorem exists_of_forall₂ {α β : Type} {R : α → β → Prop} {l : List α} {r : List β}
    (h : List.Forall₂ R l r) : (∀ a ∈ l, ∃ b ∈ r, R a b) ∧ ∀ b ∈ r, ∃ a ∈ l, R a b := by
  induction h with
  | nil => simp
  | @cons a b l r hab _ ih =>
    constructor
    · rw [List.forall_mem_cons]
      refine ⟨⟨b, List.mem_cons_self, hab⟩, fun c hc => ?_⟩
      obtain ⟨d, hd, hcd⟩ := ih.1 c hc
      exact ⟨d, List.mem_cons_of_mem b hd, hcd⟩
    · rw [List.forall_mem_cons]
      refine ⟨⟨a, List.mem_cons_self, hab⟩, fun c hc => ?_⟩
      obtain ⟨d, hd, hcd⟩ := ih.2 c hc
      exact ⟨d, List.mem_cons_of_mem a hd, hcd⟩

/-- The trees of the properties of an object. -/
def SlotTrees (heap : Heap) (depth : ℕ) : List (Option Property) → List JsonValue → Prop :=
  List.Forall₂ fun slot tree => slotTree (unfold heap depth) slot = some tree

theorem unfold_reference {depth source : ℕ} {j : JsonValue} :
    unfold heap (depth + 1) (.reference source) = some j ↔ ∃ slots trees,
      (heap source).slots = some slots ∧ SlotTrees heap depth slots trees ∧
        (heap source).assemble trees = j := by
  rw [unfold]
  simp only [Option.bind_eq_bind, Option.bind_eq_some_iff, mapM_eq_some, SlotTrees, Option.pure_def,
    Option.some.injEq]
  constructor
  · rintro ⟨slots, hslots, trees, htrees, rfl⟩
    exact ⟨slots, trees, hslots, htrees, rfl⟩
  · rintro ⟨slots, trees, hslots, htrees, rfl⟩
    exact ⟨slots, hslots, trees, htrees, rfl⟩

theorem unfold_of_leaf {value : GraphValue} {j : JsonValue} (h : leaf value = some j) (depth : ℕ) :
    unfold heap depth value = some j := by
  cases value with
  | reference r => cases h
  | _ => cases depth <;> exact h

theorem unfold_of_not_reference {value : GraphValue} (h : ∀ r, value ≠ .reference r) (depth : ℕ) :
    unfold heap depth value = leaf value := by
  cases value with
  | reference r => exact absurd rfl (h r)
  | _ => cases depth <;> rfl

/-- A tree is found at every greater depth. -/
theorem unfold_succ {depth : ℕ} {value : GraphValue} {j : JsonValue}
    (h : unfold heap depth value = some j) : unfold heap (depth + 1) value = some j := by
  induction depth generalizing value j with
  | zero =>
    have hleaf : leaf value = some j := by
      cases value <;> exact h
    exact unfold_of_leaf hleaf _
  | succ depth ih =>
    by_cases hvalue : ∃ source, value = .reference source
    · obtain ⟨source, rfl⟩ := hvalue
      obtain ⟨slots, trees, hslots, htrees, rfl⟩ := unfold_reference.mp h
      refine unfold_reference.mpr ⟨slots, trees, hslots, htrees.imp ?_, rfl⟩
      intro slot tree hslot
      match slot, hslot with
      | some (.data value), hslot => exact ih hslot
    · rw [unfold_of_not_reference (not_exists.mp hvalue)] at h ⊢
      exact h

theorem unfold_mono {depth depth' : ℕ} (hle : depth ≤ depth') {value : GraphValue} {j : JsonValue}
    (h : unfold heap depth value = some j) : unfold heap depth' value = some j := by
  induction hle with
  | refl => exact h
  | step _ ih => exact unfold_succ ih

/-- A graph has at most one tree. -/
theorem Denotes.unique {value : GraphValue} {j j' : JsonValue} (h : Denotes heap value j)
    (h' : Denotes heap value j') : j = j' := by
  obtain ⟨depth, hd⟩ := h
  obtain ⟨depth', hd'⟩ := h'
  have hmax := unfold_mono (Nat.le_max_left depth depth') hd
  have hmax' := unfold_mono (Nat.le_max_right depth depth') hd'
  exact Option.some.inj (hmax.symm.trans hmax')

/-- The least depth at which an object has its tree. -/
theorem exists_least_depth {depth source : ℕ} {j : JsonValue}
    (h : unfold heap depth (.reference source) = some j) :
    ∃ e < depth, unfold heap (e + 1) (.reference source) = some j ∧
      unfold heap e (.reference source) = none := by
  induction depth with
  | zero => cases h
  | succ depth ih =>
    cases hless : unfold heap depth (.reference source) with
    | none => exact ⟨depth, Nat.lt_succ_self _, h, hless⟩
    | some j' =>
      have heq : j' = j := Denotes.unique ⟨depth, hless⟩ ⟨depth + 1, h⟩
      subst heq
      obtain ⟨e, hlt, he⟩ := ih hless
      exact ⟨e, Nat.lt_succ_of_lt hlt, he⟩

/-! ## Octets of a tree -/

section Octets

variable (format : NumberFormat)

namespace GraphObject

/-- The comma that is charged before a property, after `n` others. -/
def commaCount (n : ℕ) : GraphObject → ℕ
  | .plain _ => 0
  | .array _ | .foreign => if 0 < n then 1 else 0

/-- What the trees of the properties of an object spend, after those of `n` others. -/
def pendingCount (o : GraphObject) (n : ℕ) : List JsonValue → ℕ
  | [] => 0
  | tree :: trees => o.commaCount n + valueCount format tree + pendingCount o (n + 1) trees

theorem pendingCount_plain (object : PlainObject) (n : ℕ) (trees : List JsonValue) :
    (GraphObject.plain object).pendingCount format n trees = (trees.map (valueCount format)).sum := by
  induction trees generalizing n with
  | nil => rfl
  | cons tree trees ih =>
    rw [pendingCount, ih, List.map_cons, List.sum_cons, commaCount]
    omega

theorem pendingCount_array_of_pos (elements : List (Option Property)) {n : ℕ} (h : 0 < n)
    (trees : List JsonValue) : (GraphObject.array elements).pendingCount format n trees =
      (trees.map (valueCount format)).sum + trees.length := by
  induction trees generalizing n with
  | nil => rfl
  | cons tree trees ih =>
    rw [pendingCount, ih (Nat.succ_pos n), List.map_cons, List.sum_cons, commaCount, if_pos h,
      List.length_cons]
    omega

theorem pendingCount_array (elements : List (Option Property)) (trees : List JsonValue) :
    (GraphObject.array elements).pendingCount format 0 trees =
      (trees.map (valueCount format)).sum + (trees.length - 1) := by
  cases trees with
  | nil => rfl
  | cons tree trees =>
    rw [pendingCount, pendingCount_array_of_pos format elements Nat.one_pos, List.map_cons,
      List.sum_cons, commaCount, List.length_cons]
    simp
    omega

theorem sum_memberCount (keys : List Text) (trees : List JsonValue) (h : keys.length = trees.length) :
    ((keys.zip trees).map (memberCount format)).sum =
      (keys.map fun key => octetCount (quoteText key) + 1).sum + (trees.map (valueCount format)).sum := by
  induction keys generalizing trees with
  | nil =>
    obtain rfl := List.length_eq_zero_iff.mp h.symm
    rfl
  | cons key keys ih =>
    cases trees with
    | nil => cases h
    | cons tree trees =>
      simp only [List.zip_cons_cons, List.map_cons, List.sum_cons, memberCount,
        ih trees (Nat.succ.inj h)]
      omega

/-- The octets of the tree of an object: what opening it spends, and what its properties do. -/
theorem valueCount_assemble {o : GraphObject} {slots : List (Option Property)}
    (hslots : o.slots = some slots) {trees : List JsonValue} (hlength : slots.length = trees.length) :
    valueCount format (o.assemble trees) = o.openCount + o.pendingCount format 0 trees := by
  cases o with
  | foreign => cases hslots
  | array elements => rw [assemble, valueCount_array, openCount, pendingCount_array]
  | plain object =>
    obtain rfl := Option.some.inj hslots
    rw [List.length_map] at hlength
    rw [assemble, valueCount_object, openCount, pendingCount_plain, namesCount_zero,
      sum_memberCount format _ _ (by simpa using hlength), List.length_zip, List.length_map, hlength,
      Nat.min_self]
    omega

/-- What an array is required to need at least is what it needs. -/
theorem leastCount_le {o : GraphObject} {slots : List (Option Property)}
    (hslots : o.slots = some slots) {trees : List JsonValue} (hlength : slots.length = trees.length) :
    o.leastCount ≤ o.pendingCount format 0 trees := by
  cases o with
  | foreign => cases hslots
  | plain object => exact Nat.zero_le _
  | array elements =>
    obtain rfl := Option.some.inj hslots
    have hsum : trees.length ≤ (trees.map (valueCount format)).sum := by
      clear hlength
      induction trees with
      | nil => exact le_rfl
      | cons tree trees ih =>
        have := valueCount_pos format tree
        rw [List.length_cons, List.map_cons, List.sum_cons]
        omega
    rw [leastCount, pendingCount_array]
    split <;> omega

end GraphObject

end Octets

/-! ## Properties that have trees -/

section Properties

variable {source : ℕ} {slots : List (Option Property)}

/-- The properties are data properties, and their graphs have these trees. -/
def DenoteAll (heap : Heap) : List (Option Property) → List JsonValue → Prop :=
  List.Forall₂ fun slot tree => ∃ value, slot = some (.data value) ∧ Denotes heap value tree

/-- Properties that have trees have them up to some depth. -/
theorem DenoteAll.exists_depth {trees : List JsonValue} (h : DenoteAll heap slots trees) :
    ∃ depth, SlotTrees heap depth slots trees := by
  induction h with
  | nil => exact ⟨0, .nil⟩
  | cons hslot _ ih =>
    obtain ⟨value, rfl, d, hd⟩ := hslot
    obtain ⟨depth, hdepth⟩ := ih
    refine ⟨max d depth, .cons (unfold_mono (Nat.le_max_left d depth) hd) (hdepth.imp ?_)⟩
    intro slot tree hslot
    match slot, hslot with
    | some (.data value), hslot => exact unfold_mono (Nat.le_max_right d depth) hslot

theorem DenoteAll.assemble {trees : List JsonValue} (hslots : (heap source).slots = some slots)
    (h : DenoteAll heap slots trees) :
    Denotes heap (.reference source) ((heap source).assemble trees) := by
  obtain ⟨depth, hdepth⟩ := h.exists_depth
  exact ⟨depth + 1, unfold_reference.mpr ⟨slots, trees, hslots, hdepth, rfl⟩⟩

end Properties

/-! ## Graphs without a tree -/

/-- A property of an object holds a value. -/
def Child (heap : Heap) (value child : GraphValue) : Prop :=
  ∃ source slots, value = .reference source ∧ (heap source).slots = some slots ∧
    some (.data child) ∈ slots

/-- The graph of a value reaches a value. -/
def Reaches (heap : Heap) : GraphValue → GraphValue → Prop := Relation.ReflTransGen (Child heap)

/-- A value that is no JSON by itself: a number that is not finite, an object of another prototype, an
object with a hole or an accessor, or a value of another kind. -/
def Foreign (heap : Heap) (value : GraphValue) : Prop :=
  leaf value = none ∧ ∀ source, value = .reference source →
    ∀ slots, (heap source).slots = some slots → ∃ slot ∈ slots, ∀ child, slot ≠ some (.data child)

/-- The graph reaches something that is no JSON data, or a cycle. -/
def Faulty (heap : Heap) (value : GraphValue) : Prop :=
  ∃ v, Reaches heap value v ∧ (Foreign heap v ∨ Relation.TransGen (Child heap) v v)

/-- The properties of an object that has a tree have trees of less depth. -/
theorem exists_unfold_child {depth : ℕ} {value child : GraphValue} {j : JsonValue}
    (h : unfold heap depth value = some j) (hchild : Child heap value child) :
    ∃ d < depth, ∃ j', unfold heap d child = some j' := by
  obtain ⟨source, slots, rfl, hslots, hmem⟩ := hchild
  cases depth with
  | zero => cases h
  | succ depth =>
    obtain ⟨slots', trees, hslots', htrees, -⟩ := unfold_reference.mp h
    obtain rfl := Option.some.inj (hslots'.symm.trans hslots)
    obtain ⟨tree, -, hslot⟩ := (exists_of_forall₂ htrees).1 _ hmem
    exact ⟨depth, Nat.lt_succ_self _, tree, hslot⟩

theorem exists_unfold_reaches {depth : ℕ} {value v : GraphValue} {j : JsonValue}
    (h : unfold heap depth value = some j) (hreach : Reaches heap value v) :
    ∃ d ≤ depth, ∃ j', unfold heap d v = some j' := by
  induction hreach with
  | refl => exact ⟨depth, le_rfl, j, h⟩
  | tail _ hchild ih =>
    obtain ⟨d, hd, j', hj'⟩ := ih
    obtain ⟨d', hd', h'⟩ := exists_unfold_child hj' hchild
    exact ⟨d', hd'.le.trans hd, h'⟩

/-- A value on a cycle has no tree: one would be below itself. -/
theorem unfold_of_cycle {v : GraphValue} (hcycle : Relation.TransGen (Child heap) v v) (depth : ℕ) :
    unfold heap depth v = none := by
  induction depth using Nat.strong_induction_on with
  | _ depth ih =>
    by_contra hsome
    obtain ⟨j, hj⟩ := Option.ne_none_iff_exists'.mp hsome
    obtain ⟨w, hchild, hback⟩ := Relation.TransGen.head'_iff.mp hcycle
    obtain ⟨d, hd, j', hj'⟩ := exists_unfold_child hj hchild
    obtain ⟨d', hd', j'', hj''⟩ := exists_unfold_reaches hj' hback
    rw [ih d' (hd'.trans_lt hd)] at hj''
    cases hj''

theorem unfold_of_foreign {v : GraphValue} (hforeign : Foreign heap v) (depth : ℕ) :
    unfold heap depth v = none := by
  obtain ⟨hleaf, hslots⟩ := hforeign
  by_contra hsome
  obtain ⟨j, hj⟩ := Option.ne_none_iff_exists'.mp hsome
  by_cases hreference : ∃ source, v = .reference source
  · obtain ⟨source, rfl⟩ := hreference
    obtain ⟨e, -, hleast, -⟩ := exists_least_depth hj
    obtain ⟨slots, trees, hsome, htrees, -⟩ := unfold_reference.mp hleast
    obtain ⟨slot, hmem, hfault⟩ := hslots source rfl slots hsome
    obtain ⟨tree, -, hslot⟩ := (exists_of_forall₂ htrees).1 slot hmem
    match slot, hfault, hslot with
    | some (.data child), hfault, _ => exact hfault child rfl
  · rw [unfold_of_not_reference (not_exists.mp hreference), hleaf] at hj
    cases hj

/-- A faulty graph has no tree. -/
theorem Faulty.not_denotes {value : GraphValue} (h : Faulty heap value) (j : JsonValue) :
    ¬ Denotes heap value j := by
  rintro ⟨depth, hj⟩
  obtain ⟨v, hreach, hv⟩ := h
  obtain ⟨d, -, j', hj'⟩ := exists_unfold_reaches hj hreach
  rcases hv with hforeign | hcycle
  · rw [unfold_of_foreign hforeign] at hj'
    cases hj'
  · rw [unfold_of_cycle hcycle] at hj'
    cases hj'

theorem Faulty.of_child {value child : GraphValue} (hchild : Child heap value child)
    (h : Faulty heap child) : Faulty heap value := by
  obtain ⟨v, hreach, hv⟩ := h
  exact ⟨v, .head hchild hreach, hv⟩

theorem exists_denoteAll {slots : List (Option Property)}
    (h : ∀ slot ∈ slots, ∃ value tree, slot = some (.data value) ∧ Denotes heap value tree) :
    ∃ trees, DenoteAll heap slots trees := by
  induction slots with
  | nil => exact ⟨[], .nil⟩
  | cons slot slots ih =>
    obtain ⟨⟨value, tree, hslot, htree⟩, hrest⟩ := List.forall_mem_cons.mp h
    obtain ⟨trees, htrees⟩ := ih hrest
    exact ⟨tree :: trees, .cons ⟨value, hslot, htree⟩ htrees⟩

/-- A finite graph that is not faulty has a tree: the graph of a property reaches less. -/
theorem denotes_of_not_faulty (n : ℕ) : ∀ value : GraphValue, {v | Reaches heap value v}.Finite →
    {v | Reaches heap value v}.ncard < n → ¬ Faulty heap value → ∃ j, Denotes heap value j := by
  induction n with
  | zero =>
    intro value _ hcard
    omega
  | succ n ih =>
    intro value hfinite hcard hsound
    have hnotForeign : ¬ Foreign heap value := fun h => hsound ⟨value, .refl, .inl h⟩
    have hnotCycle : ¬ Relation.TransGen (Child heap) value value :=
      fun h => hsound ⟨value, .refl, .inr h⟩
    cases hleaf : leaf value with
    | some j => exact ⟨j, 0, unfold_of_leaf hleaf 0⟩
    | none =>
      by_cases hreference : ∃ source, value = .reference source
      · obtain ⟨source, rfl⟩ := hreference
        cases hslots : (heap source).slots with
        | none =>
          refine absurd ⟨hleaf, ?_⟩ hnotForeign
          intro source' heq slots hslots'
          cases heq
          rw [hslots] at hslots'
          cases hslots'
        | some slots =>
          have hdata : ∀ slot ∈ slots, ∃ value tree, slot = some (.data value) ∧
              Denotes heap value tree := by
            intro slot hmem
            have hslot : ∃ child, slot = some (.data child) := by
              by_contra hnot
              refine hnotForeign ⟨hleaf, ?_⟩
              intro source' heq slots' hslots'
              cases heq
              obtain rfl := Option.some.inj (hslots.symm.trans hslots')
              exact ⟨slot, hmem, not_exists.mp hnot⟩
            obtain ⟨child, rfl⟩ := hslot
            have hchild : Child heap (.reference source) child := ⟨source, slots, rfl, hslots, hmem⟩
            have hsubset : {v | Reaches heap child v} ⊆ {v | Reaches heap (.reference source) v} :=
              fun v hv => .head hchild hv
            have hstrict : {v | Reaches heap child v} ⊂ {v | Reaches heap (.reference source) v} := by
              refine ⟨hsubset, fun hsup => ?_⟩
              have hback : Reaches heap child (.reference source) := hsup (.refl)
              exact hnotCycle (Relation.TransGen.head' hchild hback)
            have hless := Set.ncard_lt_ncard hstrict hfinite
            obtain ⟨tree, htree⟩ := ih child (hfinite.subset hsubset) (by omega)
              fun h => hsound (h.of_child hchild)
            exact ⟨child, tree, rfl, htree⟩
          obtain ⟨trees, htrees⟩ := exists_denoteAll hdata
          exact ⟨_, htrees.assemble hslots⟩
      · exact absurd ⟨hleaf, fun source heq => absurd ⟨source, heq⟩ hreference⟩ hnotForeign

/-- A finite graph has a tree unless it is faulty. -/
theorem denotes_or_faulty {value : GraphValue} (h : {v | Reaches heap value v}.Finite) :
    (∃ j, Denotes heap value j) ∨ Faulty heap value := by
  by_cases hfaulty : Faulty heap value
  · exact .inr hfaulty
  · exact .inl (denotes_of_not_faulty _ value h (Nat.lt_succ_self _) hfaulty)

/-! ## Trees are proper -/

theorem properValues_of_forall {trees : List JsonValue} (h : ∀ tree ∈ trees, tree.Proper) :
    JsonValue.ProperValues trees := by
  induction trees with
  | nil => trivial
  | cons tree trees ih =>
    obtain ⟨htree, htrees⟩ := List.forall_mem_cons.mp h
    exact ⟨htree, ih htrees⟩

theorem properMembers_of_forall {ms : List (Text × JsonValue)} (h : ∀ m ∈ ms, m.2.Proper) :
    JsonValue.ProperMembers ms := by
  induction ms with
  | nil => trivial
  | cons m ms ih =>
    obtain ⟨hm, hms⟩ := List.forall_mem_cons.mp h
    exact ⟨hm, ih hms⟩

theorem proper_of_unfold {depth : ℕ} {value : GraphValue} {j : JsonValue}
    (h : unfold heap depth value = some j) : j.Proper := by
  have hleafProper : ∀ {value : GraphValue} {j : JsonValue}, leaf value = some j → j.Proper := by
    intro value j hleaf
    cases value with
    | number n =>
      rw [leaf] at hleaf
      split at hleaf
      · rename_i hn
        cases hleaf
        exact hn
      · cases hleaf
    | reference r => cases hleaf
    | other => cases hleaf
    | _ => cases hleaf; trivial
  induction depth generalizing value j with
  | zero =>
    cases value with
    | reference r => cases h
    | _ => exact hleafProper h
  | succ depth ih =>
    by_cases hreference : ∃ source, value = .reference source
    · obtain ⟨source, rfl⟩ := hreference
      obtain ⟨slots, trees, hslots, htrees, rfl⟩ := unfold_reference.mp h
      have hproper : ∀ tree ∈ trees, tree.Proper := by
        intro tree hmem
        obtain ⟨slot, -, hslot⟩ := (exists_of_forall₂ htrees).2 tree hmem
        rcases slot with _ | (child | _)
        · cases hslot
        · exact ih hslot
        · cases hslot
      cases hobject : heap source with
      | foreign =>
        rw [hobject] at hslots
        cases hslots
      | array elements => exact properValues_of_forall hproper
      | plain object =>
        rw [hobject] at hslots
        obtain rfl := Option.some.inj hslots
        have hlength : object.members.length = trees.length := by
          simpa using htrees.length_eq
        refine ⟨?_, properMembers_of_forall fun m hm => hproper m.2 (List.of_mem_zip hm).2⟩
        rw [List.map_fst_zip (by simp [hlength])]
        exact object.distinct
    · rw [unfold_of_not_reference (not_exists.mp hreference)] at h
      exact hleafProper h

end AgentSig.Profiles.Snapshot
