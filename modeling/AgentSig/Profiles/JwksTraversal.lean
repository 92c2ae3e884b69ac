import AgentSig.Profiles.JwksTrees

/-!
# The traversal copies trees

The loop of the traversal from any of its states on: it closes the innermost object once the trees of its
remaining properties have been copied and their octets charged. No object that is open is met again in a
graph that has a tree, and a loop that returns has found a tree for every property.

## Main results

* `walk_complete`: the loop copies the trees of the properties that are left
* `walk_sound`: where the loop returns, the properties that are left have trees
* `error_of_walk`: the only error of the loop
-/

namespace AgentSig.Profiles.Snapshot

open Commons

variable {heap : Heap}

/-! ## Frames -/

namespace GraphObject

theorem value_frame (o : GraphObject) (source : ℕ) (trees : List JsonValue) :
    (o.frame source trees).value = o.assemble trees := by
  cases o <;> rfl

theorem source_frame (o : GraphObject) (source : ℕ) (trees : List JsonValue) :
    (o.frame source trees).source = source := by
  cases o <;> rfl

theorem position_frame (o : GraphObject) (source : ℕ) (trees : List JsonValue) :
    (o.frame source trees).position = trees.length := by
  cases o <;> rfl

theorem length_frame {o : GraphObject} {slots : List (Option Property)} (hslots : o.slots = some slots)
    (source : ℕ) (trees : List JsonValue) : (o.frame source trees).length = slots.length := by
  cases o with
  | foreign => cases hslots
  | array elements =>
    obtain rfl := Option.some.inj hslots
    rfl
  | plain object =>
    obtain rfl := Option.some.inj hslots
    simp [frame]

theorem comma_frame (o : GraphObject) (source : ℕ) (trees : List JsonValue) (remaining : ℕ) :
    (if (o.frame source trees).keys.isNone ∧ 0 < (o.frame source trees).position then charge remaining 1
      else .ok remaining) = charge remaining (o.commaCount trees.length) := by
  have harray : ∀ n : ℕ, (if n > 0 then charge remaining 1 else .ok remaining) =
      charge remaining (if 0 < n then 1 else 0) := by
    intro n
    split
    · rfl
    · rw [charge_zero]
  cases o with
  | plain object => simp [frame, commaCount, charge_zero]
  | array elements => simpa [frame, commaCount] using harray trees.length
  | foreign => simpa [frame, commaCount] using harray trees.length

theorem descriptor_frame {source : ℕ} {slots : List (Option Property)}
    (hslots : (heap source).slots = some slots) (trees : List JsonValue) :
    ((heap source).frame source trees).descriptor heap = (slots[trees.length]?).join := by
  cases hobject : heap source with
  | foreign =>
    rw [hobject] at hslots
    cases hslots
  | array elements =>
    rw [hobject] at hslots
    obtain rfl := Option.some.inj hslots
    simp [frame, Frame.descriptor, hobject]
  | plain object =>
    rw [hobject] at hslots
    obtain rfl := Option.some.inj hslots
    simp only [frame, Frame.descriptor, hobject, List.getElem?_map]
    cases hmember : object.members[trees.length]? with
    | none => rfl
    | some m =>
      have hmem : (m.1, m.2) ∈ object.members := List.mem_of_getElem? hmember
      simp [OrderedMap.lookup_of_mem object.distinct hmem]

theorem zip_append_singleton {α β : Type} {l : List α} {r : List β} {a : α} (b : β)
    (h : l[r.length]? = some a) : l.zip (r ++ [b]) = l.zip r ++ [(a, b)] := by
  induction r generalizing l with
  | nil =>
    cases l with
    | nil => cases h
    | cons c l =>
      obtain rfl := Option.some.inj h
      simp
  | cons c r ih =>
    cases l with
    | nil => cases h
    | cons d l =>
      rw [List.cons_append, List.zip_cons_cons, List.zip_cons_cons, ih h, List.cons_append]

/-- The name of the next property is not among those before it. -/
theorem notMem_keys_zip {α β : Type} {l : List α} (hnodup : l.Nodup) {r : List β} {a : α}
    (h : l[r.length]? = some a) : a ∉ (l.zip r).map (·.1) := by
  induction r generalizing l with
  | nil => simp
  | cons c r ih =>
    cases l with
    | nil => cases h
    | cons d l =>
      obtain ⟨hd, hl⟩ := List.nodup_cons.mp hnodup
      rw [List.zip_cons_cons, List.map_cons, List.mem_cons, not_or]
      refine ⟨?_, ih hl h⟩
      rintro rfl
      exact hd (List.mem_of_getElem? h)

/-- The tree of the next property is put in its place. -/
theorem define_frame {o : GraphObject} {slots : List (Option Property)} (hslots : o.slots = some slots)
    {source : ℕ} {trees : List JsonValue} (hlt : trees.length < slots.length) (tree : JsonValue) :
    (o.frame source trees).advance.define tree = o.frame source (trees ++ [tree]) := by
  cases o with
  | foreign => cases hslots
  | array elements => simp [frame, Frame.advance, Frame.define]
  | plain object =>
    obtain rfl := Option.some.inj hslots
    rw [List.length_map] at hlt
    have hkey : (object.members.map (·.1))[trees.length]? = some object.members[trees.length].1 := by
      simp [hlt]
    have hset := OrderedMap.set_of_notMem (notMem_keys_zip object.distinct hkey) tree
    simp [frame, Frame.advance, Frame.define, hkey, hset, zip_append_singleton tree hkey]

end GraphObject

/-! ## Rounds -/

section Rounds

variable (format : NumberFormat) {source : ℕ} {slots : List (Option Property)}
  {trees : List JsonValue} {below : List Frame} {remaining : ℕ}

/-- What the loop returns once the innermost object has been copied. -/
def finish (heap : Heap) (remaining : ℕ) (copied : JsonValue) (below : List Frame) :
    Except ConfigurationCode JsonValue :=
  match below with
  | [] => .ok copied
  | parent :: below => walk format heap remaining (parent.define copied) below

/-- A round that finds every property copied closes the object. -/
theorem walk_done (hslots : (heap source).slots = some slots) (hdone : trees.length = slots.length) :
    walk format heap remaining ((heap source).frame source trees) below =
      finish format heap remaining ((heap source).assemble trees) below := by
  have hposition : ((heap source).frame source trees).position =
      ((heap source).frame source trees).length := by
    rw [GraphObject.position_frame, GraphObject.length_frame hslots, hdone]
  have hturn : turn format heap remaining ((heap source).frame source trees) below =
      .ok (close remaining ((heap source).assemble trees) below) := by
    rw [turn, if_pos hposition, GraphObject.value_frame]
  rw [walk.eq_def, hturn]
  cases below <;> rfl

/-- A round that copies the next property. -/
theorem turn_next (hslots : (heap source).slots = some slots) {value : GraphValue}
    (hslot : slots[trees.length]? = some (some (.data value))) :
    turn format heap remaining ((heap source).frame source trees) below =
      (charge remaining ((heap source).commaCount trees.length) >>= fun r =>
        copy format heap ((heap source).frame source trees :: below) r value >>= fun (r, child) =>
          match child with
          | .value copied =>
            .ok (.running r ((heap source).frame source (trees ++ [copied])) below)
          | .opened child =>
            .ok (.running r child (((heap source).frame source trees).advance :: below))) := by
  have hlt : trees.length < slots.length := (List.getElem?_eq_some_iff.mp hslot).1
  have hposition : ¬ ((heap source).frame source trees).position =
      ((heap source).frame source trees).length := by
    rw [GraphObject.position_frame, GraphObject.length_frame hslots]
    omega
  have hdescriptor := GraphObject.descriptor_frame hslots trees
  rw [hslot, Option.join_some] at hdescriptor
  rw [turn, if_neg hposition, hdescriptor]
  dsimp only
  rw [GraphObject.comma_frame]
  congr 1
  funext r
  congr 1
  funext ⟨r, child⟩
  cases child with
  | value copied =>
    dsimp only
    rw [GraphObject.define_frame hslots hlt]
    rfl
  | opened child => rfl

/-- A round that finds a hole or an accessor fails. -/
theorem turn_fault (hslots : (heap source).slots = some slots) {slot : Option Property}
    (hslot : slots[trees.length]? = some slot) (hfault : ∀ value, slot ≠ some (.data value)) :
    turn format heap remaining ((heap source).frame source trees) below = .error .invalidJwks := by
  have hlt : trees.length < slots.length := (List.getElem?_eq_some_iff.mp hslot).1
  have hposition : ¬ ((heap source).frame source trees).position =
      ((heap source).frame source trees).length := by
    rw [GraphObject.position_frame, GraphObject.length_frame hslots]
    omega
  have hdescriptor := GraphObject.descriptor_frame hslots trees
  rw [hslot] at hdescriptor
  rw [turn, if_neg hposition, hdescriptor]
  match slot, hfault with
  | none, _ => rfl
  | some .accessor, _ => rfl
  | some (.data value), hfault => exact absurd rfl (hfault value)

theorem walk_of_turn {r : ℕ} {frame f : Frame} {fs : List Frame}
    (h : turn format heap remaining frame below = .ok (.running r f fs)) :
    walk format heap remaining frame below = walk format heap r f fs := by
  rw [walk.eq_def, h]

/-! ## A graph that has a tree -/

/-- The loop from an open object on, whose remaining properties have trees of at most this depth. No
open object has a tree so shallow, so none is met again. -/
def Copies (heap : Heap) (depth : ℕ) : Prop :=
  ∀ {source : ℕ} {slots : List (Option Property)} {trees rest : List JsonValue} {remaining : ℕ}
    {below : List Frame}, (heap source).slots = some slots → trees.length ≤ slots.length →
    SlotTrees heap depth (slots.drop trees.length) rest →
    unfold heap depth (.reference source) = none →
    (∀ f ∈ below, unfold heap depth (.reference f.source) = none) →
    (heap source).pendingCount format trees.length rest ≤ remaining →
    walk format heap remaining ((heap source).frame source trees) below =
      finish format heap (remaining - (heap source).pendingCount format trees.length rest)
        ((heap source).assemble (trees ++ rest)) below

/-- The next property is copied, whose tree is of at most this depth. -/
theorem walk_next {depth : ℕ} (ih : ∀ e < depth, Copies format heap e)
    (hslots : (heap source).slots = some slots) {value : GraphValue} {tree : JsonValue}
    (hslot : slots[trees.length]? = some (some (.data value)))
    (htree : unfold heap depth value = some tree)
    (hopen : unfold heap depth (.reference source) = none)
    (hbelow : ∀ f ∈ below, unfold heap depth (.reference f.source) = none)
    (hcost : (heap source).commaCount trees.length + valueCount format tree ≤ remaining) :
    walk format heap remaining ((heap source).frame source trees) below =
      walk format heap (remaining - ((heap source).commaCount trees.length + valueCount format tree))
        ((heap source).frame source (trees ++ [tree])) below := by
  have hlt : trees.length < slots.length := (List.getElem?_eq_some_iff.mp hslot).1
  have hcomma := @charge_of_le remaining ((heap source).commaCount trees.length) (by omega)
  have hturn : turn format heap remaining ((heap source).frame source trees) below = _ :=
    turn_next format hslots hslot
  rw [hcomma, ok_bind] at hturn
  by_cases hreference : ∃ r, value = .reference r
  · obtain ⟨child, rfl⟩ := hreference
    obtain ⟨e, hlower, hleast, hnone⟩ := exists_least_depth htree
    obtain ⟨slots', trees', hslots', htrees', rfl⟩ := unfold_reference.mp hleast
    have hlength := htrees'.length_eq
    have hvalue := GraphObject.valueCount_assemble format hslots' hlength
    have hleast := GraphObject.leastCount_le format hslots' hlength
    -- an open object has no tree of this depth, and the child has one
    have hancestor : child ∉ (((heap source).frame source trees) :: below).map (·.source) := by
      rw [List.map_cons, List.mem_cons, GraphObject.source_frame, List.mem_map]
      rintro (rfl | ⟨f, hf, rfl⟩)
      · rw [hopen] at htree
        cases htree
      · rw [hbelow f hf] at htree
        cases htree
    have hnotOpen : ∀ {v : GraphValue}, unfold heap depth v = none → unfold heap e v = none := by
      intro v hv
      by_contra hsome
      obtain ⟨j, hj⟩ := Option.ne_none_iff_exists'.mp hsome
      rw [unfold_mono hlower.le hj] at hv
      cases hv
    have hcopy := @copy_reference format heap ((heap source).frame source trees :: below)
      (remaining - (heap source).commaCount trees.length) child
    rw [if_neg] at hcopy
    · have hparents : ∀ f ∈ ((heap source).frame source trees).advance :: below,
          unfold heap e (.reference f.source) = none := by
        rw [List.forall_mem_cons]
        refine ⟨?_, fun f hf => hnotOpen (hbelow f hf)⟩
        have hsource : (((heap source).frame source trees).advance).source = source :=
          GraphObject.source_frame _ _ _
        rw [hsource]
        exact hnotOpen hopen
      have hchild := @ih e hlower child slots' [] trees'
        (remaining - (heap source).commaCount trees.length - (heap child).openCount) _ hslots'
        (Nat.zero_le _) htrees' hnone hparents (by rw [List.length_nil]; omega)
      rw [hcopy, ok_bind] at hturn
      rw [walk_of_turn format hturn, hchild, List.nil_append, finish,
        GraphObject.define_frame hslots hlt, List.length_nil]
      congr 1
      omega
    · rw [not_or, not_or]
      refine ⟨hancestor, by simp [hslots'], by omega⟩
  · have hleaf : leaf value = some tree := by
      rw [← unfold_of_not_reference (not_exists.mp hreference), htree]
    rw [copy_of_leaf format heap hleaf, charge_of_le (by omega)] at hturn
    rw [walk_of_turn format hturn, Nat.sub_sub]

/-- The loop copies the trees of the properties that are left, and spends their octets. -/
theorem walk_complete (depth : ℕ) : Copies format heap depth := by
  induction depth using Nat.strong_induction_on with
  | _ depth ih =>
    intro source slots trees rest remaining below hslots hle htrees hopen hbelow hcost
    induction rest generalizing trees remaining with
    | nil =>
      have hdrop : slots.drop trees.length = [] := List.forall₂_nil_right_iff.mp htrees
      have hdone : trees.length = slots.length := by
        rw [List.drop_eq_nil_iff] at hdrop
        omega
      rw [walk_done format hslots hdone, List.append_nil]
      rfl
    | cons tree rest ih' =>
      obtain ⟨slot, tail, hslotTree, htail, hdrop⟩ := List.forall₂_cons_right_iff.mp htrees
      have hslot : slots[trees.length]? = some slot := by
        rw [← List.head?_drop, hdrop, List.head?_cons]
      have hlt : trees.length < slots.length := (List.getElem?_eq_some_iff.mp hslot).1
      have htail' : slots.drop (trees ++ [tree]).length = tail := by
        rw [List.length_append, List.length_singleton, ← List.drop_drop, hdrop, List.drop_one,
          List.tail_cons]
      rw [GraphObject.pendingCount] at hcost
      rcases slot with _ | (value | _)
      · cases hslotTree
      · rw [walk_next format ih hslots hslot hslotTree hopen hbelow (by omega)]
        rw [@ih' (trees ++ [tree]), List.append_assoc, List.singleton_append,
          GraphObject.pendingCount, List.length_append, List.length_singleton, Nat.sub_sub]
        · rw [List.length_append, List.length_singleton]
          omega
        · rw [htail']
          exact htail
        · rw [List.length_append, List.length_singleton]
          omega
      · cases hslotTree

/-! ## A traversal that returns -/

/-- Where the loop returns, the properties that are left have trees, and their octets remained. -/
theorem walk_sound (measure : ℕ) : ∀ {source : ℕ} {slots : List (Option Property)}
    {trees : List JsonValue} {remaining : ℕ} {below : List Frame} {j : JsonValue},
    2 * remaining + below.length < measure → (heap source).slots = some slots →
    trees.length ≤ slots.length →
    walk format heap remaining ((heap source).frame source trees) below = .ok j →
    ∃ rest, DenoteAll heap (slots.drop trees.length) rest ∧
      (heap source).pendingCount format trees.length rest ≤ remaining ∧
      finish format heap (remaining - (heap source).pendingCount format trees.length rest)
        ((heap source).assemble (trees ++ rest)) below = .ok j := by
  induction measure with
  | zero =>
    intro _ _ _ _ _ _ hmeasure
    omega
  | succ measure ih =>
    intro source slots trees remaining below j hmeasure hslots hle h
    by_cases hdone : trees.length = slots.length
    · rw [walk_done format hslots hdone] at h
      refine ⟨[], ?_, Nat.zero_le _, by rwa [List.append_nil]⟩
      rw [List.drop_eq_nil_iff.mpr hdone.ge]
      exact .nil
    · have hlt : trees.length < slots.length := by omega
      have hslot := List.getElem?_eq_getElem hlt
      -- what is left to show of the next property, once it has been copied
      have hrest : ∀ {value : GraphValue} {tree : JsonValue} {r : ℕ},
          slots[trees.length] = some (.data value) → Denotes heap value tree →
          r + ((heap source).commaCount trees.length + valueCount format tree) = remaining →
          walk format heap r ((heap source).frame source (trees ++ [tree])) below = .ok j →
          ∃ rest, DenoteAll heap (slots.drop trees.length) rest ∧
            (heap source).pendingCount format trees.length rest ≤ remaining ∧
            finish format heap (remaining - (heap source).pendingCount format trees.length rest)
              ((heap source).assemble (trees ++ rest)) below = .ok j := by
        intro value tree r hvalue htree hcost hwalk
        have hpos := valueCount_pos format tree
        obtain ⟨rest, hall, hpending, hfinish⟩ :=
          ih (by omega) hslots (by rw [List.length_append, List.length_singleton]; omega) hwalk
        rw [List.length_append, List.length_singleton] at hall hpending hfinish
        rw [List.append_assoc, List.singleton_append] at hfinish
        refine ⟨tree :: rest, ?_, ?_, ?_⟩
        · rw [List.drop_eq_getElem_cons hlt]
          exact .cons ⟨value, hvalue, htree⟩ hall
        · rw [GraphObject.pendingCount]
          omega
        · rw [GraphObject.pendingCount, ← hfinish]
          congr 1
          omega
      by_cases hdata : ∃ value, slots[trees.length] = some (.data value)
      · obtain ⟨value, hvalue⟩ := hdata
        rw [hvalue] at hslot
        have hturn : turn format heap remaining ((heap source).frame source trees) below = _ :=
          turn_next format hslots hslot
        cases hcomma : charge remaining ((heap source).commaCount trees.length) with
        | error e =>
          rw [hcomma, error_bind] at hturn
          rw [walk.eq_def, hturn] at h
          cases h
        | ok r₁ =>
          rw [hcomma, ok_bind] at hturn
          have hcost₁ := charge_eq_ok.mp hcomma
          cases hcopy : copy format heap ((heap source).frame source trees :: below) r₁ value with
          | error e =>
            rw [hcopy, error_bind] at hturn
            rw [walk.eq_def, hturn] at h
            cases h
          | ok result =>
            obtain ⟨r₂, c⟩ := result
            rw [hcopy, ok_bind] at hturn
            rcases spends_of_copy format heap hcopy with
              ⟨tree, hleaf, hcost₂, rfl⟩ | ⟨child, rfl, -, hchild, hcost₂, rfl⟩
            · rw [walk_of_turn format hturn] at h
              exact hrest hvalue ⟨0, unfold_of_leaf hleaf 0⟩ (by omega) h
            · obtain ⟨slots', hslots'⟩ := Option.ne_none_iff_exists'.mp hchild
              have hopen := (heap child).two_le_openCount
              rw [walk_of_turn format hturn] at h
              obtain ⟨trees', hall, hpending, hfinish⟩ :=
                ih (by rw [List.length_cons]; omega) hslots' (Nat.zero_le _) h
              rw [List.length_nil, List.drop_zero] at hall
              have hvalueCount := GraphObject.valueCount_assemble format hslots' hall.length_eq
              rw [List.length_nil] at hpending hfinish
              rw [List.nil_append, finish, GraphObject.define_frame hslots hlt] at hfinish
              exact hrest hvalue (hall.assemble hslots') (by omega) hfinish
      · rw [walk.eq_def, turn_fault format hslots hslot (not_exists.mp hdata)] at h
        cases h

end Rounds

/-! ## Errors -/

section Errors

variable {format : NumberFormat} {remaining : ℕ} {e : ConfigurationCode}

theorem error_of_charge {bytes : ℕ} (h : charge remaining bytes = .error e) : e = .invalidJwks := by
  unfold charge at h
  split at h
  · cases h
  · exact (Except.error.inj h).symm

theorem error_of_copy {stack : List Frame} {value : GraphValue}
    (h : copy format heap stack remaining value = .error e) : e = .invalidJwks := by
  cases hleaf : leaf value with
  | some j =>
    rw [copy_of_leaf format heap hleaf] at h
    cases hcharge : charge remaining (valueCount format j) with
    | error e' =>
      rw [hcharge] at h
      cases h
      exact error_of_charge hcharge
    | ok r =>
      rw [hcharge] at h
      cases h
  | none =>
    by_cases hreference : ∃ source, value = .reference source
    · obtain ⟨source, rfl⟩ := hreference
      rw [copy_reference] at h
      split at h
      · exact (Except.error.inj h).symm
      · cases h
    · rw [copy_of_not_leaf format heap hleaf (not_exists.mp hreference)] at h
      exact (Except.error.inj h).symm

theorem error_of_turn {frame : Frame} {below : List Frame}
    (h : turn format heap remaining frame below = .error e) : e = .invalidJwks := by
  unfold turn at h
  split at h
  · cases h
  · split at h
    · rcases bind_eq_error.mp h with hcomma | ⟨r, -, h⟩
      · split at hcomma
        · exact error_of_charge hcomma
        · cases hcomma
      · rcases bind_eq_error.mp h with hcopy | ⟨⟨r', c⟩, -, h⟩
        · exact error_of_copy hcopy
        · cases c <;> cases h
    · exact (Except.error.inj h).symm

/-- The loop throws no other error. -/
theorem error_of_walk {frame : Frame} {below : List Frame}
    (h : walk format heap remaining frame below = .error e) : e = .invalidJwks := by
  fun_induction walk format heap remaining frame below with
  | case1 remaining frame below e' hturn =>
    cases h
    exact error_of_turn hturn
  | case2 remaining frame below copied hturn => cases h
  | case3 remaining frame below r f fs hturn ih => exact ih h

end Errors

end AgentSig.Profiles.Snapshot
