import AgentSig.Profiles.JwksTraversal

/-!
# Objects and texts of key sets agree

The traversal of a graph accepts exactly the trees whose JSON text fits into the limit, and returns what
parsing that text returns. It rejects every graph that has no tree, and always ends.

## Main results

* `snapshotJwksInput_graph`: the graphs that the traversal accepts
* `snapshotJwksInput_text`: a text of a tree is accepted when it fits into the limit
* `turns_le`: a bound on the rounds of the loop
* `snapshotJwksInput_agrees`: graphs and texts agree
-/

namespace AgentSig.Profiles.Snapshot

open Commons

variable {format : NumberFormat} {heap : Heap}

/-- What follows the copy of the input. -/
def resume (format : NumberFormat) (heap : Heap) : ℕ × Copy → Except ConfigurationCode JsonValue
  | (_, .value copied) => .ok copied
  | (remaining, .opened frame) => walk format heap remaining frame []

theorem snapshotJwksInput_value {value : GraphValue} (hvalue : ∀ t, value ≠ .text t) (maximumBytes : ℕ) :
    snapshotJwksInput format heap (.value value) maximumBytes =
      copy format heap [] maximumBytes value >>= resume format heap := by
  have hunfold : snapshotJwksInput format heap (.value value) maximumBytes = _ :=
    snapshotJwksInput.eq_def format heap (.value value) maximumBytes
  cases value with
  | text t => exact absurd rfl (hvalue t)
  | _ =>
    rw [hunfold]
    refine congrArg (copy format heap [] maximumBytes _ >>= ·) (funext fun p => ?_)
    obtain ⟨remaining, result⟩ := p
    cases result <;> rfl

/-- A graph is accepted when it has a tree whose text fits into the limit, and the tree is returned. -/
theorem snapshotJwksInput_graph {value : GraphValue} (hvalue : ∀ t, value ≠ .text t) {maximumBytes : ℕ}
    {j : JsonValue} : snapshotJwksInput format heap (.value value) maximumBytes = .ok j ↔
      Denotes heap value j ∧ octetCount (stringify format j) ≤ maximumBytes := by
  rw [snapshotJwksInput_value hvalue, ← valueCount]
  constructor
  · intro h
    obtain ⟨⟨r, c⟩, hcopy, h⟩ := bind_eq_ok.mp h
    rcases spends_of_copy format heap hcopy with
      ⟨tree, hleaf, hcost, rfl⟩ | ⟨source, rfl, -, hslots, hcost, rfl⟩
    · cases h
      exact ⟨⟨0, unfold_of_leaf hleaf 0⟩, by omega⟩
    · obtain ⟨slots, hslots⟩ := Option.ne_none_iff_exists'.mp hslots
      obtain ⟨trees, hall, hpending, hfinish⟩ :=
        walk_sound format _ (Nat.lt_succ_self _) hslots (Nat.zero_le _) h
      rw [List.length_nil, List.drop_zero] at hall
      rw [List.length_nil] at hpending
      cases hfinish
      rw [List.nil_append, GraphObject.valueCount_assemble format hslots hall.length_eq]
      exact ⟨hall.assemble hslots, by omega⟩
  · rintro ⟨⟨depth, htree⟩, hfits⟩
    by_cases hreference : ∃ source, value = .reference source
    · obtain ⟨source, rfl⟩ := hreference
      obtain ⟨e, -, hleast, hnone⟩ := exists_least_depth htree
      obtain ⟨slots, trees, hslots, htrees, rfl⟩ := unfold_reference.mp hleast
      have hlength := htrees.length_eq
      have hvalue := GraphObject.valueCount_assemble format hslots hlength
      have hleastCount := GraphObject.leastCount_le format hslots hlength
      have hcopy := @copy_reference format heap [] maximumBytes source
      rw [if_neg] at hcopy
      · have hwalk := @walk_complete heap format e source slots [] trees
          (maximumBytes - (heap source).openCount) [] hslots (Nat.zero_le _) htrees hnone
          (by simp) (by rw [List.length_nil]; omega)
        rw [hcopy, ok_bind, resume, hwalk]
        rfl
      · rw [not_or, not_or]
        exact ⟨by simp, by simp [hslots], by omega⟩
    · have hleaf : leaf value = some j := by
        rw [← unfold_of_not_reference (not_exists.mp hreference), htree]
      rw [copy_of_leaf format heap hleaf, charge_of_le hfits]
      rfl

/-- The traversal throws no other error. -/
theorem error_of_snapshotJwksInput {value : GraphValue} (hvalue : ∀ t, value ≠ .text t)
    {maximumBytes : ℕ} (h : ∀ j, snapshotJwksInput format heap (.value value) maximumBytes ≠ .ok j) :
    snapshotJwksInput format heap (.value value) maximumBytes = .error .invalidJwks := by
  cases hresult : snapshotJwksInput format heap (.value value) maximumBytes with
  | ok j => exact absurd hresult (h j)
  | error e =>
    rw [snapshotJwksInput_value hvalue] at hresult
    rcases bind_eq_error.mp hresult with hcopy | ⟨⟨r, c⟩, -, h⟩
    · rw [error_of_copy hcopy]
    · cases c with
      | value copied => cases h
      | opened frame => rw [error_of_walk h]

/-- A text of a tree is accepted when it fits into the limit; the tree is returned, with both zeros made
one. -/
theorem snapshotJwksInput_text {j : JsonValue} (hproper : j.Proper) (maximumBytes : ℕ) :
    snapshotJwksInput format heap (.value (.text (stringify format j))) maximumBytes =
      if octetCount (stringify format j) ≤ maximumBytes then .ok j.unsigned
      else .error .invalidJwks := by
  have hlength := length_le_octetCount (wellFormed_stringify format j)
  have hparse : parseSource (some (stringify format j)) = .ok j.unsigned := by
    rw [parseSource, Option.bind_some, jsonParse_stringify format hproper]
  rw [snapshotJwksInput]
  split
  · rename_i hfits
    rw [require_of (hlength.trans hfits), ok_bind, require_of hfits, ok_bind, hparse]
  · rename_i hfits
    rw [require_eq_error.mpr ⟨hfits, rfl⟩]
    by_cases hunits : (stringify format j).length ≤ maximumBytes
    · rw [require_of hunits, ok_bind, error_bind]
    · rw [require_eq_error.mpr ⟨hunits, rfl⟩, error_bind]

/-- One round of the loop that goes on. -/
def Turn (format : NumberFormat) (heap : Heap) (s s' : ℕ × Frame × List Frame) : Prop :=
  turn format heap s.1 s.2.1 s.2.2 = .ok (.running s'.1 s'.2.1 s'.2.2)

/-- The loop makes no more rounds than twice the budget and the open objects allow. -/
theorem turns_le (n : ℕ) (s : ℕ → ℕ × Frame × List Frame)
    (h : ∀ i < n, Turn format heap (s i) (s (i + 1))) :
    n + (2 * (s n).1 + (s n).2.2.length) ≤ 2 * (s 0).1 + (s 0).2.2.length := by
  induction n with
  | zero => omega
  | succ n ih =>
    have hturn := turn_decreases format heap (h n (Nat.lt_succ_self n))
    have := ih fun i hi => h i (Nat.lt_succ_of_lt hi)
    omega

/-- Objects and texts of a key set agree. The graph of a JSON value that is no string is accepted exactly
when its text fits into the limit, exactly when that text is accepted, and the values that are returned
differ in the sign of zeros at most. Every graph with a cycle or anything that is no JSON data is
rejected, which are all finite graphs that are not of a JSON value; and the loop ends. -/
theorem snapshotJwksInput_agrees (format : NumberFormat) (heap : Heap) (value : GraphValue)
    (maximumBytes : ℕ) :
    (∀ j, Denotes heap value j → (∀ t, value ≠ .text t) →
      (snapshotJwksInput format heap (.value value) maximumBytes =
        if octetCount (stringify format j) ≤ maximumBytes then .ok j else .error .invalidJwks) ∧
      snapshotJwksInput format heap (.value (.text (stringify format j))) maximumBytes =
        if octetCount (stringify format j) ≤ maximumBytes then .ok j.unsigned
        else .error .invalidJwks) ∧
    (Faulty heap value →
      snapshotJwksInput format heap (.value value) maximumBytes = .error .invalidJwks) ∧
    ({v | Reaches heap value v}.Finite → (∃ j, Denotes heap value j) ∨ Faulty heap value) ∧
    ∀ (n : ℕ) (s : ℕ → ℕ × Frame × List Frame), (∀ i < n, Turn format heap (s i) (s (i + 1))) →
      n ≤ 2 * (s 0).1 + (s 0).2.2.length := by
  refine ⟨fun j htree hvalue => ⟨?_, ?_⟩, fun hfaulty => ?_, denotes_or_faulty, fun n s h => ?_⟩
  · split
    · rename_i hfits
      exact (snapshotJwksInput_graph hvalue).mpr ⟨htree, hfits⟩
    · rename_i hfits
      apply error_of_snapshotJwksInput hvalue
      intro j' hok
      obtain ⟨htree', hfits'⟩ := (snapshotJwksInput_graph hvalue).mp hok
      rw [htree'.unique htree] at hfits'
      exact hfits hfits'
  · obtain ⟨depth, hdepth⟩ := htree
    exact snapshotJwksInput_text (proper_of_unfold hdepth) maximumBytes
  · have hvalue : ∀ t, value ≠ .text t := by
      rintro t rfl
      exact hfaulty.not_denotes (.text t) ⟨0, rfl⟩
    apply error_of_snapshotJwksInput hvalue
    intro j hok
    exact hfaulty.not_denotes j ((snapshotJwksInput_graph hvalue).mp hok).1
  · have := turns_le n s h
    omega

/-- An object whose two members share an array of a lone surrogate and the negative zero, and an array that
holds itself. -/
def sharedHeap : Heap
  | 0 => .plain ⟨[(ascii "__proto__", .data (.reference 1)), (ascii "keys", .data (.reference 1))], [],
      by decide⟩
  | 1 => .array [some (.data (.text [0xd800])), some (.data (.number .negativeZero))]
  | _ => .array [some (.data (.reference 2))]

/-- The tree of the object. -/
def sharedTree : JsonValue :=
  let shared := .array [.text [0xd800], .number .negativeZero]
  .object [(ascii "__proto__", shared), (ascii "keys", shared)]

theorem snapshotJwksInput_agrees_sharedHeap :
    snapshotJwksInput .chosen sharedHeap (.value (.reference 0)) 46 = .ok sharedTree ∧
      snapshotJwksInput .chosen sharedHeap (.value (.text (stringify .chosen sharedTree))) 46 =
        .ok sharedTree.unsigned ∧
      snapshotJwksInput .chosen sharedHeap (.value (.reference 0)) 45 = .error .invalidJwks ∧
      snapshotJwksInput .chosen sharedHeap (.value (.reference 2)) 1000 = .error .invalidJwks := by
  have hcount : octetCount (stringify .chosen sharedTree) = 46 := by decide
  have htree : Denotes sharedHeap (.reference 0) sharedTree := ⟨2, rfl⟩
  have hcycle : Child sharedHeap (.reference 2) (.reference 2) :=
    ⟨2, [some (.data (.reference 2))], rfl, rfl, List.mem_singleton.mpr rfl⟩
  have hfits := (snapshotJwksInput_agrees .chosen sharedHeap (.reference 0) 46).1 sharedTree htree (by simp)
  have hlarge := (snapshotJwksInput_agrees .chosen sharedHeap (.reference 0) 45).1 sharedTree htree (by simp)
  rw [hcount] at hfits hlarge
  refine ⟨hfits.1, hfits.2, hlarge.1, ?_⟩
  exact (snapshotJwksInput_agrees .chosen sharedHeap (.reference 2) 1000).2.1
    ⟨.reference 2, .refl, .inr (.single hcycle)⟩

end AgentSig.Profiles.Snapshot
