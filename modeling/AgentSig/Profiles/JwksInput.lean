import AgentSig.Commons.JsonText
import AgentSig.Commons.Outcome
import AgentSig.Profiles.Codes

/-!
# Inputs of key sets

A key set is given as a JSON text, as its octets, or as a graph of objects. A graph is copied by a loop
over a stack of open objects that charges the octets of the JSON text of what it copies to a budget, so
no text is written and no call nests as deep as the input.

## Main definitions

* `GraphValue`, `GraphObject`, `Heap`: graphs of objects
* `chargeString`, `copy`, `turn`: what the traversal charges and copies
* `walk`: the loop of the traversal
* `snapshotJwksInput`: the JSON value of an input

## Main results

* `turn_decreases`: every round of the loop spends octets or closes an object
-/

namespace AgentSig.Profiles.Snapshot

open Commons

/-! ## Graphs of objects -/

/-- What a variable or a property holds. A value of no other kind here (a function, a symbol, a big
integer or nothing) is `other`. -/
inductive GraphValue
  | null
  | boolean (b : Bool)
  | number (n : JsonNumber)
  | text (t : Text)
  | reference (r : ℕ)
  | other

/-- An own property. -/
inductive Property
  | data (value : GraphValue)
  | accessor

/-- An object whose prototype is `Object.prototype` or none: its own enumerable properties in the order
of enumeration, and the enumerable names that it inherits. -/
structure PlainObject where
  members : List (Text × Property)
  inherited : List Text
  distinct : (members.map (·.1)).Nodup

/-- An object: an array, in which a hole is none, a plain object, or one of another prototype. -/
inductive GraphObject
  | array (elements : List (Option Property))
  | plain (object : PlainObject)
  | foreign

/-- The objects of a graph, which refer to each other. -/
abbrev Heap := ℕ → GraphObject

/-- The names that an enumeration of an object visits; own names hide inherited ones. -/
def PlainObject.visited (o : PlainObject) : List Text :=
  o.members.map (·.1) ++ o.inherited.filter fun key => key ∉ o.members.map (·.1)

/-! ## Charges -/

/-- `charge`: what remains of the budget. Every amount that is charged is a safe integer. -/
def charge (remaining bytes : ℕ) : Except ConfigurationCode ℕ :=
  if bytes ≤ remaining then .ok (remaining - bytes) else .error .invalidJwks

/-- The loop of `chargeString`. -/
def chargeUnits (remaining : ℕ) : Text → Except ConfigurationCode ℕ
  | [] => .ok remaining
  | code :: rest =>
    if code = 34 ∨ code = 92 ∨ code = 8 ∨ code = 9 ∨ code = 10 ∨ code = 12 ∨ code = 13 then do
      chargeUnits (← charge remaining 2) rest
    else if code < 32 then do
      chargeUnits (← charge remaining 6) rest
    else if highSurrogate code then
      match rest with
      | next :: rest =>
        if lowSurrogate next then do chargeUnits (← charge remaining 4) rest
        else do chargeUnits (← charge remaining 6) (next :: rest)
      | [] => charge remaining 6
    else if lowSurrogate code then do
      chargeUnits (← charge remaining 6) rest
    else do
      chargeUnits (← charge remaining (if code < 128 then 1 else if code < 2048 then 2 else 3)) rest

/-- `chargeString`. -/
def chargeString (remaining : ℕ) (value : Text) : Except ConfigurationCode ℕ := do
  require (value.length ≤ remaining) .invalidJwks
  chargeUnits (← charge remaining 2) value

/-- One round of the enumeration of `copy`: the budget and the names so far. -/
def chargeKey (own : List Text) (state : ℕ × List Text) (key : Text) :
    Except ConfigurationCode (ℕ × List Text) :=
  let (remaining, keys) := state
  if key ∉ own then .ok (remaining, keys)
  else do
    let remaining ← chargeString remaining key
    let remaining ← charge remaining (if keys.length = 0 then 1 else 2)
    return (remaining, keys ++ [key])

/-! ## The traversal -/

/-- What has been copied of an object. -/
inductive Target
  | array (elements : List JsonValue)
  | record (members : List (Text × JsonValue))

/-- `Frame`. -/
structure Frame where
  source : ℕ
  keys : Option (List Text)
  length : ℕ
  position : ℕ
  target : Target

namespace Frame

/-- The frame after `position++`. -/
def advance (frame : Frame) : Frame := { frame with position := frame.position + 1 }

/-- The property at the position: `Object.getOwnPropertyDescriptor`. -/
def descriptor (heap : Heap) (frame : Frame) : Option Property :=
  match heap frame.source, frame.keys with
  | .array elements, _ => (elements[frame.position]?).join
  | .plain object, some keys =>
    (keys[frame.position]?).bind fun key => OrderedMap.lookup object.members key
  | _, _ => none

/-- `Object.defineProperty` for the child before the position. -/
def define (frame : Frame) (child : JsonValue) : Frame :=
  match frame.target with
  | .array elements => { frame with target := .array (elements ++ [child]) }
  | .record members =>
    let key := ((frame.keys.getD [])[frame.position - 1]?).getD []
    { frame with target := .record (OrderedMap.set members key child) }

/-- The copy of an object whose properties have all been copied. -/
def value (frame : Frame) : JsonValue :=
  match frame.target with
  | .array elements => .array elements
  | .record members => .object members

end Frame

/-- The result of `copy`: a value, or an object whose properties are still to be copied. -/
inductive Copy
  | value (copied : JsonValue)
  | opened (frame : Frame)

variable (format : NumberFormat) (heap : Heap)

/-- `copy`. The ancestors are the objects that the stack has open. -/
def copy (stack : List Frame) (remaining : ℕ) : GraphValue → Except ConfigurationCode (ℕ × Copy)
  | .null => do
    let remaining ← charge remaining 4
    return (remaining, .value .null)
  | .text value => do
    let remaining ← chargeString remaining value
    return (remaining, .value (.text value))
  | .boolean value => do
    let remaining ← charge remaining (if value then 4 else 5)
    return (remaining, .value (.boolean value))
  | .number value => do
    require value.isFinite .invalidJwks
    let remaining ← charge remaining (numberText format value).length
    return (remaining, .value (.number value))
  | .other => throw .invalidJwks
  | .reference source => do
    require (source ∉ stack.map (·.source)) .invalidJwks
    match heap source with
    | .foreign => throw .invalidJwks
    | .array elements =>
      let remaining ← charge remaining 2
      let length := elements.length
      require (¬ (0 < length ∧ remaining < length + length - 1)) .invalidJwks
      return (remaining, .opened ⟨source, none, length, 0, .array []⟩)
    | .plain object =>
      let remaining ← charge remaining 2
      let (remaining, keys) ← object.visited.foldlM (chargeKey (object.members.map (·.1))) (remaining, [])
      return (remaining, .opened ⟨source, some keys, keys.length, 0, .record []⟩)

/-- What a round of the loop leaves: open objects, the innermost one first, or the copy of the input. -/
inductive Progress
  | running (remaining : ℕ) (frame : Frame) (below : List Frame)
  | finished (copied : JsonValue)

/-- A copied object is handed to the object that refers to it. -/
def close (remaining : ℕ) (copied : JsonValue) : List Frame → Progress
  | [] => .finished copied
  | parent :: below => .running remaining (parent.define copied) below

/-- One round of the loop. -/
def turn (remaining : ℕ) (frame : Frame) (below : List Frame) : Except ConfigurationCode Progress :=
  if frame.position = frame.length then .ok (close remaining frame.value below)
  else
    match frame.descriptor heap with
    | some (.data value) => do
      let remaining ←
        (if frame.keys.isNone ∧ 0 < frame.position then charge remaining 1 else .ok remaining)
      let (remaining, child) ← copy format heap (frame :: below) remaining value
      match child with
      | .value copied => return .running remaining (frame.advance.define copied) below
      | .opened child => return .running remaining child (frame.advance :: below)
    | _ => throw .invalidJwks

/-! ## What a charge spends -/

theorem charge_of_le {remaining bytes : ℕ} (h : bytes ≤ remaining) :
    charge remaining bytes = .ok (remaining - bytes) := if_pos h

theorem charge_of_lt {remaining bytes : ℕ} (h : remaining < bytes) :
    charge remaining bytes = .error .invalidJwks := if_neg (by omega)

theorem charge_eq_ok {remaining bytes r : ℕ} :
    charge remaining bytes = .ok r ↔ r + bytes = remaining := by
  by_cases h : bytes ≤ remaining
  · rw [charge_of_le h, Except.ok.injEq]
    omega
  · rw [charge_of_lt (by omega)]
    simp only [reduceCtorEq, false_iff]
    omega

theorem charge_zero (remaining : ℕ) : charge remaining 0 = .ok remaining := by
  rw [charge_of_le (Nat.zero_le _), Nat.sub_zero]

/-- Two charges in a row are one. -/
theorem charge_charge (remaining a b : ℕ) :
    (charge remaining a >>= fun r => charge r b) = charge remaining (a + b) := by
  by_cases ha : a ≤ remaining
  · rw [charge_of_le ha, ok_bind]
    by_cases hb : a + b ≤ remaining
    · rw [charge_of_le hb, charge_of_le (by omega), Nat.sub_sub]
    · rw [charge_of_lt (by omega), charge_of_lt (by omega)]
  · rw [charge_of_lt (by omega), error_bind, charge_of_lt (by omega)]

/-- A unit that is charged, and then the units after it. -/
theorem chargeUnits_step {remaining cost n : ℕ} {rest : Text}
    (ih : ∀ r, chargeUnits r rest = charge r (octetCount (quoteUnits rest)))
    (hcost : n = cost + octetCount (quoteUnits rest)) :
    (charge remaining cost >>= fun r => chargeUnits r rest) = charge remaining n := by
  rw [funext ih, charge_charge, hcost]

/-- The loop of `chargeString` spends the octets of the units of the string. -/
theorem chargeUnits_eq (remaining : ℕ) (value : Text) :
    chargeUnits remaining value = charge remaining (octetCount (quoteUnits value)) := by
  have hsingle : ∀ {code : UInt16} {rest : Text}, ¬ highSurrogate code →
      octetCount (quoteUnits (code :: rest)) = unitCount code + octetCount (quoteUnits rest) := by
    intro code rest hhigh
    exact octetCount_quoteUnits_cons fun d _ => by simp [hhigh]
  fun_induction chargeUnits remaining value with
  | case1 remaining => exact (charge_zero remaining).symm
  | case2 remaining code rest hshort ih =>
    have hhigh : ¬ highSurrogate code := by
      rcases hshort with rfl | rfl | rfl | rfl | rfl | rfl | rfl <;> decide
    apply chargeUnits_step ih
    rw [hsingle hhigh, unitCount, if_pos hshort]
  | case3 remaining code rest hshort hcontrol ih =>
    have hhigh : ¬ highSurrogate code := by
      have hlow : code.toNat < 32 := by rwa [UInt16.lt_iff_toNat_lt] at hcontrol
      simp [(not_surrogate_of_lt (c := code) (by omega)).1]
    apply chargeUnits_step ih
    rw [hsingle hhigh, unitCount, if_neg hshort, if_pos hcontrol]
  | case4 remaining code hshort hcontrol hhigh next rest hlow ih =>
    exact chargeUnits_step ih (octetCount_quoteUnits_pair hhigh hlow)
  | case5 remaining code hshort hcontrol hhigh next rest hlow ih =>
    have hpair : ∀ d ∈ (next :: rest).head?, (highSurrogate code && lowSurrogate d) = false := by
      simp [hlow]
    apply chargeUnits_step ih
    rw [octetCount_quoteUnits_cons hpair, unitCount, if_neg hshort, if_neg hcontrol,
      if_pos (by simp [hhigh])]
  | case6 remaining code hshort hcontrol hhigh =>
    rw [octetCount_quoteUnits_cons (by simp), unitCount, if_neg hshort, if_neg hcontrol,
      if_pos (by simp [hhigh])]
    rfl
  | case7 remaining code rest hshort hcontrol hhigh hlow ih =>
    apply chargeUnits_step ih
    rw [hsingle hhigh, unitCount, if_neg hshort, if_neg hcontrol, if_pos (by simp [hlow])]
  | case8 remaining code rest hshort hcontrol hhigh hlow ih =>
    apply chargeUnits_step ih
    rw [hsingle hhigh, unitCount, if_neg hshort, if_neg hcontrol, if_neg (by simp [hhigh, hlow])]

/-- `chargeString` spends the octets of the text of the string; the early check on its length never
rejects what the charges would admit. -/
theorem chargeString_eq (remaining : ℕ) (value : Text) :
    chargeString remaining value = charge remaining (octetCount (quoteText value)) := by
  have hlength := length_le_octetCount_quoteUnits value
  rw [octetCount_quoteText, Nat.add_comm, ← charge_charge]
  simp only [chargeString, chargeUnits_eq]
  by_cases h : value.length ≤ remaining
  · rw [require_of h, ok_bind]
  · have hrequire : require (value.length ≤ remaining) ConfigurationCode.invalidJwks =
        .error .invalidJwks := require_eq_error.mpr ⟨h, rfl⟩
    rw [hrequire, error_bind, charge_charge, charge_of_lt (by omega)]

/-- What names spend that are enumerated after `n` others: their strings, the colons and commas. -/
def namesCount (n : ℕ) : List Text → ℕ
  | [] => 0
  | key :: keys => octetCount (quoteText key) + (if n = 0 then 1 else 2) + namesCount (n + 1) keys

theorem namesCount_of_pos {n : ℕ} (h : 0 < n) (keys : List Text) :
    namesCount n keys = (keys.map fun key => octetCount (quoteText key) + 1).sum + keys.length := by
  induction keys generalizing n with
  | nil => rfl
  | cons key keys ih =>
    rw [namesCount, if_neg (by omega), ih (Nat.succ_pos n), List.map_cons, List.sum_cons,
      List.length_cons]
    omega

/-- The names of an object spend their strings, a colon each and the commas between them. -/
theorem namesCount_zero (keys : List Text) : namesCount 0 keys =
    (keys.map fun key => octetCount (quoteText key) + 1).sum + (keys.length - 1) := by
  cases keys with
  | nil => rfl
  | cons key keys =>
    rw [namesCount, if_pos rfl, namesCount_of_pos Nat.one_pos, List.map_cons, List.sum_cons,
      List.length_cons]
    omega

/-- The loop over the names of an object keeps the own ones and spends their octets. -/
theorem foldlM_chargeKey {own : List Text} (visited keys : List Text) (remaining : ℕ) :
    visited.foldlM (chargeKey own) (remaining, keys) =
      (charge remaining (namesCount keys.length (visited.filter (· ∈ own)))).map
        fun r => (r, keys ++ visited.filter (· ∈ own)) := by
  induction visited generalizing keys remaining with
  | nil => simp [namesCount, charge_zero, Except.map, pure, Except.pure]
  | cons key visited ih =>
    rw [List.foldlM_cons]
    by_cases hown : key ∈ own
    · have hround : chargeKey own (remaining, keys) key =
          (charge remaining (octetCount (quoteText key) + if keys.length = 0 then 1 else 2)).map
            fun r => (r, keys ++ [key]) := by
        rw [← charge_charge]
        simp only [chargeKey, hown, not_true_eq_false, if_false, chargeString_eq]
        cases charge remaining (octetCount (quoteText key)) with
        | error e => rfl
        | ok r =>
          simp only [ok_bind]
          cases charge r (if keys.length = 0 then 1 else 2) <;> rfl
      rw [hround, List.filter_cons_of_pos (by simpa using hown), namesCount]
      generalize (octetCount (quoteText key) + if keys.length = 0 then 1 else 2) = cost
      rw [← charge_charge]
      cases charge remaining cost with
      | error e => rfl
      | ok r =>
        simp only [Except.map, ok_bind]
        rw [ih, List.length_append, List.length_singleton, List.append_assoc, List.singleton_append]
        rfl
    · have hround : chargeKey own (remaining, keys) key = .ok (remaining, keys) := by
        simp [chargeKey, hown]
      rw [hround, ok_bind, ih, List.filter_cons_of_neg (by simpa using hown)]

/-- An enumeration finds exactly the own names. -/
theorem filter_visited (o : PlainObject) :
    o.visited.filter (· ∈ o.members.map (·.1)) = o.members.map (·.1) := by
  rw [PlainObject.visited, List.filter_append]
  have hown : (o.members.map (·.1)).filter (· ∈ o.members.map (·.1)) = o.members.map (·.1) :=
    List.filter_eq_self.mpr fun key hkey => by simpa using hkey
  have hinherited : (o.inherited.filter fun key => key ∉ o.members.map (·.1)).filter
      (· ∈ o.members.map (·.1)) = [] := by
    rw [List.filter_filter, List.filter_eq_nil_iff]
    intro key hkey
    simp
  rw [hown, hinherited, List.append_nil]

/-! ## What a step copies -/

/-- The JSON value of a value that is no object. -/
def leaf : GraphValue → Option JsonValue
  | .null => some .null
  | .boolean b => some (.boolean b)
  | .number n => if n.isFinite then some (.number n) else none
  | .text t => some (.text t)
  | .reference _ => none
  | .other => none

namespace GraphObject

/-- The properties that are copied of an object; a hole of an array is none. -/
def slots : GraphObject → Option (List (Option Property))
  | .array elements => some elements
  | .plain object => some (object.members.map fun m => some m.2)
  | .foreign => none

/-- What an object spends when it is opened. -/
def openCount : GraphObject → ℕ
  | .plain object => 2 + namesCount 0 (object.members.map (·.1))
  | .array _ | .foreign => 2

/-- The frame of an object some of whose properties have been copied. -/
def frame (source : ℕ) (copied : List JsonValue) : GraphObject → Frame
  | .plain object =>
    let keys := object.members.map (·.1)
    ⟨source, some keys, keys.length, copied.length, .record (keys.zip copied)⟩
  | .array elements => ⟨source, none, elements.length, copied.length, .array copied⟩
  | .foreign => ⟨source, none, 0, copied.length, .array copied⟩

/-- The octets that an array of a length needs at least after its brackets. -/
def leastCount : GraphObject → ℕ
  | .array elements => if 0 < elements.length then elements.length + elements.length - 1 else 0
  | .plain _ | .foreign => 0

theorem two_le_openCount (o : GraphObject) : 2 ≤ o.openCount := by
  cases o <;> simp [openCount]

end GraphObject

/-- A value that is no object is copied, and spends the octets of its text. -/
theorem copy_of_leaf {stack : List Frame} {remaining : ℕ} {value : GraphValue} {j : JsonValue}
    (h : leaf value = some j) : copy format heap stack remaining value =
      (charge remaining (valueCount format j)).map fun r => (r, .value j) := by
  cases value with
  | null =>
    obtain rfl := Option.some.inj h
    rw [valueCount, stringify]
    rfl
  | boolean b =>
    obtain rfl := Option.some.inj h
    rw [valueCount, stringify]
    cases b <;> rfl
  | number n =>
    rw [leaf] at h
    split at h
    · rename_i hn
      obtain rfl := Option.some.inj h
      rw [valueCount, stringify, if_pos hn, octetCount_of_isAscii (isAscii_numberText format n), copy,
        require_of hn]
      rfl
    · cases h
  | text t =>
    obtain rfl := Option.some.inj h
    rw [valueCount, stringify, copy, chargeString_eq]
    rfl
  | reference r => cases h
  | other => cases h

/-- A value that is neither JSON nor an object is rejected. -/
theorem copy_of_not_leaf {stack : List Frame} {remaining : ℕ} {value : GraphValue}
    (h : leaf value = none) (hvalue : ∀ r, value ≠ .reference r) :
    copy format heap stack remaining value = .error .invalidJwks := by
  cases value with
  | null => cases h
  | boolean b => cases h
  | number n =>
    have hn : ¬ n.isFinite := by
      intro hn
      rw [leaf, if_pos hn] at h
      cases h
    rw [copy, require_eq_error.mpr ⟨hn, rfl⟩]
    rfl
  | text t => cases h
  | reference r => exact absurd rfl (hvalue r)
  | other => rfl

/-- An object is opened: it is no ancestor, it has a JSON prototype, and what it spends remains. -/
theorem copy_reference {stack : List Frame} {remaining source : ℕ} :
    copy format heap stack remaining (.reference source) =
      if source ∈ stack.map (·.source) ∨ (heap source).slots = none ∨
          remaining < (heap source).openCount + (heap source).leastCount then .error .invalidJwks
      else .ok (remaining - (heap source).openCount, .opened ((heap source).frame source [])) := by
  rw [copy]
  by_cases hancestor : source ∈ stack.map (·.source)
  · rw [require_eq_error.mpr ⟨not_not.mpr hancestor, rfl⟩, if_pos (.inl hancestor)]
    rfl
  · rw [require_of hancestor, ok_bind]
    cases hobject : heap source with
    | foreign => simp [GraphObject.slots, throw, throwThe, MonadExceptOf.throw]
    | array elements =>
      have hcondition : (source ∈ stack.map (·.source) ∨ (GraphObject.array elements).slots = none ∨
          remaining < (GraphObject.array elements).openCount + (GraphObject.array elements).leastCount) ↔
          remaining < 2 ∨ 0 < elements.length ∧ remaining - 2 < elements.length + elements.length - 1 := by
        simp only [hancestor, GraphObject.slots, GraphObject.openCount, GraphObject.leastCount,
          reduceCtorEq, false_or]
        split <;> omega
      rw [if_congr hcondition rfl rfl]
      by_cases hopen : remaining < 2
      · simp [charge_of_lt hopen, hopen]
      · by_cases hleast : 0 < elements.length ∧ remaining - 2 < elements.length + elements.length - 1
        · have hreject : require (¬ (0 < elements.length ∧
              remaining - 2 < elements.length + elements.length - 1)) ConfigurationCode.invalidJwks =
              .error .invalidJwks := require_eq_error.mpr ⟨not_not.mpr hleast, rfl⟩
          simp only [charge_of_le (not_lt.mp hopen), ok_bind, hreject, error_bind, if_pos (Or.inr hleast)]
        · simp only [charge_of_le (not_lt.mp hopen), ok_bind, hopen, hleast,
            or_self, if_false]
          rfl
    | plain object =>
      have hcondition : (source ∈ stack.map (·.source) ∨ (GraphObject.plain object).slots = none ∨
          remaining < (GraphObject.plain object).openCount + (GraphObject.plain object).leastCount) ↔
          remaining < 2 + namesCount 0 (object.members.map (·.1)) := by
        simp [hancestor, GraphObject.slots, GraphObject.openCount, GraphObject.leastCount]
      have hnames := fun r => @foldlM_chargeKey (object.members.map (·.1)) object.visited [] r
      simp only [filter_visited, List.length_nil, List.nil_append] at hnames
      simp only [hnames, hcondition]
      by_cases hopen : remaining < 2
      · rw [charge_of_lt hopen, if_pos (by omega)]
        rfl
      · rw [charge_of_le (not_lt.mp hopen), ok_bind]
        by_cases hnames : remaining < 2 + namesCount 0 (object.members.map (·.1))
        · rw [charge_of_lt (by omega), if_pos hnames]
          rfl
        · rw [charge_of_le (by omega), if_neg hnames, GraphObject.openCount, ← Nat.sub_sub,
            GraphObject.frame, List.zip_nil_right]
          rfl

/-- Every value that is copied spends an octet, and every object that is opened two. -/
theorem spends_of_copy {stack : List Frame} {remaining r : ℕ} {value : GraphValue} {c : Copy}
    (h : copy format heap stack remaining value = .ok (r, c)) :
    (∃ j, leaf value = some j ∧ r + valueCount format j = remaining ∧ c = .value j) ∨
      ∃ source, value = .reference source ∧ source ∉ stack.map (·.source) ∧
        (heap source).slots ≠ none ∧ r + (heap source).openCount = remaining ∧
        c = .opened ((heap source).frame source []) := by
  cases hleaf : leaf value with
  | some j =>
    rw [copy_of_leaf format heap hleaf] at h
    cases hcharge : charge remaining (valueCount format j) with
    | error e =>
      rw [hcharge] at h
      cases h
    | ok r' =>
      rw [hcharge] at h
      cases h
      exact .inl ⟨j, rfl, charge_eq_ok.mp hcharge, rfl⟩
  | none =>
    by_cases hreference : ∃ source, value = .reference source
    · obtain ⟨source, rfl⟩ := hreference
      rw [copy_reference] at h
      split at h
      · cases h
      · rename_i hopen
        cases h
        rw [not_or, not_or] at hopen
        exact .inr ⟨source, rfl, hopen.1, hopen.2.1, by omega, rfl⟩
    · rw [copy_of_not_leaf format heap hleaf (not_exists.mp hreference)] at h
      cases h

/-- Every round of the loop spends octets or closes an object. -/
theorem turn_decreases {remaining r : ℕ} {frame f : Frame} {below fs : List Frame}
    (h : turn format heap remaining frame below = .ok (.running r f fs)) :
    2 * r + fs.length < 2 * remaining + below.length := by
  unfold turn at h
  split at h
  · cases below with
    | nil => cases h
    | cons parent below =>
      cases h
      rw [List.length_cons]
      omega
  · split at h
    · obtain ⟨r₁, hcomma, h⟩ := bind_eq_ok.mp h
      obtain ⟨⟨r₂, c⟩, hcopy, h⟩ := bind_eq_ok.mp h
      have hle : r₁ ≤ remaining := by
        split at hcomma
        · have := charge_eq_ok.mp hcomma
          omega
        · cases hcomma
          exact le_rfl
      rcases spends_of_copy format heap hcopy with ⟨j, -, hcost, rfl⟩ | ⟨source, -, -, -, hcost, rfl⟩
      · have := valueCount_pos format j
        cases h
        omega
      · have := (heap source).two_le_openCount
        cases h
        rw [List.length_cons]
        omega
    · cases h

/-- The loop: rounds until the copy of the input is finished. -/
def walk (remaining : ℕ) (frame : Frame) (below : List Frame) : Except ConfigurationCode JsonValue :=
  match _hturn : turn format heap remaining frame below with
  | .error e => .error e
  | .ok (.finished copied) => .ok copied
  | .ok (.running r f fs) => walk r f fs
termination_by 2 * remaining + below.length
decreasing_by exact turn_decreases format heap _hturn

/-! ## Inputs -/

/-- An input: octets, or any other value. -/
inductive JwksInput
  | bytes (octets : List UInt8)
  | value (value : GraphValue)

/-- A source text that is parsed. -/
def parseSource (source : Option Text) : Except ConfigurationCode JsonValue :=
  match source.bind jsonParse with
  | some j => .ok j
  | none => .error .invalidJwks

/-- `snapshotJwksInput`. -/
def snapshotJwksInput (input : JwksInput) (maximumBytes : ℕ) : Except ConfigurationCode JsonValue :=
  match input with
  | .bytes octets => do
    require (octets.length ≤ maximumBytes) .invalidJwks
    parseSource ((utf8Decode octets).map units)
  | .value (.text source) => do
    require (source.length ≤ maximumBytes) .invalidJwks
    require (octetCount source ≤ maximumBytes) .invalidJwks
    parseSource (some source)
  | .value value => do
    let (remaining, result) ← copy format heap [] maximumBytes value
    match result with
    | .value copied => return copied
    | .opened frame => walk format heap remaining frame []

end AgentSig.Profiles.Snapshot
