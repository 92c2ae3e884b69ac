import AgentSig.Discovery.AddressPolicy
import Mathlib.Tactic.Ring

/-!
# The address of a text

Every text of an address is read as that address, and no other text is read. A dotted quad is first
replaced by two groups, then the text is cut at its double colon and at its colons.

## Main definitions

* `Spells a t`: the text `t` is a text of the address `a`
* `IsIP isIP`: `isIP` accepts exactly the texts of addresses

## Main results

* `parseAddress_eq_some`: the address of a text is the one that it spells
-/

namespace AgentSig.Discovery

open Commons Commons.Ip

/-- A text of an address. -/
def Spells : Address → Text → Prop
  | ⟨.v4, value⟩, t => ∃ q : Quad, t = q.text ∧ value = q.value
  | ⟨.v6, value⟩, t => ∃ s : Spelling, t = s.text ∧ value = s.value

/-- `isIP` accepts exactly the texts of addresses; what it accepts with a zone is left open. -/
structure IsIP (isIP : Text → ℕ) : Prop where
  four : ∀ t, isIP t = 4 ↔ ∃ q : Quad, t = q.text
  six : ∀ t, 37 ∉ t → (isIP t = 6 ↔ ∃ s : Spelling, t = s.text)

/-! ## Numbers -/

/-- Shifting and filling in is multiplying and adding, as long as what is filled in is short. -/
theorem foldl_shiftLeft {α : Type} {k : ℕ} {f : α → ℕ} {l : List α} (h : ∀ a ∈ l, f a < 2 ^ k) (n : ℕ) :
    l.foldl (fun value a => value <<< k ||| f a) n =
      (l.map f).foldl (fun value a => value * 2 ^ k + a) n := by
  induction l generalizing n with
  | nil => rfl
  | cons a l ih =>
    obtain ⟨ha, hl⟩ := List.forall_mem_cons.mp h
    rw [List.foldl_cons, List.map_cons, List.foldl_cons, ih hl, ← Nat.shiftLeft_add_eq_or_of_lt ha,
      Nat.shiftLeft_eq]

theorem notMem_decimal {n : ℕ} {c : UInt16} (h : c < 48 ∨ 57 < c) : c ∉ decimal n := by
  intro hc
  obtain ⟨hlow, hhigh⟩ := bounds_of_mem_decimal hc
  simp only [UInt16.le_iff_toNat_le, UInt16.lt_iff_toNat_lt] at h hlow hhigh
  omega

theorem notMem_of_groupUnit {t : Text} (ht : ∀ c ∈ t, groupUnit c) {c : UInt16} (hc : groupUnit c = false) :
    c ∉ t := by
  intro hmem
  rw [ht c hmem] at hc
  simp at hc

theorem octets_spec (q : Quad) : ∀ octet ∈ q.octets, ∃ b : UInt8, octet = decimal b.toNat := by
  intro octet h
  simp only [Quad.octets, List.mem_cons, List.not_mem_nil, or_false] at h
  rcases h with rfl | rfl | rfl | rfl <;> exact ⟨_, rfl⟩

theorem splitOn_quad (q : Quad) : q.text.splitOn 46 = q.octets := by
  refine List.splitOn_intercalate 46 ?_ (by simp [Quad.octets])
  intro octet h
  obtain ⟨b, rfl⟩ := octets_spec q octet h
  exact notMem_decimal (by decide)

theorem readDigits_octets (q : Quad) : q.octets.map (readDigits 0) =
    [q.first.toNat, q.second.toNat, q.third.toNat, q.fourth.toNat] := by
  simp only [Quad.octets, List.map_cons, List.map_nil, readDigits_decimal]

/-- The octets of a quad make up its address. -/
theorem foldl_quad (q : Quad) :
    (q.text.splitOn 46).foldl (fun value octet => value <<< 8 ||| readDigits 0 octet) 0 = q.value := by
  rw [splitOn_quad, foldl_shiftLeft (k := 8), readDigits_octets]
  · simp only [List.foldl_cons, List.foldl_nil, Quad.value]
    ring
  · intro octet h
    obtain ⟨b, rfl⟩ := octets_spec q octet h
    rw [readDigits_decimal]
    exact b.toNat_lt

/-! ## Characters -/

/-- A character of the text of an address. -/
def addressUnit (c : UInt16) : Bool := groupUnit c || c == 58 || c == 46

theorem addressUnit_of_mem_quad {q : Quad} {c : UInt16} (h : c ∈ q.text) :
    addressUnit c ∧ c ≠ 58 := by
  have hdigit {n : ℕ} (hc : c ∈ decimal n) : addressUnit c ∧ c ≠ 58 := by
    obtain ⟨hlow, hhigh⟩ := bounds_of_mem_decimal hc
    refine ⟨by simp [addressUnit, groupUnit, hlow, hhigh], ?_⟩
    rintro rfl
    revert hhigh
    decide
  simp only [Quad.text, Quad.octets, List.intercalate_cons_cons, List.intercalate_singleton,
    List.mem_append, List.mem_singleton] at h
  rcases h with (h | rfl) | (h | rfl) | (h | rfl) | h
  · exact hdigit h
  · decide
  · exact hdigit h
  · decide
  · exact hdigit h
  · decide
  · exact hdigit h

theorem addressUnit_of_mem_pieces {groups : List HexGroup} {quad : Option Quad} {t : Text} {c : UInt16}
    (ht : t ∈ pieces groups quad) (hc : c ∈ t) : addressUnit c ∧ c ≠ 58 := by
  simp only [pieces, List.mem_append, List.mem_map] at ht
  rcases ht with ⟨g, -, rfl⟩ | ⟨q, -, rfl⟩
  · have hhex := g.hex c hc
    refine ⟨by simp [addressUnit, hhex], ?_⟩
    rintro rfl
    exact absurd hhex (by decide)
  · exact addressUnit_of_mem_quad hc

theorem forall_mem_intercalate {p : UInt16 → Prop} (hcolon : p 58) {ts : List Text}
    (h : ∀ t ∈ ts, ∀ c ∈ t, p c) : ∀ c ∈ [58].intercalate ts, p c := by
  induction ts with
  | nil => simp
  | cons t ts ih =>
    obtain ⟨ht, hts⟩ := List.forall_mem_cons.mp h
    by_cases hnil : ts = []
    · simpa [hnil] using ht
    · intro c hc
      rw [List.intercalate_cons_of_ne_nil hnil] at hc
      simp only [List.mem_append, List.mem_singleton] at hc
      rcases hc with (hc | rfl) | hc
      · exact ht c hc
      · exact hcolon
      · exact ih hts c hc

theorem addressUnit_of_mem_intercalate {groups : List HexGroup} {quad : Option Quad} {c : UInt16}
    (h : c ∈ [58].intercalate (pieces groups quad)) : addressUnit c :=
  forall_mem_intercalate (p := fun c => addressUnit c) (by decide)
    (fun _ ht _ hc => (addressUnit_of_mem_pieces ht hc).1) c h

theorem addressUnit_of_mem_text {s : Spelling} {c : UInt16} (h : c ∈ s.text) : addressUnit c := by
  cases s with
  | full groups quad _ => exact addressUnit_of_mem_intercalate h
  | compressed left right quad _ =>
    simp only [Spelling.text, List.mem_append, List.mem_cons] at h
    rcases h with h | rfl | rfl | h
    · exact addressUnit_of_mem_intercalate h
    · decide
    · decide
    · exact addressUnit_of_mem_intercalate h

theorem not_refusedUnit {c : UInt16} (h : addressUnit c) : refusedUnit c = false := by
  rw [Bool.eq_false_iff]
  intro hc
  simp only [addressUnit, groupUnit, Bool.or_eq_true, Bool.and_eq_true, decide_eq_true_eq, beq_iff_eq,
    UInt16.le_iff_toNat_le, ← UInt16.toNat_inj, UInt16.reduceToNat] at h
  have hspecial : (ascii "%/[]").contains c = true ↔ c.toNat = 37 ∨ c.toNat = 47 ∨ c.toNat = 91 ∨
      c.toNat = 93 := by
    rw [show ascii "%/[]" = [37, 47, 91, 93] by decide]
    simp [← UInt16.toNat_inj]
  simp only [refusedUnit, Bool.or_eq_true, Bool.and_eq_true, decide_eq_true_eq, beq_iff_eq, hspecial,
    UInt16.le_iff_toNat_le, ← UInt16.toNat_inj, UInt16.reduceToNat] at hc
  omega

/-! ## Pieces between colons -/

/-- Texts that are not empty and have no colon. -/
def Solid (ps : List Text) : Prop := ∀ p ∈ ps, p ≠ [] ∧ 58 ∉ p

theorem solid_digits (groups : List HexGroup) : Solid (groups.map (·.digits)) := by
  intro p hp
  obtain ⟨g, -, rfl⟩ := List.mem_map.mp hp
  exact ⟨g.nonempty, notMem_of_groupUnit g.hex (by decide)⟩

theorem intercalate_append_singleton (ps : List Text) (t : Text) :
    [58].intercalate (ps ++ [t]) = ps.flatMap (· ++ [58]) ++ t := by
  induction ps with
  | nil => simp
  | cons p ps ih =>
    rw [List.cons_append, List.intercalate_cons_of_ne_nil (by simp), ih, List.flatMap_cons]
    simp only [List.append_assoc]

theorem splitColons_ne_nil (t : Text) : splitColons t ≠ [] := by
  fun_induction splitColons t <;> simp_all

/-- A character that does not begin a double colon joins the first part of what follows. -/
theorem splitColons_cons {c : UInt16} {t : Text} (h : c ≠ 58 ∨ StartsWithout (· == 58) t) :
    splitColons (c :: t) = (splitColons t).modifyHead (c :: ·) := by
  have hcases : ∀ rest, c = 58 → t = 58 :: rest → False := by
    rintro rest rfl rfl
    simp at h
  rw [splitColons.eq_3 c t hcases]
  cases hsplit : splitColons t with
  | nil => exact absurd hsplit (splitColons_ne_nil t)
  | cons first others => rfl

theorem splitColons_append {p : Text} (hp : 58 ∉ p) (t : Text) :
    splitColons (p ++ t) = (splitColons t).modifyHead (p ++ ·) := by
  induction p with
  | nil =>
    rw [List.nil_append]
    cases splitColons t <;> rfl
  | cons c p ih =>
    rw [List.mem_cons, not_or] at hp
    rw [List.cons_append, splitColons_cons (.inl (Ne.symm hp.1)), ih hp.2]
    cases splitColons t <;> rfl

/-- Single colons do not cut a text. -/
theorem splitColons_intercalate {ps : List Text} (h : Solid ps) (t : Text) :
    splitColons ([58].intercalate ps ++ t) = (splitColons t).modifyHead ([58].intercalate ps ++ ·) := by
  induction ps with
  | nil =>
    rw [List.intercalate_nil]
    exact splitColons_append List.not_mem_nil t
  | cons p ps ih =>
    obtain ⟨⟨-, hp⟩, hps⟩ := List.forall_mem_cons.mp h
    by_cases hnil : ps = []
    · rw [hnil, List.intercalate_singleton]
      exact splitColons_append hp t
    · have hnext : StartsWithout (· == 58) ([58].intercalate ps ++ t) := by
        obtain ⟨q, rest, rfl⟩ := List.exists_cons_of_ne_nil hnil
        obtain ⟨hq, hcolon⟩ := hps q (by simp)
        obtain ⟨c, q, rfl⟩ := List.exists_cons_of_ne_nil hq
        have hc : c ≠ 58 := fun hc => hcolon (by simp [hc])
        by_cases hrest : rest = []
        · simp [hrest, StartsWithout, hc]
        · simp [List.intercalate_cons_of_ne_nil hrest, StartsWithout, hc]
      rw [List.intercalate_cons_of_ne_nil hnil, List.append_assoc, List.append_assoc,
        splitColons_append hp, List.singleton_append, splitColons_cons (.inr hnext), ih hps]
      cases splitColons t <;> simp

theorem splitHalf_intercalate {ps : List Text} (h : Solid ps) : splitHalf ([58].intercalate ps) = ps := by
  by_cases hnil : ps = []
  · rw [hnil, List.intercalate_nil]
    rfl
  · have hne : [58].intercalate ps ≠ [] := by
      obtain ⟨p, ps, rfl⟩ := List.exists_cons_of_ne_nil hnil
      obtain ⟨hp, -⟩ := h p (by simp)
      by_cases hps : ps = []
      · simpa [hps] using hp
      · simp [List.intercalate_cons_of_ne_nil hps]
    rw [splitHalf, if_neg hne]
    exact List.splitOn_intercalate 58 (fun p hp => (h p hp).2) hnil

theorem splitGroups_full {ps : List Text} (h : Solid ps) : splitGroups ([58].intercalate ps) = ps := by
  have hsplit := splitColons_intercalate h []
  simp only [List.append_nil, splitColons, List.modifyHead_cons] at hsplit
  simp [splitGroups, hsplit, splitHalf_intercalate h]

theorem splitGroups_compressed {ls rs : List Text} (hl : Solid ls) (hr : Solid rs) :
    splitGroups ([58].intercalate ls ++ 58 :: 58 :: [58].intercalate rs) =
      ls ++ List.replicate (8 - ls.length - rs.length) [48] ++ rs := by
  have hright := splitColons_intercalate hr []
  simp only [List.append_nil, splitColons, List.modifyHead_cons] at hright
  have hsplit := splitColons_intercalate hl (58 :: 58 :: [58].intercalate rs)
  simp only [splitColons, hright, List.modifyHead_cons, List.append_nil] at hsplit
  simp [splitGroups, hsplit, splitHalf_intercalate hl, splitHalf_intercalate hr]

/-! ## Dotted quads in an IPv6 text -/

/-- The dotted quad of a spelling. -/
def dotted : Spelling → Option Quad
  | .full _ quad _ => quad
  | .compressed _ _ quad _ => quad

/-- A number of 16 bits, as a group. -/
def groupOf (n : ℕ) (h : n < 65536) : HexGroup where
  digits := hexText n
  nonempty := hexText_ne_nil n
  short := length_hexText_le (by omega) h
  hex := fun _ hc => groupUnit_of_mem_hexText hc

/-- The two groups of a quad. -/
def quadGroups (q : Quad) : List HexGroup :=
  [groupOf _ (q.groups_lt (q.first.toNat * 256 + q.second.toNat) (by simp [Quad.groups])),
    groupOf _ (q.groups_lt (q.third.toNat * 256 + q.fourth.toNat) (by simp [Quad.groups]))]

theorem groupValues_quadGroups (groups : List HexGroup) (q : Quad) :
    groupValues (groups ++ quadGroups q) none = groupValues groups (some q) := by
  simp [groupValues, quadGroups, groupOf, HexGroup.value, readHex_hexText, Quad.groups]

/-- The pieces before a dotted quad, each with its colon. -/
def lead (groups : List HexGroup) : Text := groups.flatMap fun g => g.digits ++ [58]

theorem intercalate_pieces_some (groups : List HexGroup) (q : Quad) :
    [58].intercalate (pieces groups (some q)) = lead groups ++ q.text := by
  have h := intercalate_append_singleton (groups.map (·.digits)) q.text
  rwa [List.flatMap_map] at h

theorem intercalate_pieces_quadGroups (groups : List HexGroup) (q : Quad) :
    [58].intercalate (pieces (groups ++ quadGroups q) none) = lead groups ++
      hexText (q.first.toNat * 256 + q.second.toNat) ++ [58] ++
        hexText (q.third.toNat * 256 + q.fourth.toNat) := by
  have h := intercalate_append_singleton
    (groups.map (·.digits) ++ [hexText (q.first.toNat * 256 + q.second.toNat)])
    (hexText (q.third.toNat * 256 + q.fourth.toNat))
  rw [List.flatMap_append, List.flatMap_map] at h
  simpa [pieces, quadGroups, groupOf, lead] using h

theorem getLast?_lead (groups : List HexGroup) : ∀ c ∈ (lead groups).getLast?, c = 58 := by
  intro c hc
  induction groups using List.reverseRecOn with
  | nil => simp [lead] at hc
  | append_singleton groups g ih =>
    rw [lead, List.flatMap_append, List.flatMap_singleton, ← List.append_assoc] at hc
    simpa using hc.symm

/-- A dotted quad at the end of a text is replaced by its two groups. -/
theorem replaceQuad_append {w : Text} (hw : ∀ c ∈ w.getLast?, c = 58) (q : Quad) :
    replaceQuad (w ++ q.text) = w ++ hexText (q.first.toNat * 256 + q.second.toNat) ++ [58] ++
      hexText (q.third.toNat * 256 + q.fourth.toNat) := by
  have hrun : ∀ c ∈ q.text.reverse, decide (c ≠ 58) = true := by
    intro c hc
    exact decide_eq_true (addressUnit_of_mem_quad (List.mem_reverse.mp hc)).2
  have hrest : StartsWithout (fun c => decide (c ≠ 58)) w.reverse := by
    intro c hc
    rw [List.head?_reverse] at hc
    simp [hw c hc]
  have htake : (w ++ q.text).rtakeWhile (· ≠ 58) = q.text := by
    rw [List.rtakeWhile, List.reverse_append, takeWhile_run hrun hrest, List.reverse_reverse]
  have hdrop : (w ++ q.text).rdropWhile (· ≠ 58) = w := by
    rw [List.rdropWhile, List.reverse_append, dropWhile_run hrun hrest, List.reverse_reverse]
  rw [replaceQuad, htake, hdrop, splitOn_quad, readDigits_octets]
  rfl

theorem mem_quad_text (q : Quad) : 46 ∈ q.text := by
  simp [Quad.text, Quad.octets, List.intercalate_cons_cons]

theorem notMem_pieces (groups : List HexGroup) : 46 ∉ [58].intercalate (pieces groups none) := by
  intro h
  refine forall_mem_intercalate (p := (· ≠ 46)) (by decide) ?_ 46 h rfl
  intro t ht c hc
  rw [pieces, Option.toList_none, List.map_nil, List.append_nil] at ht
  obtain ⟨g, -, rfl⟩ := List.mem_map.mp ht
  rintro rfl
  exact absurd (g.hex 46 hc) (by decide)

theorem notMem_text {s : Spelling} (h : dotted s = none) : 46 ∉ s.text := by
  cases s with
  | full groups quad _ =>
    obtain rfl : quad = none := h
    exact notMem_pieces groups
  | compressed left right quad _ =>
    obtain rfl : quad = none := h
    have hleft := notMem_pieces left
    have hright := notMem_pieces right
    simp [Spelling.text, hleft, hright]

/-! ## The address of a text -/

/-- The text that is cut into groups. -/
def undotted (t : Text) : Text := if t.contains 46 then replaceQuad t else t

/-- What is cut into groups is a text of the same groups, without a dotted quad. -/
theorem exists_undotted (s : Spelling) :
    ∃ s' : Spelling, dotted s' = none ∧ undotted s.text = s'.text ∧ s'.groups = s.groups := by
  cases hd : dotted s with
  | none =>
    refine ⟨s, hd, ?_, rfl⟩
    rw [undotted, if_neg (by simpa using notMem_text hd)]
  | some q =>
    cases s with
    | full groups quad width =>
      obtain rfl : quad = some q := hd
      have hwidth : (groupValues (groups ++ quadGroups q) none).length = 8 := by
        rw [groupValues_quadGroups]
        exact width
      refine ⟨.full (groups ++ quadGroups q) none hwidth, rfl, ?_, groupValues_quadGroups groups q⟩
      have hmem : 46 ∈ lead groups ++ q.text := List.mem_append_right _ (mem_quad_text q)
      simp only [Spelling.text, intercalate_pieces_some, intercalate_pieces_quadGroups]
      rw [undotted, if_pos (by simpa using hmem)]
      exact replaceQuad_append (getLast?_lead groups) q
    | compressed left right quad width =>
      obtain rfl : quad = some q := hd
      have hwidth : left.length + (groupValues (right ++ quadGroups q) none).length ≤ 7 := by
        rw [groupValues_quadGroups]
        exact width
      refine ⟨.compressed left (right ++ quadGroups q) none hwidth, rfl, ?_, ?_⟩
      · have hmem : 46 ∈ ([58].intercalate (pieces left none) ++ 58 :: 58 :: lead right) ++ q.text :=
          List.mem_append_right _ (mem_quad_text q)
        have hlast : ∀ c ∈ ([58].intercalate (pieces left none) ++ 58 :: 58 :: lead right).getLast?,
            c = 58 := by
          intro c hc
          have hlead := getLast?_lead right
          cases hlast : (lead right).getLast? with
          | none => simpa [List.getLast?_append, List.getLast?_cons, hlast] using hc.symm
          | some d =>
            obtain rfl : d = c := by simpa [List.getLast?_append, List.getLast?_cons, hlast] using hc
            exact hlead d hlast
        simp only [Spelling.text, intercalate_pieces_some, intercalate_pieces_quadGroups]
        rw [undotted, if_pos (by simpa using hmem)]
        simpa using replaceQuad_append hlast q
      · simp only [Spelling.groups, groupValues_quadGroups]

/-- The groups of a text without a dotted quad. -/
theorem map_readHex_splitGroups {s : Spelling} (h : dotted s = none) :
    (splitGroups s.text).map readHex = s.groups := by
  have hmap (groups : List HexGroup) :
      (groups.map (·.digits)).map readHex = groupValues groups none := by
    simp [groupValues, HexGroup.value, Function.comp_def]
  have hpieces (groups : List HexGroup) : pieces groups none = groups.map (·.digits) := by
    simp [pieces]
  cases s with
  | full groups quad _ =>
    obtain rfl : quad = none := h
    rw [Spelling.text, hpieces, splitGroups_full (solid_digits groups), hmap]
    rfl
  | compressed left right quad _ =>
    obtain rfl : quad = none := h
    rw [Spelling.text, hpieces, hpieces,
      splitGroups_compressed (solid_digits left) (solid_digits right), List.map_append,
      List.map_append, hmap, hmap, List.map_replicate, Spelling.groups]
    simp [groupValues, readHex, groupUnitValue]

/-- The groups of a text make up its address. -/
theorem foldl_groups (s : Spelling) : (splitGroups (undotted s.text)).foldl
    (fun value group => value <<< 16 ||| readHex group) 0 = s.value := by
  obtain ⟨s', hnone, htext, hgroups⟩ := exists_undotted s
  have hmap : (splitGroups (undotted s.text)).map readHex = s.groups := by
    rw [htext, map_readHex_splitGroups hnone, hgroups]
  rw [foldl_shiftLeft (k := 16), hmap]
  · rfl
  · intro t ht
    refine s.groups_lt _ ?_
    rw [← hmap]
    exact List.mem_map_of_mem ht

/-! ## Lengths -/

theorem length_quad_le (q : Quad) : q.text.length ≤ 15 := by
  have hoctet (b : UInt8) : (decimal b.toNat).length ≤ 3 := by
    have hlt := b.toNat_lt
    exact (length_decimal_le_iff (by omega)).mpr (by omega)
  have h₁ := hoctet q.first
  have h₂ := hoctet q.second
  have h₃ := hoctet q.third
  have h₄ := hoctet q.fourth
  simp only [Quad.text, Quad.octets, List.intercalate_cons_cons, List.intercalate_singleton,
    List.length_append, List.length_singleton]
  omega

theorem length_lead_le (groups : List HexGroup) : (lead groups).length ≤ 5 * groups.length := by
  induction groups with
  | nil => simp [lead]
  | cons g groups ih =>
    have hshort := g.short
    simp only [lead, List.flatMap_cons, List.length_append, List.length_cons, List.length_nil] at ih ⊢
    omega

theorem length_pieces_le (groups : List HexGroup) :
    ([58].intercalate (pieces groups none)).length ≤ 5 * groups.length := by
  rcases List.eq_nil_or_concat' groups with rfl | ⟨groups, g, rfl⟩
  · simp [pieces]
  · have hlead := length_lead_le groups
    have hshort := g.short
    have h := intercalate_append_singleton (groups.map (·.digits)) g.digits
    rw [List.flatMap_map] at h
    simp only [pieces, List.map_append, List.map_cons, List.map_nil, Option.toList_none, List.append_nil]
    rw [h, List.length_append]
    simp only [lead] at hlead
    simp only [List.length_append, List.length_singleton]
    omega

/-- A text of an IPv6 address has at most 45 characters. -/
theorem length_text_le (s : Spelling) : s.text.length ≤ 45 := by
  cases s with
  | full groups quad width =>
    cases quad with
    | none =>
      have hle := length_pieces_le groups
      simp only [groupValues, Option.toList_none, List.flatMap_nil, List.append_nil,
        List.length_map] at width
      simp only [Spelling.text]
      omega
    | some q =>
      have hle := length_lead_le groups
      have hq := length_quad_le q
      simp only [groupValues, Option.toList_some, List.flatMap_cons, List.flatMap_nil, Quad.groups,
        List.append_nil, List.length_append, List.length_map, List.length_cons, List.length_nil] at width
      simp only [Spelling.text, intercalate_pieces_some, List.length_append]
      omega
  | compressed left right quad width =>
    have hleft := length_pieces_le left
    cases quad with
    | none =>
      have hright := length_pieces_le right
      simp only [groupValues, Option.toList_none, List.flatMap_nil, List.append_nil,
        List.length_map] at width
      simp only [Spelling.text, List.length_append, List.length_cons]
      omega
    | some q =>
      have hright := length_lead_le right
      have hq := length_quad_le q
      simp only [groupValues, Option.toList_some, List.flatMap_cons, List.flatMap_nil, Quad.groups,
        List.append_nil, List.length_append, List.length_map, List.length_cons, List.length_nil] at width
      simp only [Spelling.text, intercalate_pieces_some, List.length_append, List.length_cons]
      omega

/-- A text of an IPv6 address has a colon. -/
theorem colon_mem_text (s : Spelling) : 58 ∈ s.text := by
  cases s with
  | compressed left right quad _ => simp [Spelling.text]
  | full groups quad width =>
    have hlong : 2 ≤ (pieces groups quad).length := by
      cases quad with
      | none =>
        simp only [groupValues, Option.toList_none, List.flatMap_nil, List.append_nil,
          List.length_map] at width
        simp only [pieces, Option.toList_none, List.map_nil, List.append_nil, List.length_map]
        omega
      | some q =>
        simp only [groupValues, Option.toList_some, List.flatMap_cons, List.flatMap_nil, Quad.groups,
          List.append_nil, List.length_append, List.length_map, List.length_cons,
          List.length_nil] at width
        simp only [pieces, Option.toList_some, List.length_append, List.length_map, List.length_cons,
          List.length_nil]
        omega
    rw [Spelling.text]
    rcases hpieces : pieces groups quad with _ | ⟨p, _ | ⟨q, rest⟩⟩
    · simp [hpieces] at hlong
    · simp [hpieces] at hlong
    · simp [List.intercalate_cons_cons]

theorem quad_text_ne_nil (q : Quad) : q.text ≠ [] := List.ne_nil_of_mem (mem_quad_text q)

theorem any_refusedUnit {t : Text} (h : ∀ c ∈ t, addressUnit c) : t.any refusedUnit = false := by
  rw [List.any_eq_false]
  intro c hc
  simp [not_refusedUnit (h c hc)]

/-! ## The texts that are read -/

section Parse

variable {isIP : Text → ℕ} (hip : IsIP isIP)

include hip

theorem parseAddress_quad (q : Quad) : parseAddress isIP (some q.text) = some ⟨.v4, q.value⟩ := by
  have hunits : ∀ c ∈ q.text, addressUnit c := fun c hc => (addressUnit_of_mem_quad hc).1
  have hlength : q.text.length ≠ 0 := by simpa using quad_text_ne_nil q
  have hle := length_quad_le q
  have hbounds : ¬(q.text.length = 0 ∨ q.text.length > 45 ∨ q.text.any refusedUnit = true) := by
    rw [any_refusedUnit hunits]
    simp only [Bool.false_eq_true, or_false]
    omega
  rw [parseAddress, if_neg hbounds, if_pos ((hip.four _).mpr ⟨q, rfl⟩), foldl_quad]

theorem parseAddress_spelling (s : Spelling) :
    parseAddress isIP (some s.text) = some ⟨.v6, s.value⟩ := by
  have hunits : ∀ c ∈ s.text, addressUnit c := fun c hc => addressUnit_of_mem_text hc
  have hlength : s.text.length ≠ 0 := by simpa using List.ne_nil_of_mem (colon_mem_text s)
  have hle := length_text_le s
  have hbounds : ¬(s.text.length = 0 ∨ s.text.length > 45 ∨ s.text.any refusedUnit = true) := by
    rw [any_refusedUnit hunits]
    simp only [Bool.false_eq_true, or_false]
    omega
  have hzone : 37 ∉ s.text := fun hc => absurd (hunits 37 hc) (by decide)
  have hsix : isIP s.text = 6 := (hip.six _ hzone).mpr ⟨s, rfl⟩
  have h := foldl_groups s
  rw [undotted] at h
  rw [parseAddress, if_neg hbounds, if_neg (by omega), if_neg (by omega)]
  simp only [h]

/-- The address of a text is the one that it spells. -/
theorem parseAddress_eq_some {t : Text} {a : Address} :
    parseAddress isIP (some t) = some a ↔ Spells a t := by
  constructor
  · intro h
    have h' := h
    rw [parseAddress] at h'
    split at h'
    · cases h'
    · rename_i hbounds
      simp only [not_or] at hbounds
      by_cases hfour : isIP t = 4
      · obtain ⟨q, rfl⟩ := (hip.four t).mp hfour
        rw [parseAddress_quad hip] at h
        obtain rfl := Option.some.inj h
        exact ⟨q, rfl, rfl⟩
      · by_cases hsix : isIP t = 6
        · have hzone : 37 ∉ t := by
            intro hc
            have hany : t.any refusedUnit = true := List.any_eq_true.mpr ⟨37, hc, by decide⟩
            exact hbounds.2.2 hany
          obtain ⟨s, rfl⟩ := (hip.six t hzone).mp hsix
          rw [parseAddress_spelling hip] at h
          obtain rfl := Option.some.inj h
          exact ⟨s, rfl, rfl⟩
        · rw [if_neg hfour, if_pos hsix] at h'
          cases h'
  · intro h
    obtain ⟨family, value⟩ := a
    cases family with
    | v4 =>
      obtain ⟨q, rfl, rfl⟩ := h
      exact parseAddress_quad hip q
    | v6 =>
      obtain ⟨s, rfl, rfl⟩ := h
      exact parseAddress_spelling hip s

end Parse

end AgentSig.Discovery
