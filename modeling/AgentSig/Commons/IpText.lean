import AgentSig.Commons.Text
import Mathlib.Data.List.Induction
import Mathlib.Tactic.IntervalCases

/-!
# Texts of IP addresses

An IPv4 address is written as four decimal octets. An IPv6 address is written as groups of at most
four hexadecimal digits, of which the last two may be a dotted quad, and one run of zero groups may
be left out at a double colon. So an IPv6 address has many texts, and each has one address.

## Main definitions

* `hexText n`, `readHex t`: hexadecimal digits
* `Quad`, `HexGroup`, `Spelling`: the texts of addresses
* `Quad.text`, `Quad.value`, `Spelling.text`, `Spelling.value`: what they write, and what it denotes

## Main results

* `readHex_hexText`: digits read back
* `Quad.value_lt`, `Spelling.value_lt`: addresses have 32 and 128 bits
-/

namespace Commons.Ip

/-! ## Hexadecimal digits -/

/-- A hexadecimal digit of either case. -/
def groupUnit (c : UInt16) : Bool := (48 ≤ c && c ≤ 57) || (65 ≤ c && c ≤ 70) || (97 ≤ c && c ≤ 102)

/-- The value of a hexadecimal digit. -/
def groupUnitValue (c : UInt16) : ℕ :=
  if c ≤ 57 then c.toNat - 48 else if c ≤ 70 then c.toNat - 55 else c.toNat - 87

/-- The number written by hexadecimal digits. -/
def readHex (t : Text) : ℕ := t.foldl (fun n c => n * 16 + groupUnitValue c) 0

/-- The hexadecimal digits of `n`, in lower case, most significant first. -/
def hexText (n : ℕ) : Text := (Nat.toDigits 16 n).map unit

theorem readHex_append_singleton (t : Text) (c : UInt16) :
    readHex (t ++ [c]) = readHex t * 16 + groupUnitValue c := by
  simp [readHex]

theorem groupUnit_digitChar {n : ℕ} (h : n < 16) :
    groupUnit (unit n.digitChar) ∧ groupUnitValue (unit n.digitChar) = n := by
  interval_cases n <;> decide

theorem hexText_of_lt {n : ℕ} (h : n < 16) : hexText n = [unit n.digitChar] := by
  rw [hexText, Nat.toDigits_of_lt_base h]
  rfl

theorem hexText_of_le {n : ℕ} (h : 16 ≤ n) : hexText n = hexText (n / 16) ++ [unit (n % 16).digitChar] := by
  rw [hexText, Nat.toDigits_of_base_le (by omega) h, List.map_append]
  rfl

/-- The digits of a number read back as that number. -/
theorem readHex_hexText (n : ℕ) : readHex (hexText n) = n := by
  induction n using Nat.strongRecOn with
  | ind n ih =>
    by_cases h : n < 16
    · rw [hexText_of_lt h]
      simp [readHex, (groupUnit_digitChar h).2]
    · have hmod : n % 16 < 16 := Nat.mod_lt n (by omega)
      rw [hexText_of_le (by omega), readHex_append_singleton, ih (n / 16) (by omega),
        (groupUnit_digitChar hmod).2]
      omega

theorem groupUnit_of_mem_hexText {n : ℕ} {c : UInt16} (h : c ∈ hexText n) : groupUnit c := by
  induction n using Nat.strongRecOn with
  | ind n ih =>
    by_cases hn : n < 16
    · rw [hexText_of_lt hn, List.mem_singleton] at h
      exact h ▸ (groupUnit_digitChar hn).1
    · rw [hexText_of_le (by omega), List.mem_append, List.mem_singleton] at h
      rcases h with h | rfl
      · exact ih (n / 16) (by omega) h
      · exact (groupUnit_digitChar (Nat.mod_lt n (by omega))).1

theorem hexText_ne_nil (n : ℕ) : hexText n ≠ [] := by
  simp [hexText, Nat.toDigits_ne_nil]

theorem length_hexText_le {n k : ℕ} (hk : 0 < k) (h : n < 16 ^ k) : (hexText n).length ≤ k := by
  rw [hexText, List.length_map]
  exact (Nat.length_toDigits_le_iff (by omega) hk).mpr h

theorem groupUnitValue_lt {c : UInt16} (h : groupUnit c) : groupUnitValue c < 16 := by
  simp only [groupUnit, Bool.or_eq_true, Bool.and_eq_true, decide_eq_true_eq, UInt16.le_iff_toNat_le,
    UInt16.reduceToNat] at h
  simp only [groupUnitValue, UInt16.le_iff_toNat_le, UInt16.reduceToNat]
  split
  · omega
  · split <;> omega

theorem readHex_lt {t : Text} (h : ∀ c ∈ t, groupUnit c) : readHex t < 16 ^ t.length := by
  induction t using List.reverseRecOn with
  | nil => simp [readHex]
  | append_singleton t c ih =>
    have hlt := ih fun d hd => h d (by simp [hd])
    have hc := groupUnitValue_lt (h c (by simp))
    rw [readHex_append_singleton, List.length_append, List.length_singleton, Nat.pow_succ]
    omega

/-! ## IPv4 -/

/-- The octets of an IPv4 address. -/
structure Quad where
  first : UInt8
  second : UInt8
  third : UInt8
  fourth : UInt8
  deriving DecidableEq, Repr

/-- The octets of a quad, as texts. -/
def Quad.octets (q : Quad) : List Text :=
  [decimal q.first.toNat, decimal q.second.toNat, decimal q.third.toNat, decimal q.fourth.toNat]

/-- Four decimal octets. -/
def Quad.text (q : Quad) : Text := [46].intercalate q.octets

/-- The upper and the lower 16 bits of a quad. -/
def Quad.groups (q : Quad) : List ℕ :=
  [q.first.toNat * 256 + q.second.toNat, q.third.toNat * 256 + q.fourth.toNat]

/-- The address of a quad. -/
def Quad.value (q : Quad) : ℕ :=
  (q.first.toNat * 256 + q.second.toNat) * 65536 + (q.third.toNat * 256 + q.fourth.toNat)

/-- An IPv4 address has 32 bits. -/
theorem Quad.value_lt (q : Quad) : q.value < 2 ^ 32 := by
  have h₁ := q.first.toNat_lt
  have h₂ := q.second.toNat_lt
  have h₃ := q.third.toNat_lt
  have h₄ := q.fourth.toNat_lt
  simp only [Quad.value]
  omega

theorem Quad.groups_lt (q : Quad) : ∀ g ∈ q.groups, g < 65536 := by
  have h₁ := q.first.toNat_lt
  have h₂ := q.second.toNat_lt
  have h₃ := q.third.toNat_lt
  have h₄ := q.fourth.toNat_lt
  simp only [Quad.groups, List.mem_cons, List.not_mem_nil, or_false, forall_eq_or_imp, forall_eq]
  omega

/-! ## IPv6 -/

/-- One to four hexadecimal digits. -/
structure HexGroup where
  digits : Text
  nonempty : digits ≠ []
  short : digits.length ≤ 4
  hex : ∀ c ∈ digits, groupUnit c

/-- The number that a group writes. -/
def HexGroup.value (g : HexGroup) : ℕ := readHex g.digits

theorem HexGroup.value_lt (g : HexGroup) : g.value < 65536 := by
  have hlt := readHex_lt g.hex
  have hle : 16 ^ g.digits.length ≤ 16 ^ 4 := Nat.pow_le_pow_right (by omega) g.short
  exact lt_of_lt_of_le hlt hle

/-- The texts between the colons of groups and a dotted quad at their end. -/
def pieces (groups : List HexGroup) (quad : Option Quad) : List Text :=
  groups.map (·.digits) ++ quad.toList.map Quad.text

/-- The numbers of groups and a dotted quad at their end. -/
def groupValues (groups : List HexGroup) (quad : Option Quad) : List ℕ :=
  groups.map (·.value) ++ quad.toList.flatMap Quad.groups

/-- A way to write an IPv6 address: eight groups, or at most seven around a double colon. A dotted
quad counts as two groups. -/
inductive Spelling
  | full (groups : List HexGroup) (quad : Option Quad) (width : (groupValues groups quad).length = 8)
  | compressed (left right : List HexGroup) (quad : Option Quad)
      (width : left.length + (groupValues right quad).length ≤ 7)

/-- The text of a spelling. -/
def Spelling.text : Spelling → Text
  | .full groups quad _ => [58].intercalate (pieces groups quad)
  | .compressed left right quad _ =>
    [58].intercalate (pieces left none) ++ 58 :: 58 :: [58].intercalate (pieces right quad)

/-- The eight groups of a spelling. -/
def Spelling.groups : Spelling → List ℕ
  | .full groups quad _ => groupValues groups quad
  | .compressed left right quad _ =>
    groupValues left none ++ List.replicate (8 - left.length - (groupValues right quad).length) 0 ++
      groupValues right quad

/-- The address of eight groups. -/
def addressOf (groups : List ℕ) : ℕ := groups.foldl (fun value group => value * 65536 + group) 0

/-- The address of a spelling. -/
def Spelling.value (s : Spelling) : ℕ := addressOf s.groups

theorem groupValues_lt (groups : List HexGroup) (quad : Option Quad) :
    ∀ g ∈ groupValues groups quad, g < 65536 := by
  intro g hg
  simp only [groupValues, List.mem_append, List.mem_map, List.mem_flatMap] at hg
  rcases hg with ⟨group, -, rfl⟩ | ⟨q, -, hg⟩
  · exact group.value_lt
  · exact q.groups_lt g hg

theorem Spelling.groups_lt (s : Spelling) : ∀ g ∈ s.groups, g < 65536 := by
  cases s with
  | full groups quad _ => exact groupValues_lt groups quad
  | compressed left right quad _ =>
    intro g hg
    simp only [Spelling.groups, List.mem_append, List.mem_replicate] at hg
    rcases hg with (hg | ⟨-, rfl⟩) | hg
    · exact groupValues_lt left none g hg
    · omega
    · exact groupValues_lt right quad g hg

theorem Spelling.length_groups (s : Spelling) : s.groups.length = 8 := by
  cases s with
  | full _ _ width => exact width
  | compressed left right quad width =>
    simp only [Spelling.groups, List.length_append, List.length_replicate]
    simp only [groupValues, List.length_append, List.length_map, Option.toList_none,
      List.flatMap_nil, List.length_nil] at width ⊢
    omega

theorem addressOf_lt {groups : List ℕ} (h : ∀ g ∈ groups, g < 65536) :
    addressOf groups < 65536 ^ groups.length := by
  induction groups using List.reverseRecOn with
  | nil => simp [addressOf]
  | append_singleton groups g ih =>
    have hlt := ih fun d hd => h d (by simp [hd])
    have hg := h g (by simp)
    rw [addressOf, List.foldl_append, List.length_append, List.length_singleton, Nat.pow_succ]
    simp only [List.foldl_cons, List.foldl_nil]
    simp only [addressOf] at hlt
    omega

/-- An IPv6 address has 128 bits. -/
theorem Spelling.value_lt (s : Spelling) : s.value < 2 ^ 128 := by
  have hlt := addressOf_lt s.groups_lt
  rw [s.length_groups] at hlt
  exact hlt

end Commons.Ip
