import AgentSig.Discovery.AddressTexts
import AgentSig.Commons.Outcome
import Mathlib.Data.List.Perm.Subperm

/-!
# Address admission

What a policy says of an address: the blocks of special purpose are closed, global unicast is the
only open part of IPv6, and an exception opens its own block. What the code says of a text is this,
of the address that the text spells; so the spelling does not matter.

## Main definitions

* `Block`, `Block.Contains`: the addresses that share the first bits of a network
* `specialBlocks`, `globalUnicast`, `exceptionBlock`: the blocks of the source's tables
* `Permitted exceptions a`: the policy of some exceptions, on addresses
* `EmbedsV4 v n`: the IPv6 address `n` is a mapped, compatible or translated form of `v`

## Main results

* `addressRanges_eq`: the tables of the source are these blocks
* `createDirectoryAddressPolicy_eq_ok`: what makes a policy
* `not_permitted_of_embedsV4`: no embedded form of an IPv4 address is permitted
* `allows_iff_permitted`: admission is independent of spelling
-/

namespace AgentSig.Discovery

open Commons Commons.Ip Profiles

/-! ## Blocks -/

/-- The addresses that share the first `bits` bits with a network. -/
structure Block where
  network : Address
  bits : ℕ

namespace Block

/-- How many addresses a block has. -/
def size (b : Block) : ℕ := 2 ^ (b.network.family.width - b.bits)

/-- A block is an interval of the addresses of its family. -/
def Contains (b : Block) (a : Address) : Prop :=
  a.family = b.network.family ∧ b.network.value ≤ a.value ∧ a.value < b.network.value + b.size

instance (b : Block) (a : Address) : Decidable (b.Contains a) :=
  inferInstanceAs (Decidable (_ ∧ _ ∧ _))

/-- A network has no bits after its first ones. -/
def Aligned (b : Block) : Prop := b.size ∣ b.network.value

instance : DecidablePred Aligned := fun b => inferInstanceAs (Decidable (b.size ∣ b.network.value))

/-- The comparison of the first bits. -/
def test (b : Block) (a : Address) : Bool :=
  a.family = b.network.family &&
    a.value >>> (b.network.family.width - b.bits) == b.network.value >>> (b.network.family.width - b.bits)

/-- Comparing the first bits finds the interval. -/
theorem test_iff {b : Block} (h : b.Aligned) (a : Address) : b.test a = true ↔ b.Contains a := by
  obtain ⟨k, hk⟩ := h
  have hpos : 0 < b.size := Nat.two_pow_pos _
  simp only [test, Contains, Bool.and_eq_true, decide_eq_true_eq, beq_iff_eq, Nat.shiftRight_eq_div_pow]
  rw [← size, hk, Nat.mul_div_cancel_left k hpos, Nat.div_eq_iff hpos]
  constructor
  · rintro ⟨hfamily, hlow, hhigh⟩
    refine ⟨hfamily, ?_, ?_⟩
    · rwa [Nat.mul_comm] at hlow
    · rw [Nat.mul_comm]
      omega
  · rintro ⟨hfamily, hlow, hhigh⟩
    refine ⟨hfamily, ?_, ?_⟩
    · rwa [Nat.mul_comm]
    · rw [Nat.mul_comm] at hhigh
      omega

end Block

/-- The IPv4 block of an address. -/
def block4 (q : Quad) (bits : ℕ) : Block := ⟨⟨.v4, q.value⟩, bits⟩

/-- The IPv6 block of eight groups. -/
def block6 (groups : List ℕ) (bits : ℕ) : Block := ⟨⟨.v6, addressOf groups⟩, bits⟩

/-- The blocks of special purpose. -/
def specialBlocks : List Block :=
  [block4 ⟨0, 0, 0, 0⟩ 8, block4 ⟨10, 0, 0, 0⟩ 8, block4 ⟨100, 64, 0, 0⟩ 10, block4 ⟨127, 0, 0, 0⟩ 8,
    block4 ⟨169, 254, 0, 0⟩ 16, block4 ⟨172, 16, 0, 0⟩ 12, block4 ⟨192, 0, 0, 0⟩ 24,
    block4 ⟨192, 0, 2, 0⟩ 24, block4 ⟨192, 31, 196, 0⟩ 24, block4 ⟨192, 52, 193, 0⟩ 24,
    block4 ⟨192, 88, 99, 0⟩ 24, block4 ⟨192, 168, 0, 0⟩ 16, block4 ⟨192, 175, 48, 0⟩ 24,
    block4 ⟨198, 18, 0, 0⟩ 15, block4 ⟨198, 51, 100, 0⟩ 24, block4 ⟨203, 0, 113, 0⟩ 24,
    block4 ⟨224, 0, 0, 0⟩ 4, block4 ⟨240, 0, 0, 0⟩ 4, block6 [0x2001, 0, 0, 0, 0, 0, 0, 0] 23,
    block6 [0x2001, 0xdb8, 0, 0, 0, 0, 0, 0] 32, block6 [0x2002, 0, 0, 0, 0, 0, 0, 0] 16,
    block6 [0x2620, 0x4f, 0x8000, 0, 0, 0, 0, 0] 48, block6 [0x3fff, 0, 0, 0, 0, 0, 0, 0] 20]

/-- Global unicast, the only open part of IPv6. -/
def globalUnicast : Block := block6 [0x2000, 0, 0, 0, 0, 0, 0, 0] 3

/-- The block that an exception opens. -/
def exceptionBlock : DirectoryAddressException → Block
  | .pcpAnycastV4 => block4 ⟨192, 0, 0, 9⟩ 32
  | .turnAnycastV4 => block4 ⟨192, 0, 0, 10⟩ 32
  | .as112V4 => block4 ⟨192, 31, 196, 0⟩ 24
  | .amtV4 => block4 ⟨192, 52, 193, 0⟩ 24
  | .as112DirectV4 => block4 ⟨192, 175, 48, 0⟩ 24
  | .pcpAnycastV6 => block6 [0x2001, 1, 0, 0, 0, 0, 0, 1] 128
  | .turnAnycastV6 => block6 [0x2001, 1, 0, 0, 0, 0, 0, 2] 128
  | .dnssdAnycastV6 => block6 [0x2001, 1, 0, 0, 0, 0, 0, 3] 128
  | .amtV6 => block6 [0x2001, 3, 0, 0, 0, 0, 0, 0] 32
  | .as112V6 => block6 [0x2001, 4, 0x112, 0, 0, 0, 0, 0] 48
  | .orchidV2 => block6 [0x2001, 0x20, 0, 0, 0, 0, 0, 0] 28
  | .detV6 => block6 [0x2001, 0x30, 0, 0, 0, 0, 0, 0] 28
  | .as112DirectV6 => block6 [0x2620, 0x4f, 0x8000, 0, 0, 0, 0, 0] 48

theorem aligned_specialBlocks : ∀ b ∈ specialBlocks, b.Aligned := by decide +kernel

theorem aligned_globalUnicast : globalUnicast.Aligned := by decide +kernel

theorem aligned_exceptionBlock (id : DirectoryAddressException) : (exceptionBlock id).Aligned := by
  cases id <;> decide +kernel

/-! ## The tables of the source -/

/-- The block that a text and its bits write. -/
def Writes (range : Text × ℕ) (b : Block) : Prop := Spells b.network range.1 ∧ b.bits = range.2

/-- The spelling of groups around a double colon. -/
def around (left right : List (Fin 65536)) (h : left.length + right.length ≤ 7) : Spelling :=
  .compressed (left.map fun (n : Fin 65536) => groupOf n.val n.isLt)
    (right.map fun (n : Fin 65536) => groupOf n.val n.isLt) none (by simpa [groupValues] using h)

theorem writes_quad {q : Quad} {t : Text} {bits : ℕ} (h : t = q.text) : Writes (t, bits) (block4 q bits) :=
  ⟨⟨q, h, rfl⟩, rfl⟩

theorem writes_around {left right : List (Fin 65536)} (h : left.length + right.length ≤ 7) {t : Text}
    {groups : List ℕ} {bits : ℕ} (ht : t = (around left right h).text)
    (hgroups : groups = (around left right h).groups) : Writes (t, bits) (block6 groups bits) := by
  refine ⟨⟨around left right h, ht, ?_⟩, rfl⟩
  rw [hgroups]
  rfl

theorem excludedRanges_specialBlocks : List.Forall₂ Writes excludedRanges specialBlocks := by
  unfold excludedRanges specialBlocks
  repeat' apply List.Forall₂.cons
  any_goals exact List.Forall₂.nil
  any_goals exact writes_quad (by decide +kernel)
  -- what is left are the IPv6 blocks, in the order of the table
  · exact @writes_around [0x2001] [] (by decide) _ _ _ (by decide +kernel) rfl
  · exact @writes_around [0x2001, 0xdb8] [] (by decide) _ _ _ (by decide +kernel) rfl
  · exact @writes_around [0x2002] [] (by decide) _ _ _ (by decide +kernel) rfl
  · exact @writes_around [0x2620, 0x4f, 0x8000] [] (by decide) _ _ _ (by decide +kernel) rfl
  · exact @writes_around [0x3fff] [] (by decide) _ _ _ (by decide +kernel) rfl

theorem range_exceptionBlock (id : DirectoryAddressException) : Writes id.range (exceptionBlock id) := by
  cases id
  case pcpAnycastV6 =>
    exact @writes_around [0x2001, 1] [1] (by decide) _ _ _ (by decide +kernel) rfl
  case turnAnycastV6 =>
    exact @writes_around [0x2001, 1] [2] (by decide) _ _ _ (by decide +kernel) rfl
  case dnssdAnycastV6 =>
    exact @writes_around [0x2001, 1] [3] (by decide) _ _ _ (by decide +kernel) rfl
  case amtV6 =>
    exact @writes_around [0x2001, 3] [] (by decide) _ _ _ (by decide +kernel) rfl
  case as112V6 =>
    exact @writes_around [0x2001, 4, 0x112] [] (by decide) _ _ _ (by decide +kernel) rfl
  case orchidV2 =>
    exact @writes_around [0x2001, 0x20] [] (by decide) _ _ _ (by decide +kernel) rfl
  case detV6 =>
    exact @writes_around [0x2001, 0x30] [] (by decide) _ _ _ (by decide +kernel) rfl
  case as112DirectV6 =>
    exact @writes_around [0x2620, 0x4f, 0x8000] [] (by decide) _ _ _ (by decide +kernel) rfl
  all_goals exact writes_quad (by decide +kernel)

/-- The tables, as blocks. -/
def blockRanges : AddressRanges where
  excluded := specialBlocks.map Block.test
  globalV6Envelope := globalUnicast.test
  exceptionPrefixes := DirectoryAddressException.all.map fun id => (id, (exceptionBlock id).test)

section Tables

variable {isIP : Text → ℕ} (hip : IsIP isIP)

include hip

theorem addressPrefix_of_writes {range : Text × ℕ} {b : Block} (h : Writes range b) :
    addressPrefix isIP range.1 range.2 = some b.test := by
  obtain ⟨hspells, hbits⟩ := h
  rw [addressPrefix, (parseAddress_eq_some hip).mpr hspells, ← hbits]
  rfl

theorem mapM_addressPrefix {ranges : List (Text × ℕ)} {blocks : List Block}
    (h : List.Forall₂ Writes ranges blocks) :
    (ranges.mapM fun range => addressPrefix isIP range.1 range.2) = some (blocks.map Block.test) := by
  induction h with
  | nil => rfl
  | cons hwrites _ ih =>
    rw [List.mapM_cons, addressPrefix_of_writes hip hwrites, ih]
    rfl

theorem mapM_exceptions (ids : List DirectoryAddressException) :
    (ids.mapM fun id => do
      let contains ← addressPrefix isIP id.range.1 id.range.2
      return (id, contains)) = some (ids.map fun id => (id, (exceptionBlock id).test)) := by
  induction ids with
  | nil => rfl
  | cons id ids ih =>
    rw [List.mapM_cons, addressPrefix_of_writes hip (range_exceptionBlock id), ih]
    rfl

/-- The module loads, and its tables are the blocks. -/
theorem addressRanges_eq : addressRanges isIP = some blockRanges := by
  have hglobal : Writes (ascii "2000::", 3) globalUnicast :=
    @writes_around [0x2000] [] (by decide) _ _ _ (by decide +kernel) rfl
  rw [addressRanges, mapM_addressPrefix hip excludedRanges_specialBlocks,
    addressPrefix_of_writes hip hglobal, mapM_exceptions hip]
  rfl

end Tables

/-! ## What a policy permits -/

/-- The policy of some exceptions: an address is in the block of an exception, or it is in no block
of special purpose and, if it is an IPv6 address, in global unicast. -/
def Permitted (exceptions : List DirectoryAddressException) (a : Address) : Prop :=
  (∃ id ∈ exceptions, (exceptionBlock id).Contains a) ∨
    ((∀ b ∈ specialBlocks, ¬ b.Contains a) ∧ (a.family = .v6 → globalUnicast.Contains a))

theorem admitted_iff (a : Address) : admitted blockRanges a = true ↔
    (∀ b ∈ specialBlocks, ¬ b.Contains a) ∧ (a.family = .v6 → globalUnicast.Contains a) := by
  have hspecial : (blockRanges.excluded.any fun contains => contains a) = false ↔
      ∀ b ∈ specialBlocks, ¬ b.Contains a := by
    rw [List.any_eq_false]
    simp only [blockRanges, List.forall_mem_map]
    exact forall₂_congr fun b hb => not_congr (Block.test_iff (aligned_specialBlocks b hb) a)
  have hglobal : globalUnicast.test a = true ↔ globalUnicast.Contains a :=
    Block.test_iff aligned_globalUnicast a
  rw [admitted, Bool.and_eq_true, Bool.not_eq_true', hspecial, and_comm]
  refine and_congr_right fun _ => ?_
  rw [show blockRanges.globalV6Envelope a = globalUnicast.test a from rfl]
  cases hfamily : a.family <;> simp [hglobal]

theorem lookup_exceptionPrefixes (id : DirectoryAddressException) :
    OrderedMap.lookup blockRanges.exceptionPrefixes id = some (exceptionBlock id).test := by
  cases id <;> rfl

/-- The decision of the code on addresses is the policy. -/
theorem allowed_iff (exceptions : List DirectoryAddressException) (a : Address) :
    (admitted blockRanges a ||
      (exceptions.filterMap fun id => OrderedMap.lookup blockRanges.exceptionPrefixes id).any
        fun contains => contains a) = true ↔ Permitted exceptions a := by
  have hany : ((exceptions.filterMap fun id => OrderedMap.lookup blockRanges.exceptionPrefixes id).any
      fun contains => contains a) = true ↔ ∃ id ∈ exceptions, (exceptionBlock id).Contains a := by
    simp only [lookup_exceptionPrefixes, List.filterMap_eq_map', List.any_map, List.any_eq_true,
      Function.comp_apply]
    exact exists_congr fun id => and_congr_right fun _ => Block.test_iff (aligned_exceptionBlock id) a
  rw [Bool.or_eq_true, admitted_iff, hany, or_comm]
  rfl

/-! ## Embedded IPv4 addresses -/

/-- The IPv6 address `n` is a form of the IPv4 address `v`: mapped, compatible, translated under one
of the two prefixes of NAT64, or routed to it by 6to4. -/
inductive EmbedsV4 (v : ℕ) : ℕ → Prop
  | mapped : EmbedsV4 v (0xffff * 2 ^ 32 + v)
  | compatible : EmbedsV4 v v
  | nat64 : EmbedsV4 v (0x64ff9b * 2 ^ 96 + v)
  /-- The prefix for local translation, whatever stands after it. -/
  | localNat64 (rest : ℕ) (h : rest < 2 ^ 80) : EmbedsV4 v (0x64ff9b0001 * 2 ^ 80 + rest)
  | sixToFour (rest : ℕ) (h : rest < 2 ^ 80) : EmbedsV4 v (0x2002 * 2 ^ 112 + v * 2 ^ 80 + rest)

/-- A form of an IPv4 address is below global unicast or in the block of 6to4. -/
theorem EmbedsV4.bounds {v n : ℕ} (hv : v < 2 ^ 32) (h : EmbedsV4 v n) :
    n < 0x2000 * 2 ^ 112 ∨ (0x2002 * 2 ^ 112 ≤ n ∧ n < 0x2003 * 2 ^ 112) := by
  cases h with
  | mapped => omega
  | compatible => omega
  | nat64 => omega
  | localNat64 rest h => omega
  | sixToFour rest h => omega

theorem bounds_of_exceptionBlock {id : DirectoryAddressException} {n : ℕ}
    (h : (exceptionBlock id).Contains ⟨.v6, n⟩) :
    (0x2001 * 2 ^ 112 ≤ n ∧ n < 0x2002 * 2 ^ 112) ∨ 0x2620 * 2 ^ 112 ≤ n := by
  cases id <;>
    simp [exceptionBlock, Block.Contains, Block.size, block4, block6, addressOf, Family.width] at h <;>
    omega

/-- No exception opens a form of an IPv4 address. -/
theorem not_permitted_of_embedsV4 {v n : ℕ} (hv : v < 2 ^ 32) (h : EmbedsV4 v n)
    (exceptions : List DirectoryAddressException) : ¬ Permitted exceptions ⟨.v6, n⟩ := by
  have hbounds := h.bounds hv
  rintro (⟨id, -, hid⟩ | ⟨hspecial, hglobal⟩)
  · have hblock := bounds_of_exceptionBlock hid
    omega
  · have h6to4 := hspecial (block6 [0x2002, 0, 0, 0, 0, 0, 0, 0] 16) (by simp [specialBlocks])
    have hopen := hglobal rfl
    simp [globalUnicast, Block.Contains, Block.size, block6, addressOf, Family.width] at h6to4 hopen
    omega

/-! ## Choices of exceptions -/

theorem exceptionNamed_eq_some {name : Text} {id : DirectoryAddressException} :
    exceptionNamed name = some id ↔ name = id.name := by
  constructor
  · intro h
    rw [exceptionNamed] at h
    have hfound := List.find?_some h
    exact (of_decide_eq_true hfound).symm
  · rintro rfl
    cases id <;> decide +kernel

/-- The element that selects an exception. -/
def slotOf (id : DirectoryAddressException) : ExceptionSlot := .value (some id.name)

theorem selectException_eq_ok {selected selected' : List DirectoryAddressException}
    {slot : ExceptionSlot} : selectException selected slot = .ok selected' ↔
      ∃ id, slot = slotOf id ∧ id ∉ selected ∧ selected' = selected ++ [id] := by
  unfold selectException slotOf
  split
  · rename_i name
    cases hname : exceptionNamed name with
    | none =>
      simp only [throw_eq_ok, false_iff, not_exists, not_and]
      intro id hslot
      obtain rfl := Option.some.inj (ExceptionSlot.value.inj hslot)
      rw [exceptionNamed_eq_some.mpr rfl] at hname
      cases hname
    | some id =>
      obtain rfl := exceptionNamed_eq_some.mp hname
      simp only [ite_throw_eq_ok, pure_eq_ok]
      constructor
      · rintro ⟨hnew, rfl⟩
        exact ⟨id, rfl, hnew, rfl⟩
      · rintro ⟨id', hslot, hnew, rfl⟩
        have hid := exceptionNamed_eq_some.mpr (Option.some.inj (ExceptionSlot.value.inj hslot))
        obtain rfl := Option.some.inj (hname.symm.trans hid)
        exact ⟨hnew, rfl⟩
  · rename_i hslot
    simp only [throw_eq_ok, false_iff, not_exists, not_and]
    intro id hid
    exact absurd hid (hslot _)

/-- The loop returns exactly on names of different exceptions. -/
theorem foldlM_selectException {slots : List ExceptionSlot}
    {selected selected' : List DirectoryAddressException} (h : selected.Nodup) :
    slots.foldlM selectException selected = .ok selected' ↔
      ∃ ids, slots = ids.map slotOf ∧ selected' = selected ++ ids ∧ selected'.Nodup := by
  induction slots generalizing selected with
  | nil =>
    rw [List.foldlM_nil, pure_eq_ok]
    constructor
    · rintro rfl
      exact ⟨[], rfl, by simp, h⟩
    · rintro ⟨ids, hids, rfl, -⟩
      simp [List.map_eq_nil_iff.mp hids.symm]
  | cons slot slots ih =>
    rw [List.foldlM_cons, bind_eq_ok]
    constructor
    · rintro ⟨_, hslot, hrest⟩
      obtain ⟨id, rfl, hnew, rfl⟩ := selectException_eq_ok.mp hslot
      have hnodup : (selected ++ [id]).Nodup :=
        h.append (List.nodup_singleton id) (List.disjoint_singleton.mpr hnew)
      obtain ⟨ids, rfl, rfl, hall⟩ := (ih hnodup).mp hrest
      exact ⟨id :: ids, rfl, by simp, hall⟩
    · rintro ⟨ids, hids, rfl, hall⟩
      cases ids with
      | nil => cases hids
      | cons id ids =>
        obtain ⟨rfl, rfl⟩ := List.cons.inj hids
        rw [List.append_cons] at hall
        have hnodup : (selected ++ [id]).Nodup := hall.sublist (List.sublist_append_left _ _)
        have hnew : id ∉ selected := fun hmem =>
          (List.nodup_append.mp hnodup).2.2 id hmem id (List.mem_singleton_self id) rfl
        exact ⟨_, selectException_eq_ok.mpr ⟨id, rfl, hnew, rfl⟩,
          (ih hnodup).mpr ⟨ids, rfl, List.append_cons .., by rwa [List.append_cons]⟩⟩

theorem DirectoryAddressException.mem_all (id : DirectoryAddressException) : id ∈ all := by
  cases id <;> decide

/-- The lists that make a policy are the names of different exceptions. -/
theorem createDirectoryAddressPolicy_eq_ok {isIP : Text → ℕ} {ranges : AddressRanges}
    {slots : List ExceptionSlot} {policy : DirectoryAddressPolicy} :
    createDirectoryAddressPolicy isIP ranges (some slots) = .ok policy ↔
      ∃ ids, ids.Nodup ∧ slots = ids.map slotOf ∧ policy = frozenPolicy isIP ranges ids := by
  simp only [createDirectoryAddressPolicy, bind_eq_ok, require_eq_ok, pure_eq_ok,
    foldlM_selectException List.nodup_nil, List.nil_append]
  constructor
  · rintro ⟨-, -, ids, ⟨_, rfl, rfl, hnodup⟩, rfl⟩
    exact ⟨ids, hnodup, rfl, rfl⟩
  · rintro ⟨ids, hnodup, rfl, rfl⟩
    have hle : ids.length ≤ DirectoryAddressException.all.length :=
      (List.Nodup.subperm hnodup fun id _ => id.mem_all).length_le
    exact ⟨(), by simpa using hle, ids, ⟨ids, rfl, rfl, hnodup⟩, rfl⟩

/-! ## Admission and spelling -/

/-- The `k` groups of a number, most significant first. -/
def groupsOf : ℕ → ℕ → List (Fin 65536)
  | 0, _ => []
  | k + 1, n => groupsOf k (n / 65536) ++ [Fin.ofNat 65536 n]

theorem addressOf_groupsOf {k n : ℕ} (h : n < 65536 ^ k) :
    (groupsOf k n).length = k ∧ addressOf ((groupsOf k n).map (·.val)) = n := by
  induction k generalizing n with
  | zero =>
    obtain rfl : n = 0 := by omega
    exact ⟨rfl, rfl⟩
  | succ k ih =>
    rw [Nat.pow_succ] at h
    obtain ⟨hlength, hvalue⟩ := @ih (n / 65536) (Nat.div_lt_of_lt_mul (by omega))
    constructor
    · simp [groupsOf, hlength]
    · simp only [addressOf] at hvalue
      simp only [groupsOf, addressOf, List.map_append, List.foldl_append, hvalue, List.map_cons,
        List.map_nil, List.foldl_cons, List.foldl_nil, Fin.val_ofNat]
      omega

/-- The addresses that have a text are those of 32 and of 128 bits. -/
theorem exists_spells {a : Address} : (∃ t, Spells a t) ↔ a.value < 2 ^ a.family.width := by
  obtain ⟨family, value⟩ := a
  cases family with
  | v4 =>
    constructor
    · rintro ⟨_, q, -, rfl⟩
      exact q.value_lt
    · intro h
      simp only [Family.width] at h
      refine ⟨_, ⟨.ofNat (value / 2 ^ 24), .ofNat (value / 2 ^ 16), .ofNat (value / 2 ^ 8),
        .ofNat value⟩, rfl, ?_⟩
      simp only [Quad.value, UInt8.toNat_ofNat']
      omega
  | v6 =>
    constructor
    · rintro ⟨_, s, -, rfl⟩
      exact s.value_lt
    · intro h
      obtain ⟨hlength, hvalue⟩ := @addressOf_groupsOf 8 value h
      refine ⟨_, .full ((groupsOf 8 value).map fun (n : Fin 65536) => groupOf n.val n.isLt) none
        (by simpa [groupValues] using hlength), rfl, ?_⟩
      rw [Spelling.value, Spelling.groups]
      simpa [groupValues, groupOf, HexGroup.value, readHex_hexText, Function.comp_def] using hvalue.symm

/-- The form of a mapped address, read bit by bit. -/
theorem mapped_iff {v n : ℕ} (hv : v < 2 ^ 32) :
    (n >>> 32 = 0xffff ∧ n &&& 0xffffffff = v) ↔ n = 0xffff * 2 ^ 32 + v := by
  have hmask : n &&& 0xffffffff = n % 2 ^ 32 := Nat.and_two_pow_sub_one_eq_mod n 32
  rw [hmask, Nat.shiftRight_eq_div_pow]
  omega

/-- A peer is the pinned address or, of an IPv4 pin, its mapped form. -/
def SamePeer (pin peer : Address) : Prop :=
  peer = pin ∨ (pin.family = .v4 ∧ peer = ⟨.v6, 0xffff * 2 ^ 32 + pin.value⟩)

theorem samePeer_iff {pin peer : Address} (h : pin.value < 2 ^ pin.family.width) :
    (if pin.family = peer.family then pin.value == peer.value
      else pin.family = .v4 && peer.family = .v6 && peer.value >>> 32 == 0xffff &&
        peer.value &&& 0xffffffff == pin.value) = true ↔ SamePeer pin peer := by
  by_cases hfamily : pin.family = peer.family
  · rw [if_pos hfamily, beq_iff_eq]
    constructor
    · intro hvalue
      exact .inl (Address.ext hfamily.symm hvalue.symm)
    · rintro (rfl | ⟨hpin, rfl⟩)
      · rfl
      · rw [hpin] at hfamily
        cases hfamily
  · rw [if_neg hfamily]
    simp only [Bool.and_eq_true, decide_eq_true_eq, beq_iff_eq, and_assoc]
    constructor
    · rintro ⟨hpin, hpeer, hbits⟩
      rw [hpin] at h
      exact .inr ⟨hpin, Address.ext hpeer ((mapped_iff h).mp hbits)⟩
    · rintro (rfl | ⟨hpin, rfl⟩)
      · exact absurd rfl hfamily
      · rw [hpin] at h
        exact ⟨hpin, rfl, (mapped_iff h).mpr rfl⟩

theorem guard_iff {allowed same : Bool} :
    (if !allowed then false else same) = true ↔ allowed = true ∧ same = true := by
  cases allowed <;> simp

section Policy

variable {isIP : Text → ℕ} (hip : IsIP isIP)

include hip

theorem allows_frozenPolicy (exceptions : List DirectoryAddressException) (t : Text) :
    (frozenPolicy isIP blockRanges exceptions).allows (some t) = true ↔
      ∃ a, Spells a t ∧ Permitted exceptions a := by
  simp only [← parseAddress_eq_some hip, ← allowed_iff, frozenPolicy]
  cases parseAddress isIP (some t) with
  | none => simp
  | some a => simp

theorem matchesPeer_frozenPolicy (exceptions : List DirectoryAddressException) (pinned peer : Text) :
    (frozenPolicy isIP blockRanges exceptions).matchesPeer (some pinned) (some peer) = true ↔
      ∃ a b, Spells a pinned ∧ Spells b peer ∧ Permitted exceptions a ∧ SamePeer a b := by
  have hbound (a : Address) (ha : Spells a pinned) : a.value < 2 ^ a.family.width :=
    exists_spells.mp ⟨pinned, ha⟩
  simp only [← parseAddress_eq_some hip, ← allowed_iff] at hbound ⊢
  simp only [frozenPolicy]
  cases hpinned : parseAddress isIP (some pinned) with
  | none => simp
  | some a =>
    cases parseAddress isIP (some peer) with
    | none => simp
    | some b =>
      have hsame := @samePeer_iff a b (hbound a hpinned)
      simp only [Option.some.injEq, exists_eq_left', exists_and_left, ← hsame]
      exact guard_iff

theorem spells_unique {a b : Address} {t : Text} (ha : Spells a t) (hb : Spells b t) : a = b :=
  Option.some.inj (((parseAddress_eq_some hip).mpr ha).symm.trans ((parseAddress_eq_some hip).mpr hb))

/-- **Admission does not depend on spelling.** A text is read as the address that it spells, if it
spells one, and the policies of the module decide on that address. -/
theorem allows_iff_permitted :
    (∀ t a, parseAddress isIP (some t) = some a ↔ Spells a t) ∧
    (∀ a, (∃ t, Spells a t) ↔ a.value < 2 ^ a.family.width) ∧
    ∃ ranges, addressRanges isIP = some ranges ∧
      (∀ ids : List DirectoryAddressException, ids.Nodup →
        ∃ policy, createDirectoryAddressPolicy isIP ranges (some (ids.map slotOf)) = .ok policy) ∧
      ∀ slots policy, createDirectoryAddressPolicy isIP ranges (some slots) = .ok policy →
        slots = policy.exceptions.map slotOf ∧
        (∀ t, policy.allows (some t) = true ↔ ∃ a, Spells a t ∧ Permitted policy.exceptions a) ∧
        (∀ a t t', Spells a t → Spells a t' → policy.allows (some t) = policy.allows (some t')) ∧
        (∀ v n t, v < 2 ^ 32 → EmbedsV4 v n → Spells ⟨.v6, n⟩ t → policy.allows (some t) = false) ∧
        (∀ pinned peer, policy.matchesPeer (some pinned) (some peer) = true ↔
          ∃ a b, Spells a pinned ∧ Spells b peer ∧ Permitted policy.exceptions a ∧ SamePeer a b) := by
  refine ⟨fun t a => parseAddress_eq_some hip, fun a => exists_spells, blockRanges,
    addressRanges_eq hip, ?_, ?_⟩
  · intro ids hnodup
    exact ⟨_, createDirectoryAddressPolicy_eq_ok.mpr ⟨ids, hnodup, rfl, rfl⟩⟩
  · intro slots policy h
    obtain ⟨ids, -, rfl, rfl⟩ := createDirectoryAddressPolicy_eq_ok.mp h
    have hallows := allows_frozenPolicy hip ids
    refine ⟨rfl, hallows, ?_, ?_, matchesPeer_frozenPolicy hip ids⟩
    · intro a t t' ht ht'
      have hread : parseAddress isIP (some t) = parseAddress isIP (some t') :=
        ((parseAddress_eq_some hip).mpr ht).trans ((parseAddress_eq_some hip).mpr ht').symm
      simp only [frozenPolicy, hread]
    · intro v n t hv hembeds ht
      rw [Bool.eq_false_iff]
      intro hallowed
      obtain ⟨a, ha, hpermitted⟩ := (hallows t).mp hallowed
      obtain rfl := spells_unique hip ha ht
      exact not_permitted_of_embedsV4 hv hembeds ids hpermitted

end Policy

/-! ## An `isIP` -/

section StrictIsIP

open Classical

/-- The `isIP` that accepts the texts of addresses, without zones. -/
noncomputable def strictIsIP (t : Text) : ℕ :=
  if ∃ q : Quad, t = q.text then 4 else if ∃ s : Spelling, t = s.text then 6 else 0

theorem isIP_strictIsIP : IsIP strictIsIP := by
  constructor
  · intro t
    unfold strictIsIP
    split
    · simp_all
    · split <;> simp_all
  · intro t _
    unfold strictIsIP
    split
    · rename_i h
      obtain ⟨q, rfl⟩ := h
      simp only [Nat.reduceEqDiff, false_iff, not_exists]
      intro s hs
      exact (addressUnit_of_mem_quad (hs ▸ colon_mem_text s)).2 rfl
    · split <;> simp_all

end StrictIsIP

/-- Without exceptions, an open address is admitted and a mapped loopback address is not. -/
theorem allows_iff_permitted_strictIsIP : ∃ ranges policy, addressRanges strictIsIP = some ranges ∧
    createDirectoryAddressPolicy strictIsIP ranges (some []) = .ok policy ∧
    policy.allows (some (ascii "8.8.8.8")) = true ∧
    policy.allows (some (ascii "0::fFfF:127.0.0.1")) = false := by
  obtain ⟨-, -, ranges, hranges, hcreate, hpolicy⟩ := allows_iff_permitted isIP_strictIsIP
  obtain ⟨policy, hcreated⟩ := hcreate [] List.nodup_nil
  obtain ⟨hslots, hallows, -, hembedded, -⟩ := hpolicy _ _ hcreated
  have hnone : policy.exceptions = [] := List.map_eq_nil_iff.mp hslots.symm
  refine ⟨ranges, policy, hranges, hcreated, (hallows _).mpr ?_, ?_⟩
  · refine ⟨⟨.v4, Quad.value ⟨8, 8, 8, 8⟩⟩, ⟨⟨8, 8, 8, 8⟩, by decide +kernel, rfl⟩, .inr ⟨?_, ?_⟩⟩
    · decide +kernel
    · intro h
      cases h
  · let zero : HexGroup := ⟨ascii "0", by decide, by decide, by decide⟩
    let ones : HexGroup := ⟨ascii "fFfF", by decide, by decide, by decide⟩
    refine hembedded 0x7f000001 _ _ (by decide) .mapped
      ⟨.compressed [zero] [ones] (some ⟨127, 0, 0, 1⟩) (by decide +kernel), ?_, ?_⟩
    · decide +kernel
    · decide +kernel

end AgentSig.Discovery
