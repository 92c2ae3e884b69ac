import AgentSig.Redis.Script
import Mathlib.Algebra.Order.BigOperators.Group.List

/-!
# The length of an encoded state

The texts that the script writes hold digits and symbols that no encoder escapes, so the length of
an encoded state is the length of its texts and of the punctuation around them.

## Main results

* `length_encode_record`: the length of a record
* `length_encode_le`: a bound on the length of a state
-/

namespace AgentSig.Redis

open Commons Core Profiles StructuredFields

theorem plain_of_base64UrlChar {t : Text} (h : t.all base64UrlChar) : Json.Plain t := by
  intro c hc
  have hc := List.all_eq_true.mp h c hc
  rcases Json.escapeUnit_cases c with hlow | rfl | rfl | ⟨hplain, -, -⟩
  · obtain ⟨n, hn, rfl⟩ : ∃ n, n < 32 ∧ c = UInt16.ofNat n := ⟨c.toNat, hlow, by simp⟩
    interval_cases n <;> exact absurd hc (by decide)
  · exact absurd hc (by decide)
  · exact absurd hc (by decide)
  · exact hplain

theorem plain_of_lowerHex {t : Text} (h : t.all Rfc9651.lowerHex) : Json.Plain t := by
  intro c hc
  have hc := List.all_eq_true.mp h c hc
  rcases Json.escapeUnit_cases c with hlow | rfl | rfl | ⟨hplain, -, -⟩
  · obtain ⟨n, hn, rfl⟩ : ∃ n, n < 32 ∧ c = UInt16.ofNat n := ⟨c.toNat, hlow, by simp⟩
    interval_cases n <;> exact absurd hc (by decide)
  · exact absurd hc (by decide)
  · exact absurd hc (by decide)
  · exact hplain

theorem plain_decimal (n : ℕ) : Json.Plain (decimal n) := by
  refine plain_of_lowerHex (List.all_eq_true.mpr fun c hc => ?_)
  have hbounds := bounds_of_mem_decimal hc
  simp [Rfc9651.lowerHex, Rfc9651.DIGIT, hbounds]

theorem length_commaSeparated_le (texts : List Text) :
    (commaSeparated texts).length ≤ (texts.map (·.length + 1)).sum := by
  induction texts with
  | nil => simp [commaSeparated]
  | cons t texts ih =>
    cases texts with
    | nil => simp [commaSeparated]
    | cons t' texts =>
      simp only [commaSeparated, List.intercalate_cons_cons, List.length_append, List.length_singleton,
        List.map_cons, List.sum_cons] at ih ⊢
      omega

theorem length_encodeString {name : String} {value : Text} (hname : Json.Plain (ascii name))
    (hvalue : Json.Plain value) :
    (encodeString name value).length = (ascii name).length + value.length + 5 := by
  simp only [encodeString, encodeField, List.length_append, List.length_cons,
    Json.length_quote_of_plain hname, Json.length_quote_of_plain hvalue]
  omega

/-- The length of a record. -/
theorem length_encode_record {r : ReplayRecord} (hidentity : Json.Plain r.identity)
    (hthumbprint : Json.Plain r.thumbprint) (hdeadline : Json.Plain r.deadline) :
    r.encode.length ≤ r.identity.length + r.thumbprint.length + r.deadline.length + 46 := by
  have hfields := length_commaSeparated_le [encodeString "identity" r.identity,
    encodeString "thumbprint" r.thumbprint, encodeString "deadline" r.deadline]
  have hnames : Json.Plain (ascii "identity") ∧ Json.Plain (ascii "thumbprint") ∧
      Json.Plain (ascii "deadline") := by decide
  simp only [List.map_cons, List.map_nil, List.sum_cons, List.sum_nil,
    length_encodeString hnames.1 hidentity, length_encodeString hnames.2.1 hthumbprint,
    length_encodeString hnames.2.2 hdeadline] at hfields
  have hlengths : (ascii "identity").length = 8 ∧ (ascii "thumbprint").length = 10 ∧
      (ascii "deadline").length = 8 := by decide
  simp only [hlengths] at hfields
  simp only [ReplayRecord.encode, List.cons_append, List.length_cons, List.length_append,
    List.length_nil]
  omega

theorem length_encodeRecords_le {records : List ReplayRecord} {k : ℕ}
    (h : ∀ r ∈ records, r.encode.length ≤ k) :
    (encodeRecords records).length ≤ (k + 1) * records.length + 2 := by
  cases records with
  | nil => simp [encodeRecords]
  | cons r records =>
    have hsum := length_commaSeparated_le ((r :: records).map ReplayRecord.encode)
    have hbound : (((r :: records).map ReplayRecord.encode).map (·.length + 1)).sum ≤
        ((r :: records).length) • (k + 1) := by
      rw [← List.length_map (f := ReplayRecord.encode), ← List.length_map (f := (·.length + 1))]
      refine List.sum_le_card_nsmul _ _ fun x hx => ?_
      obtain ⟨text, htext, rfl⟩ := List.mem_map.mp hx
      obtain ⟨r', hr', rfl⟩ := List.mem_map.mp htext
      exact Nat.succ_le_succ (h r' hr')
    rw [Nat.nsmul_eq_mul, Nat.mul_comm] at hbound
    simp only [encodeRecords, List.cons_append, List.length_cons, List.length_append,
      List.length_nil] at hsum hbound ⊢
    omega

/-- A bound on the length of a state, whose header holds plain texts of at most 32 units. -/
theorem length_encode_le {s : ReplayState} {k : ℕ}
    (hheader : ∀ t ∈ [s.version, s.epoch, s.quarantineUntil, s.detectedAt, s.lastTime, s.horizon,
      s.capacity, s.quota], Json.Plain t ∧ t.length ≤ 32)
    (hrecords : ∀ r ∈ s.records, r.encode.length ≤ k) :
    s.encode.length ≤ (k + 1) * s.records.length + 512 := by
  have hfield : ∀ name ∈ ["version", "epoch", "quarantineUntil", "detectedAt", "lastTime", "horizon",
      "capacity", "quota"], ∀ t, Json.Plain t ∧ t.length ≤ 32 →
        (encodeString name t).length ≤ 52 := by
    intro name hname t ht
    have hnames : ∀ name ∈ ["version", "epoch", "quarantineUntil", "detectedAt", "lastTime",
        "horizon", "capacity", "quota"], Json.Plain (ascii name) ∧ (ascii name).length ≤ 15 := by
      decide
    obtain ⟨hplain, hlength⟩ := hnames name hname
    rw [length_encodeString hplain ht.1]
    have := ht.2
    omega
  have htable : (encodeField "records" (encodeRecords s.records)).length =
      (encodeRecords s.records).length + 10 := by
    simp only [encodeField, List.length_append, List.length_cons,
      Json.length_quote_of_plain (t := ascii "records") (by decide)]
    have : (ascii "records").length = 7 := by decide
    omega
  have hlist := length_encodeRecords_le hrecords
  have hsum := length_commaSeparated_le [encodeString "version" s.version,
    encodeString "epoch" s.epoch, encodeString "quarantineUntil" s.quarantineUntil,
    encodeString "detectedAt" s.detectedAt, encodeString "lastTime" s.lastTime,
    encodeString "horizon" s.horizon, encodeString "capacity" s.capacity,
    encodeString "quota" s.quota, encodeField "records" (encodeRecords s.records)]
  simp only [List.forall_mem_cons] at hheader
  obtain ⟨hversion, hepoch, huntil, hdetected, hlast, hhorizon, hcapacity, hquota, -⟩ := hheader
  have := hfield "version" (by simp) _ hversion
  have := hfield "epoch" (by simp) _ hepoch
  have := hfield "quarantineUntil" (by simp) _ huntil
  have := hfield "detectedAt" (by simp) _ hdetected
  have := hfield "lastTime" (by simp) _ hlast
  have := hfield "horizon" (by simp) _ hhorizon
  have := hfield "capacity" (by simp) _ hcapacity
  have := hfield "quota" (by simp) _ hquota
  simp only [List.map_cons, List.map_nil, List.sum_cons, List.sum_nil, htable] at hsum
  simp only [ReplayState.encode, List.cons_append, List.length_cons, List.length_append,
    List.length_nil]
  omega

end AgentSig.Redis
