import AgentSig.Core.Targets
import AgentSig.Profiles.AgentOrigin

/-!
# Canonical origins

An origin that has been checked passes the check again, so what is stored under it is found again. The URL
parser of the platform has to read back the origins that it has accepted.

## Main definitions

* `OriginPlatform.Consistent`: the parser reads back the origins that it has accepted

## Main results

* `canonicalAgentOrigin_idempotent`: a canonical origin is its own origin
-/

namespace AgentSig.Profiles

open Commons Core StructuredFields

variable {O : OriginPlatform} {value origin host : Text} {maximumBytes : ℤ}

/-- The URL parser reads the origin of a host back, where it has read a URL with that host as an origin. -/
def OriginPlatform.Consistent (O : OriginPlatform) : Prop :=
  ∀ value parsed host, O.url value = some parsed → originAgrees O parsed host →
    ∃ parsed', O.url (ascii "https://" ++ host) = some parsed' ∧ originAgrees O parsed' host

/-- A character of the host of an origin. -/
def hostCharacter (c : UInt16) : Bool :=
  0x21 ≤ c && c ≤ 0x7e && c != 47 && c != 63 && c != 35 && c != 58 && !(ascii "\\@%[]").contains c

theorem hostCharacter_letter (c : UInt16) (h : 97 ≤ c) (h' : c ≤ 122) : hostCharacter c := by
  have hcontains : (ascii "\\@%[]").contains c = false := by
    rw [show ascii "\\@%[]" = [92, 64, 37, 91, 93] by decide]
    simp only [List.contains_cons, List.contains_nil, Bool.or_false, Bool.or_eq_false_iff,
      beq_eq_false_iff_ne, ne_eq, ← UInt16.toNat_inj, UInt16.reduceToNat]
    simp only [UInt16.le_iff_toNat_le, UInt16.reduceToNat] at h h'
    omega
  simp only [hostCharacter, hcontains, Bool.not_false, Bool.and_true, Bool.and_eq_true, bne_iff_ne,
    decide_eq_true_eq, ne_eq, ← UInt16.toNat_inj, UInt16.le_iff_toNat_le, UInt16.reduceToNat] at h h' ⊢
  omega

/-- What the check has found out about the spelling of a URL. -/
structure SpelledOrigin (O : OriginPlatform) (value host : Text) (maximumBytes : ℤ) : Prop where
  limit : 0 ≤ maximumBytes ∧ maximumBytes ≤ maxSafeInteger
  length : (8 + host.length : ℤ) ≤ maximumBytes
  nonempty : host ≠ []
  characters : ∀ c ∈ host, hostCharacter c
  parsed : ∃ parsed, O.url value = some parsed ∧ originAgrees O parsed (toLowerCase host)

theorem authority_of_originAuthority {authority : Text} (h : originAuthority value = some authority) :
    (8 + authority.length ≤ value.length ∧ authority ≠ []) ∧
      ∀ c ∈ authority, c ∈ value ∧ c ≠ 47 ∧ c ≠ 63 ∧ c ≠ 35 := by
  unfold originAuthority at h
  simp only at h
  split at h
  · rename_i hspelled
    obtain ⟨hscheme, hne, -⟩ := hspelled
    obtain rfl := Option.some.inj h
    refine ⟨⟨?_, hne⟩, ?_⟩
    · have height : (value.take 8).length = 8 := by
        have hlength := congrArg List.length hscheme
        rwa [toLowerCase, List.length_map, show (ascii "https://").length = 8 by decide] at hlength
      have hprefix := (List.takeWhile_prefix (fun c => c != 47 && c != 63 && c != 35)
        (l := value.drop 8)).length_le
      rw [List.length_take] at height
      rw [List.length_drop] at hprefix
      omega
    · intro c hc
      have hclass := List.mem_takeWhile_imp hc
      simp only [Bool.and_eq_true, bne_iff_ne, ne_eq] at hclass
      exact ⟨List.mem_of_mem_drop (List.takeWhile_sublist _ |>.subset hc), hclass.1.1, hclass.1.2,
        hclass.2⟩
  · cases h

theorem host_of_hostPort {authority : Text} {port : Option Text}
    (h : hostPort authority = some (host, port)) :
    host ≠ [] ∧ host.length ≤ authority.length ∧ ∀ c ∈ host, c ∈ authority ∧ c ≠ 58 := by
  have hhost : authority.takeWhile (· != 58) = host ∧ host ≠ [] := by
    unfold hostPort at h
    simp only at h
    split at h
    · cases h
    · rename_i hne
      split at h
      · obtain ⟨rfl, -⟩ := Prod.mk.inj (Option.some.inj h)
        exact ⟨rfl, hne⟩
      · split at h
        · obtain ⟨rfl, -⟩ := Prod.mk.inj (Option.some.inj h)
          exact ⟨rfl, hne⟩
        · cases h
  obtain ⟨rfl, hne⟩ := hhost
  refine ⟨hne, (List.takeWhile_prefix _).length_le, ?_⟩
  intro c hc
  exact ⟨(List.takeWhile_sublist _).subset hc, by simpa using List.mem_takeWhile_imp hc⟩

theorem spelledOrigin_of_canonical (h : canonicalAgentOrigin O value maximumBytes = .ok origin) :
    ∃ host, SpelledOrigin O value host maximumBytes ∧ origin = ascii "https://" ++ toLowerCase host := by
  simp only [canonicalAgentOrigin, bind_eq_ok, require_eq_ok, exists_const] at h
  obtain ⟨hlimit, hlength, ⟨-, hprintable⟩, h⟩ := h
  split at h
  · cases h
  rename_i authority hauthority
  simp only [bind_eq_ok, require_eq_ok, exists_const] at h
  obtain ⟨hplain, h⟩ := h
  split at h
  · cases h
  rename_i host port hport
  simp only [bind_eq_ok, require_eq_ok, exists_const] at h
  obtain ⟨-, h⟩ := h
  split at h
  · cases h
  rename_i parsed hparsed
  simp only [bind_eq_ok, require_eq_ok, exists_const, pure_eq_ok] at h
  obtain ⟨hagrees, rfl⟩ := h
  obtain ⟨⟨hfits, -⟩, hauthorityChars⟩ := authority_of_originAuthority hauthority
  obtain ⟨hne, hshort, hhostChars⟩ := host_of_hostPort hport
  refine ⟨host, ⟨hlimit, by omega, hne, ?_, parsed, hparsed, hagrees⟩, rfl⟩
  intro c hc
  obtain ⟨hc, hcolon⟩ := hhostChars c hc
  obtain ⟨hvalue, hslash, hquery, hfragment⟩ := hauthorityChars c hc
  have hrange := List.all_eq_true.mp hprintable c hvalue
  have hallowed : (ascii "\\@%[]").contains c = false := by
    by_contra hbad
    exact hplain (List.any_eq_true.mpr ⟨c, hc, by simpa using hbad⟩)
  simp only [Bool.and_eq_true] at hrange
  simp only [hostCharacter, hrange.1, hrange.2, hallowed, bne_iff_ne.mpr hslash, bne_iff_ne.mpr hquery,
    bne_iff_ne.mpr hfragment, bne_iff_ne.mpr hcolon, Bool.not_false, Bool.and_self]

/-- The authority of an origin is its host. -/
theorem originAuthority_of_host (hne : host ≠ []) (h : ∀ c ∈ host, c ≠ 47 ∧ c ≠ 63 ∧ c ≠ 35) :
    originAuthority (ascii "https://" ++ host) = some host := by
  have htake : (ascii "https://" ++ host).take 8 = ascii "https://" := List.take_left' (by decide)
  have hdrop : (ascii "https://" ++ host).drop 8 = host := List.drop_left' (by decide)
  have hall : ∀ c ∈ host, (c != 47 && c != 63 && c != 35) = true := by
    intro c hc
    obtain ⟨hslash, hquery, hfragment⟩ := h c hc
    simp [hslash, hquery, hfragment]
  rw [originAuthority, htake, hdrop, List.takeWhile_eq_self_iff.mpr hall,
    List.dropWhile_eq_nil_iff.mpr hall, if_pos ⟨by decide, hne, .inl rfl⟩]

/-- The origin of a spelled host is canonical. -/
theorem canonicalAgentOrigin_of_host (hO : O.Consistent) (h : SpelledOrigin O value host maximumBytes) :
    canonicalAgentOrigin O (ascii "https://" ++ toLowerCase host) maximumBytes =
      .ok (ascii "https://" ++ toLowerCase host) := by
  obtain ⟨parsed, hparsed, hagrees⟩ := h.parsed
  obtain ⟨parsed', hparsed', hagrees'⟩ := hO value parsed _ hparsed hagrees
  have hne := toLowerCase_ne_nil h.nonempty
  have hlength : (toLowerCase host).length = host.length := List.length_map _
  have hchars := mem_toLowerCase hostCharacter_letter h.characters
  rw [← toLowerCase_toLowerCase] at hagrees'
  have htwice := toLowerCase_toLowerCase host
  generalize toLowerCase host = lower at *
  have hclass : ∀ c ∈ lower, (33 ≤ c ∧ c ≤ 126) ∧ c ≠ 47 ∧ c ≠ 63 ∧ c ≠ 35 ∧ c ≠ 58 ∧
      (ascii "\\@%[]").contains c = false := by
    intro c hc
    have hc := hchars c hc
    simpa [hostCharacter, and_assoc] using hc
  have hauthority := originAuthority_of_host hne fun c hc =>
    ⟨(hclass c hc).2.1, (hclass c hc).2.2.1, (hclass c hc).2.2.2.1⟩
  have hhost : hostPort lower = some (lower, none) := by
    have hall : ∀ c ∈ lower, (c != 58) = true := by
      intro c hc
      simpa using (hclass c hc).2.2.2.2.1
    simp only [hostPort, List.takeWhile_eq_self_iff.mpr hall, List.dropWhile_eq_nil_iff.mpr hall, if_neg hne]
  have hplain : ¬ lower.any fun c => (ascii "\\@%[]").contains c := by
    rw [List.any_eq_true]
    rintro ⟨c, hc, hbad⟩
    rw [(hclass c hc).2.2.2.2.2] at hbad
    cases hbad
  have hprintable : (ascii "https://" ++ lower).all fun c => 0x21 ≤ c && c ≤ 0x7e := by
    rw [List.all_append, Bool.and_eq_true, List.all_eq_true, List.all_eq_true]
    refine ⟨by decide, fun c hc => ?_⟩
    simpa using (hclass c hc).1
  simp only [canonicalAgentOrigin, bind_eq_ok, require_eq_ok, exists_const]
  refine ⟨h.limit, ?_, ⟨by simp [show ascii "https://" ≠ [] by decide], hprintable⟩, ?_⟩
  · rw [List.length_append, hlength]
    exact h.length
  · simp only [hauthority, bind_eq_ok, require_eq_ok, exists_const, hhost, hparsed', pure_eq_ok, htwice]
    exact ⟨hplain, .inl trivial, by simpa [htwice] using hagrees', trivial⟩

/-- **A canonical origin is its own origin.** -/
theorem canonicalAgentOrigin_idempotent (hO : O.Consistent)
    (h : canonicalAgentOrigin O value maximumBytes = .ok origin) :
    canonicalAgentOrigin O origin maximumBytes = .ok origin := by
  obtain ⟨host, hspelled, rfl⟩ := spelledOrigin_of_canonical h
  exact canonicalAgentOrigin_of_host hO hspelled

theorem configuredAgentOrigin_eq_ok :
    configuredAgentOrigin O value maximumBytes = .ok origin ↔
      canonicalAgentOrigin O value maximumBytes = .ok origin := by
  unfold configuredAgentOrigin
  cases canonicalAgentOrigin O value maximumBytes <;> simp [Except.mapError]

/-- The parser that agrees with the spelling reads back what it has accepted. -/
theorem spelledOrigins_consistent : spelledOrigins.Consistent := by
  intro value parsed host hurl hagrees
  obtain ⟨authority, hauthority, rfl⟩ := Option.map_eq_some_iff.mp hurl
  obtain ⟨⟨-, hne⟩, hchars⟩ := authority_of_originAuthority hauthority
  simp only [originAgrees, decide_eq_true_eq] at hagrees
  obtain ⟨-, -, -, -, -, -, -, -, -, -, rfl⟩ := hagrees
  have hclass : ∀ c ∈ toLowerCase authority, (c != 47 && c != 63 && c != 35) = true := by
    apply mem_toLowerCase
    · intro c hlow _
      simp only [Bool.and_eq_true, bne_iff_ne, ne_eq, ← UInt16.toNat_inj, UInt16.le_iff_toNat_le,
        UInt16.reduceToNat] at hlow ⊢
      omega
    · intro c hc
      obtain ⟨-, hslash, hquery, hfragment⟩ := hchars c hc
      simp [hslash, hquery, hfragment]
  have hread : originAuthority (ascii "https://" ++ toLowerCase authority) = some (toLowerCase authority) := by
    apply originAuthority_of_host (toLowerCase_ne_nil hne)
    intro c hc
    simpa [and_assoc] using hclass c hc
  refine ⟨_, Option.map_eq_some_iff.mpr ⟨_, hread, rfl⟩, ?_⟩
  rw [toLowerCase_toLowerCase]
  simp [originAgrees, spelledOrigins, toLowerCase_ne_nil hne]

end AgentSig.Profiles
