import AgentSig.Profiles.AgentBindings
import AgentSig.Profiles.KeyMaterial
import AgentSig.Redis.ConsumeInput

/-!
# Thumbprints

Key identifiers, agent bindings, the stores and the key material each check by themselves that a string is
the text of 32 octets. They all accept the same strings, the canonical texts, so a key has one identity.

## Main results

* `validateProfileKeyId_eq_ok`, `validThumbprint_iff_canonical`, `storeThumbprint_iff_canonical`,
  `publicMaterial_eq_ok`: what each check accepts
* `thumbprintValidators_canonical`: they accept the same
-/

namespace AgentSig.Redis

open Commons Core Profiles
open Base64 (Canonical)

variable {t : Text}

/-- A thumbprint in another input. -/
def withThumbprint (input : ReplayConsumeInput) (t : Text) : ReplayConsumeInput :=
  { input with keyThumbprint := t }

/-! ## The checks -/

/-- The length, the alphabet and the round trip, in whatever order. -/
theorem canonical_iff_checks : Canonical 32 t ↔ t.length = 43 ∧ t.all base64UrlChar ∧
    ((Base64.urlDecode t).getD []).length = 32 ∧
      Base64.urlEncode ((Base64.urlDecode t).getD []) = t := by
  constructor
  · intro h
    exact ⟨h.length, List.all_eq_true.mpr h.symbols, Base64.canonical_iff_decode.mp h⟩
  · rintro ⟨-, -, h⟩
    exact Base64.canonical_iff_decode.mpr h

theorem validateProfileKeyId_eq_ok {keyid : Text} :
    validateProfileKeyId t = .ok keyid ↔ Canonical 32 t ∧ keyid = t := by
  rw [canonical_iff_checks]
  simp only [validateProfileKeyId, bind_eq_ok, require_eq_ok, exists_const, pure_eq_ok]
  constructor
  · rintro ⟨hsymbols, hlength, hbytes, hencode, rfl⟩
    exact ⟨⟨hlength, hsymbols, hbytes, hencode⟩, rfl⟩
  · rintro ⟨⟨hlength, hsymbols, hbytes, hencode⟩, rfl⟩
    exact ⟨hsymbols, hlength, hbytes, hencode, rfl⟩

theorem validThumbprint_iff_canonical : Profiles.validThumbprint (some t) = true ↔ Canonical 32 t := by
  rw [canonical_iff_checks]
  simp only [Profiles.validThumbprint]
  split
  · rename_i h
    simp only [decide_eq_true_eq, h, true_and]
  · rename_i h
    rw [not_and] at h
    simp only [Bool.false_eq_true, false_iff, not_and]
    intro hlength hsymbols
    exact absurd hsymbols (h hlength)

theorem storeThumbprint_iff_canonical : MemoryReplayStore.validThumbprint t = true ↔ Canonical 32 t := by
  rw [canonical_iff_checks]
  simp only [MemoryReplayStore.validThumbprint, decide_eq_true_eq]
  refine and_congr_right fun _ => and_congr_right fun hsymbols => ?_
  obtain ⟨ss, hss⟩ := Base64.exists_sextets (List.all_eq_true.mp hsymbols)
  have hdecoded : Base64.urlDecode t = some (Base64.decode ss) := by
    rw [hss, Base64.urlDecode, Base64.mapM_urlSextet_map_urlSymbol, Option.map_some]
  simp [hdecoded]

theorem publicMaterial_eq_ok {input : KeyInput} {material : Ed25519PublicMaterial} :
    publicMaterial (some input) = .ok material ↔
      input.hasD = false ∧ input.kty = some (.text (ascii "OKP")) ∧
        input.crv = some (.text (ascii "Ed25519")) ∧ input.x = some (.text material.x) ∧
        Canonical 32 material.x := by
  have hown {p : Option KeyProperty} {v : Text} :
      ownValue p = .ok (some v) ↔ p = some (.text v) := by
    rcases p with _ | _ | _ | _ <;> simp [ownValue]
  rw [canonical_iff_checks]
  simp only [publicMaterial, bind_eq_ok, require_eq_ok, exists_const]
  constructor
  · rintro ⟨hd, kty, hkty, crv, hcrv, x, hx, ⟨rfl, rfl⟩, h⟩
    cases x with
    | none => simp at h
    | some x =>
      simp only [bind_eq_ok, require_eq_ok, pure_eq_ok, exists_const] at h
      obtain ⟨⟨hlength, hsymbols⟩, ⟨hbytes, hencode⟩, rfl⟩ := h
      exact ⟨hd, hown.mp hkty, hown.mp hcrv, hown.mp hx, hlength, hsymbols, hbytes, hencode⟩
  · rintro ⟨hd, hkty, hcrv, hx, hlength, hsymbols, hbytes, hencode⟩
    refine ⟨hd, _, hown.mpr hkty, _, hown.mpr hcrv, _, hown.mpr hx, ⟨rfl, rfl⟩, ?_⟩
    exact bind_eq_ok.mpr ⟨(), require_of ⟨hlength, hsymbols⟩,
      bind_eq_ok.mpr ⟨(), require_of ⟨hbytes, hencode⟩, rfl⟩⟩

/-! ## The stores -/

section Stores

variable {limits : ReplayLimits} {s : MemoryReplayStore} {input : ReplayConsumeInput} {k : Text}

/-- Whether the rest of an input is well formed does not depend on the thumbprint. -/
theorem validInput_withThumbprint (hk : Canonical 32 k) :
    MemoryReplayStore.validInput limits (withThumbprint input t) = true ↔
      Canonical 32 t ∧ MemoryReplayStore.validInput limits (withThumbprint input k) = true := by
  rw [validInput_iff, validInput_iff, storeThumbprint_iff_canonical, storeThumbprint_iff_canonical]
  simp only [withThumbprint, hk, true_and]
  constructor
  · rintro ⟨hscope, hlength, hascii, ht, hrest⟩
    exact ⟨ht, hscope, hlength, hascii, hrest⟩
  · rintro ⟨ht, hscope, hlength, hascii, hrest⟩
    exact ⟨hscope, hlength, hascii, ht, hrest⟩

theorem valid_withThumbprint (hk : Canonical 32 k) :
    MemoryReplayStore.valid limits s (withThumbprint input t) = true ↔
      Canonical 32 t ∧ MemoryReplayStore.valid limits s (withThumbprint input k) = true := by
  simp only [MemoryReplayStore.valid, decide_eq_true_eq]
  rw [validInput_withThumbprint hk, and_assoc]
  rfl

/-- The same object, with a string for its thumbprint. -/
def named (p : ConsumeProperties) (t : Text) : UntrustedInput := some { p with keyThumbprint := .text t }

theorem read_named (p : ConsumeProperties) (t k : Text) :
    (named p t).read = (named p k).read.map (withThumbprint · t) := by
  have htext (value : Text) : PropertyValue.text? (.text value) = some value := rfl
  simp only [UntrustedInput.read, named, htext, Option.bind_eq_bind, Option.bind_some]
  cases p.scope.text? with
  | none => rfl
  | some scope =>
    cases p.nonce.text? with
    | none => rfl
    | some nonce =>
      cases p.nowEpochSeconds.integer? with
      | none => rfl
      | some now => cases p.retainUntilEpochSeconds.integer? <;> rfl

/-- An input that names no canonical thumbprint leaves the store as it is. -/
theorem consumeUntrusted_of_not_canonical {policy : ReplayPolicy} {p : ConsumeProperties}
    (h : ¬ Canonical 32 t) : s.consumeUntrusted policy limits (named p t) = (s, .unavailable) := by
  unfold MemoryReplayStore.consumeUntrusted
  cases hread : (named p t).read with
  | none => rfl
  | some input =>
    rw [read_named p t t, Option.map_eq_some_iff] at hread
    obtain ⟨input, -, rfl⟩ := hread
    refine if_neg fun hvalid => h ?_
    simp only [MemoryReplayStore.valid, decide_eq_true_eq] at hvalid
    exact storeThumbprint_iff_canonical.mp (validInput_iff.mp hvalid.1).2.2.2.1

/-- Whether the adapter prepares a record does not depend on which canonical thumbprint is named. -/
theorem prepareRedisConsume_named {p : ConsumeProperties} (hk : Canonical 32 k) :
    (prepareRedisConsume (named p t)).isSome ↔
      Canonical 32 t ∧ (prepareRedisConsume (named p k)).isSome := by
  rw [prepareRedisConsume_isSome, prepareRedisConsume_isSome]
  simp only [read_named p t k, Option.map_eq_some_iff]
  constructor
  · rintro ⟨_, ⟨input, hread, rfl⟩, hvalid, hsafe⟩
    obtain ⟨ht, -⟩ := (validInput_withThumbprint hk).mp hvalid
    rw [read_named p k k, Option.map_eq_some_iff] at hread
    obtain ⟨input', hread', rfl⟩ := hread
    obtain ⟨-, hvalid'⟩ := (validInput_withThumbprint hk).mp hvalid
    refine ⟨ht, withThumbprint input' k, ?_, hvalid', hsafe⟩
    rw [read_named p k k, hread']
    rfl
  · rintro ⟨ht, input, hread, hvalid, hsafe⟩
    refine ⟨withThumbprint input t, ⟨input, hread, rfl⟩, (validInput_withThumbprint hk).mpr ⟨ht, ?_⟩, hsafe⟩
    rw [read_named p k k, Option.map_eq_some_iff] at hread
    obtain ⟨input', -, rfl⟩ := hread
    exact hvalid

theorem thumbprint_of_prepareRedisConsume {p : ConsumeProperties} {record : RedisConsumeRecord}
    (h : prepareRedisConsume (named p t) = some record) : record.thumbprint = t := by
  obtain ⟨input, hread, hprepared⟩ := prepareRedisConsume_eq_some h
  rw [read_named p t t, Option.map_eq_some_iff] at hread
  obtain ⟨input', -, rfl⟩ := hread
  exact hprepared.thumbprint

end Stores

/-- **All validators accept the same thumbprints.** A string is accepted as a key identifier, by the agent
bindings, by both replay stores and as key material if and only if it is the text of 32 octets, and it is
passed on as it is. These are the strings of 43 symbols whose last symbol has two zero bits at its end. -/
theorem thumbprintValidators_canonical (t : Text) :
    (∀ keyid, validateProfileKeyId t = .ok keyid ↔ Canonical 32 t ∧ keyid = t) ∧
    (Profiles.validThumbprint (some t) = true ↔ Canonical 32 t) ∧
    ((∀ limits s input k, Canonical 32 k →
        (MemoryReplayStore.valid limits s (withThumbprint input t) = true ↔
          Canonical 32 t ∧ MemoryReplayStore.valid limits s (withThumbprint input k) = true)) ∧
      ∀ policy limits s p, ¬ Canonical 32 t →
        MemoryReplayStore.consumeUntrusted policy limits s (named p t) = (s, .unavailable)) ∧
    ((∀ p k, Canonical 32 k → ((prepareRedisConsume (named p t)).isSome ↔
        Canonical 32 t ∧ (prepareRedisConsume (named p k)).isSome)) ∧
      ∀ p record, prepareRedisConsume (named p t) = some record → record.thumbprint = t) ∧
    (∀ input material, input.x = some (.text t) → (publicMaterial (some input) = .ok material ↔
      input.hasD = false ∧ input.kty = some (.text (ascii "OKP")) ∧
        input.crv = some (.text (ascii "Ed25519")) ∧ Canonical 32 t ∧ material.x = t)) ∧
    (Canonical 32 t ↔ t.length = 43 ∧ (∀ c ∈ t, (Base64.urlSextet c).isSome) ∧
      ∀ c ∈ t.getLast?, ∀ s ∈ Base64.urlSextet c, s.val % 4 = 0) := by
  refine ⟨fun keyid => validateProfileKeyId_eq_ok, validThumbprint_iff_canonical,
    ⟨fun limits s input k hk => valid_withThumbprint hk,
      fun policy limits s p h => consumeUntrusted_of_not_canonical h⟩,
    ⟨fun p k hk => prepareRedisConsume_named hk, fun p record h => thumbprint_of_prepareRedisConsume h⟩,
    ?_, Base64.canonical_iff_last (by decide)⟩
  intro input material hx
  rw [publicMaterial_eq_ok, hx]
  constructor
  · rintro ⟨hd, hkty, hcrv, heq, hcanonical⟩
    obtain rfl := KeyProperty.text.inj (Option.some.inj heq)
    exact ⟨hd, hkty, hcrv, hcanonical, rfl⟩
  · rintro ⟨hd, hkty, hcrv, hcanonical, rfl⟩
    exact ⟨hd, hkty, hcrv, rfl, hcanonical⟩

/-- The last symbol decides: of two spellings that a lenient decoder reads as the same octets, one is accepted. -/
example : Base64.urlDecode (List.replicate 42 65 ++ [65]) = Base64.urlDecode (List.replicate 42 65 ++ [66]) ∧
    Profiles.validThumbprint (some (List.replicate 42 65 ++ [65])) = true ∧
    Profiles.validThumbprint (some (List.replicate 42 65 ++ [66])) = false := by decide +kernel

end AgentSig.Redis
