import AgentSig.Profiles.LoadJwks
import AgentSig.Profiles.JwksAgreement

/-!
# Key sets are loaded whole and looked up by material

A load succeeds when no entry is rejected, so nothing is dropped. A lookup finds a key exactly when the set
has an Ed25519 entry with the thumbprint, whatever the label, the position and the other members of the
entry are, and whatever else has the thumbprint. The order of the entries and repetitions of them change
neither, since the hashed members determine the key.

## Main definitions

* `Rejected host format entry`: a rule rejects an entry
* `CollisionFree host entries`: the hash function tells the keys of the entries apart
* `Rearranged n entries entries'`: entries permuted, or one of them repeated within a number of entries
* `JwksLookup.Agrees`: the same result, except for the position and the label of a key

## Main results

* `lookup_found_iff`: the keys that lookups find
* `agrees_of_mem_iff`: sets of the same entries have the same lookups
* `loadJwks_keys`: all of the above, for the load of an input
-/

namespace AgentSig.Profiles

open Commons

variable {host : JwksHost} {format : JwksFormat}

/-! ## Rejected entries -/

/-- A rule rejects an entry: it is no object, it is symmetric, its label is no string or not the one of its
format, or its material, its usage or its algorithm is rejected. -/
inductive Rejected (host : JwksHost) (format : JwksFormat) : JsonValue → Prop
  | shape {entry : JsonValue} (h : ∀ key : JwkRecord, entry ≠ .object key) : Rejected host format entry
  | symmetric {key : JwkRecord} (h : key.isText "kty" "oct") : Rejected host format (.object key)
  | kid {key : JwkRecord} (hown : (key.own "kid").isSome) (h : key.kidLabel = none) :
      Rejected host format (.object key)
  | material {key : JwkRecord} {rule : String} (h : inspectPublicJwk host key = .error rule) :
      Rejected host format (.object key)
  | label {key : JwkRecord} {material : PublicJwkMaterial} {kid : Text}
      (h : inspectPublicJwk host key = .ok material) (hformat : format = .wgDirectory00)
      (hkid : key.kidLabel = some kid) (hne : kid ≠ material.thumbprint) :
      Rejected host format (.object key)
  | usage {key : JwkRecord} {d : JwksDiagnostic} (h : validateJwkUsage key 0 = .error d) :
      Rejected host format (.object key)
  | algorithm {key : JwkRecord} {d : JwksDiagnostic} (h : validateJwkAlgorithm key 0 format = .error d) :
      Rejected host format (.object key)

/-- An entry that passes is not rejected by any rule. -/
theorem not_rejected_of_loadEntry {i : ℕ} {entry : JsonValue} {r : LoadedVerificationKey ⊕ SkippedJwk}
    (h : loadEntry host format i entry = .ok r) : ¬ Rejected host format entry := by
  obtain ⟨key, material, reason, rfl, hadmits, husage, halgorithm, -⟩ := loadEntry_eq_ok.mp h
  intro hrejected
  cases hrejected with
  | shape h => exact h key rfl
  | symmetric h =>
    rw [hadmits.symmetric] at h
    cases h
  | kid hown h =>
    rcases hadmits.kid with hnone | hsome
    · rw [Option.isNone_iff_eq_none.mp hnone] at hown
      cases hown
    · rw [h] at hsome
      cases hsome
  | material h =>
    rw [hadmits.inspect] at h
    cases h
  | label h hformat hkid hne =>
    obtain rfl := Except.ok.inj (hadmits.inspect.symm.trans h)
    exact hadmits.label ⟨hformat, by simp [hkid], by simpa [hkid] using hne⟩
  | usage h =>
    rw [validateJwkUsage_reindex husage 0] at h
    cases h
  | algorithm h =>
    rw [validateJwkAlgorithm_reindex halgorithm 0] at h
    cases h

/-- An entry that no rule rejects passes. -/
theorem loadEntry_of_not_rejected {entry : JsonValue} (h : ¬ Rejected host format entry) (i : ℕ) :
    ∃ r, loadEntry host format i entry = .ok r := by
  by_cases hobject : ∃ key : JwkRecord, entry = .object key
  · obtain ⟨key, rfl⟩ := hobject
    have hsymmetric : key.isText "kty" "oct" = false := by
      rw [Bool.eq_false_iff]
      exact fun hoct => h (.symmetric hoct)
    have hkid : (key.own "kid").isNone ∨ key.kidLabel.isSome := by
      by_contra hkid
      rw [not_or, Bool.not_eq_true, Bool.not_eq_true, Option.isNone_eq_false_iff,
        Option.isSome_eq_false_iff, Option.isNone_iff_eq_none] at hkid
      exact h (.kid hkid.1 hkid.2)
    cases hinspect : inspectPublicJwk host key with
    | error rule => exact absurd (.material hinspect) h
    | ok material =>
      have hlabel : ¬ (format = .wgDirectory00 ∧ key.kidLabel ≠ none ∧
          key.kidLabel ≠ some material.thumbprint) := by
        rintro ⟨hformat, hsome, hne⟩
        obtain ⟨kid, hkid⟩ := Option.ne_none_iff_exists'.mp hsome
        rw [hkid] at hne
        exact h (.label hinspect hformat hkid fun heq => hne (congrArg some heq))
      cases husage : validateJwkUsage key 0 with
      | error d => exact absurd (.usage husage) h
      | ok u =>
        cases halgorithm : validateJwkAlgorithm key 0 format with
        | error d => exact absurd (.algorithm halgorithm) h
        | ok reason =>
          exact ⟨loadedKey i key material reason, loadEntry_eq_ok.mpr ⟨key, material, reason, rfl,
            ⟨hsymmetric, hkid, hinspect, hlabel⟩, validateJwkUsage_reindex husage i,
            validateJwkAlgorithm_reindex halgorithm i, rfl⟩⟩
  · exact absurd (.shape fun key heq => hobject ⟨key, heq⟩) h

/-! ## What lookups find -/

theorem lookup_eq_found_iff {jwks : LoadedJwks} {t : Text} :
    (∃ key, jwks.lookup t = .found key) ↔ ∃ key ∈ jwks.keys, key.thumbprint = t := by
  constructor
  · rintro ⟨key, h⟩
    exact ⟨key, LoadedJwks.lookup_eq_found h⟩
  · rintro ⟨key, hmem, hkey⟩
    have hsome : (jwks.keys.find? fun entry => entry.thumbprint = t).isSome :=
      List.find?_isSome.mpr ⟨key, hmem, by simpa using hkey⟩
    obtain ⟨found, hfound⟩ := Option.isSome_iff_exists.mp hsome
    exact ⟨found, by rw [LoadedJwks.lookup, hfound]⟩

theorem curveEd25519_of_entry {key : JwkRecord} {x : Text} (h : Ed25519Entry key x) :
    key.curveEd25519 := by
  rw [JwkRecord.curveEd25519, h.crv]
  exact decide_eq_true rfl

/-- What is recorded of a key for verification comes from an Ed25519 entry, and from its material alone
but for its position and its label. -/
theorem entry_of_key {i : ℕ} {entry : JsonValue} {loaded : LoadedVerificationKey}
    (h : loadEntry host format i entry = .ok (.inl loaded)) :
    ∃ (key : JwkRecord) (x : Text) (publicKey : ImportedKey), entry = .object key ∧
      Ed25519Entry key x ∧ Ed25519Policy format key ∧
      loaded.thumbprint = thumbprintOf host (ed25519Members x) ∧
      host.createPublicKey (ed25519Members x) = some publicKey ∧ loaded.publicKey = publicKey.octets ∧
      loaded.knownTestKey = isKnownTestKey loaded.thumbprint := by
  obtain ⟨key, material, reason, rfl, hadmits, husage, halgorithm, hloaded⟩ := loadEntry_eq_ok.mp h
  unfold loadedKey at hloaded
  split at hloaded
  · rename_i hselectable
    obtain ⟨x, hentry, hthumbprint, hkey⟩ := ed25519_of_selectable hadmits.inspect hselectable
    obtain rfl := Sum.inl.inj hloaded
    have hpolicy := (ed25519Policy_iff (curveEd25519_of_entry hentry) i format).mp
      ⟨husage, reason, halgorithm⟩
    exact ⟨key, x, material.publicKey, rfl, hentry, hpolicy, hthumbprint, hkey, rfl, rfl⟩
  · cases hloaded

/-- An Ed25519 entry that passes is recorded as a key for verification. -/
theorem key_of_entry {i : ℕ} {key : JwkRecord} {x : Text} {r : LoadedVerificationKey ⊕ SkippedJwk}
    (h : loadEntry host format i (.object key) = .ok r) (hentry : Ed25519Entry key x) :
    ∃ loaded, r = .inl loaded ∧ loaded.thumbprint = thumbprintOf host (ed25519Members x) := by
  obtain ⟨key', material, reason, heq, hadmits, -, -, rfl⟩ := loadEntry_eq_ok.mp h
  cases heq
  have hselectable := selectable_of_ed25519 hadmits.inspect hentry
  obtain ⟨x', hentry', hthumbprint, -⟩ := ed25519_of_selectable hadmits.inspect hselectable
  obtain rfl := hentry.unique hentry'
  exact ⟨_, by rw [loadedKey, if_pos hselectable], hthumbprint⟩

variable {entries entries' : List JsonValue} {jwks jwks' : LoadedJwks}

theorem mem_keys_of_loadEntries (h : loadEntries host format ⟨[], []⟩ 0 entries = .ok jwks)
    {key : LoadedVerificationKey} : key ∈ jwks.keys ↔
      ∃ i entry, entries[i]? = some entry ∧ loadEntry host format i entry = .ok (.inl key) := by
  rw [(loadEntries_spec h).1]
  simp

theorem mem_skipped_of_loadEntries (h : loadEntries host format ⟨[], []⟩ 0 entries = .ok jwks)
    {key : SkippedJwk} : key ∈ jwks.skipped ↔
      ∃ i entry, entries[i]? = some entry ∧ loadEntry host format i entry = .ok (.inr key) := by
  rw [(loadEntries_spec h).2]
  simp

/-- A lookup finds a key exactly when the set has an Ed25519 entry with the thumbprint. -/
theorem lookup_found_iff (h : loadEntries host format ⟨[], []⟩ 0 entries = .ok jwks) (t : Text) :
    (∃ key, jwks.lookup t = .found key) ↔ ∃ (key : JwkRecord) (x : Text), .object key ∈ entries ∧
      Ed25519Entry key x ∧ Ed25519Policy format key ∧ thumbprintOf host (ed25519Members x) = t := by
  rw [lookup_eq_found_iff]
  constructor
  · rintro ⟨loaded, hmem, rfl⟩
    obtain ⟨i, entry, hentry, hload⟩ := (mem_keys_of_loadEntries h).mp hmem
    obtain ⟨key, x, publicKey, rfl, hed25519, hpolicy, hthumbprint, -, -, -⟩ := entry_of_key hload
    exact ⟨key, x, List.mem_of_getElem? hentry, hed25519, hpolicy, hthumbprint.symm⟩
  · rintro ⟨key, x, hmem, hed25519, -, rfl⟩
    obtain ⟨r, hload⟩ := loadEntries_eq_ok_iff.mp ⟨jwks, h⟩ _ hmem
    obtain ⟨i, hi⟩ := List.mem_iff_getElem?.mp hmem
    have hindex := loadEntry_reindex hload i
    obtain ⟨loaded, heq, hthumbprint⟩ := key_of_entry hindex hed25519
    rw [heq] at hindex
    exact ⟨loaded, (mem_keys_of_loadEntries h).mpr ⟨i, _, hi, hindex⟩, hthumbprint⟩

/-- A key that is only reported comes from an entry, whatever its position is. -/
theorem skipped_iff (h : loadEntries host format ⟨[], []⟩ 0 entries = .ok jwks) (t : Text) :
    (jwks.skipped.any fun entry => entry.thumbprint = t) ↔
      ∃ entry ∈ entries, ∃ key, loadEntry host format 0 entry = .ok (.inr key) ∧ key.thumbprint = t := by
  simp only [List.any_eq_true, decide_eq_true_eq]
  constructor
  · rintro ⟨skipped, hmem, rfl⟩
    obtain ⟨i, entry, hentry, hload⟩ := (mem_skipped_of_loadEntries h).mp hmem
    exact ⟨entry, List.mem_of_getElem? hentry, _, loadEntry_reindex hload 0, rfl⟩
  · rintro ⟨entry, hmem, key, hload, rfl⟩
    obtain ⟨i, hi⟩ := List.mem_iff_getElem?.mp hmem
    exact ⟨_, (mem_skipped_of_loadEntries h).mpr ⟨i, entry, hi, loadEntry_reindex hload i⟩, rfl⟩

/-! ## The order and repetitions of entries -/

/-- The hash function tells the members that are hashed for the Ed25519 keys of the entries apart. -/
def CollisionFree (host : JwksHost) (entries : List JsonValue) : Prop :=
  ∀ (key key' : JwkRecord) (x x' : Text), .object key ∈ entries → Ed25519Entry key x →
    .object key' ∈ entries → Ed25519Entry key' x' →
    host.sha256 (canonicalOctets host (ed25519Members x)) =
      host.sha256 (canonicalOctets host (ed25519Members x')) →
    canonicalOctets host (ed25519Members x) = canonicalOctets host (ed25519Members x')

/-- Keys that differ in their positions and labels at most. -/
def LoadedVerificationKey.SameKey (key key' : LoadedVerificationKey) : Prop :=
  key.thumbprint = key'.thumbprint ∧ key.publicKey = key'.publicKey ∧
    key.knownTestKey = key'.knownTestKey

/-- Results of lookups that differ in the position and the label of a found key at most. -/
inductive JwksLookup.Agrees : JwksLookup → JwksLookup → Prop
  | found {key key' : LoadedVerificationKey} (h : key.SameKey key') : Agrees (.found key) (.found key')
  | unverified (reason : UnverifiedCode) : Agrees (.unverified reason) (.unverified reason)

/-- Keys of one thumbprint are the same. -/
theorem sameKey_of_thumbprint (hcollision : CollisionFree host entries) {i i' : ℕ}
    {entry entry' : JsonValue} (hmem : entry ∈ entries) (hmem' : entry' ∈ entries)
    {key key' : LoadedVerificationKey} (h : loadEntry host format i entry = .ok (.inl key))
    (h' : loadEntry host format i' entry' = .ok (.inl key')) (heq : key.thumbprint = key'.thumbprint) :
    key.SameKey key' := by
  obtain ⟨record, x, publicKey, rfl, hentry, -, hthumbprint, hkey, hoctets, hknown⟩ := entry_of_key h
  obtain ⟨record', x', publicKey', rfl, hentry', -, hthumbprint', hkey', hoctets', hknown'⟩ :=
    entry_of_key h'
  have hhash : host.sha256 (canonicalOctets host (ed25519Members x)) =
      host.sha256 (canonicalOctets host (ed25519Members x')) := by
    rw [hthumbprint, hthumbprint'] at heq
    exact Base64.urlEncode_injective heq
  obtain rfl := canonicalOctets_ed25519_inj
    (hcollision record record' x x' hmem hentry hmem' hentry' hhash)
  obtain rfl := Option.some.inj (hkey.symm.trans hkey')
  exact ⟨heq, hoctets.trans hoctets'.symm, by rw [hknown, hknown', heq]⟩

/-- Sets of the same entries have the same lookups. -/
theorem agrees_of_mem_iff (hcollision : CollisionFree host entries)
    (hmem : ∀ entry, entry ∈ entries ↔ entry ∈ entries')
    (h : loadEntries host format ⟨[], []⟩ 0 entries = .ok jwks)
    (h' : loadEntries host format ⟨[], []⟩ 0 entries' = .ok jwks') (t : Text) :
    (jwks.lookup t).Agrees (jwks'.lookup t) := by
  have hfound : (∃ key, jwks.lookup t = .found key) ↔ ∃ key, jwks'.lookup t = .found key := by
    rw [lookup_found_iff h, lookup_found_iff h']
    simp only [hmem]
  by_cases hkey : ∃ key, jwks.lookup t = .found key
  · obtain ⟨key', hkey'⟩ := hfound.mp hkey
    obtain ⟨key, hkey⟩ := hkey
    obtain ⟨hkeys, hthumbprint⟩ := LoadedJwks.lookup_eq_found hkey
    obtain ⟨hkeys', hthumbprint'⟩ := LoadedJwks.lookup_eq_found hkey'
    obtain ⟨i, entry, hentry, hload⟩ := (mem_keys_of_loadEntries h).mp hkeys
    obtain ⟨i', entry', hentry', hload'⟩ := (mem_keys_of_loadEntries h').mp hkeys'
    rw [hkey, hkey']
    apply JwksLookup.Agrees.found
    exact sameKey_of_thumbprint hcollision (List.mem_of_getElem? hentry)
      ((hmem entry').mpr (List.mem_of_getElem? hentry')) hload hload'
      (hthumbprint.trans hthumbprint'.symm)
  · have hnone : ∀ {set : LoadedJwks}, (¬ ∃ key, set.lookup t = .found key) → set.lookup t =
        .unverified (if set.skipped.any (fun entry => entry.thumbprint = t) then .unsupportedAlgorithm
          else .unknownKey) := by
      intro set hset
      unfold LoadedJwks.lookup at hset ⊢
      cases hfind : set.keys.find? fun entry => entry.thumbprint = t with
      | some key =>
        rw [hfind] at hset
        exact absurd ⟨key, rfl⟩ hset
      | none =>
        dsimp only
        split <;> rfl
    have hskipped : (jwks.skipped.any fun entry => entry.thumbprint = t) =
        jwks'.skipped.any fun entry => entry.thumbprint = t := by
      rw [Bool.eq_iff_iff, skipped_iff h, skipped_iff h']
      simp only [hmem]
    rw [hnone hkey, hnone (fun h => hkey (hfound.mpr h)), hskipped]
    exact .unverified _

/-- Entries permuted, or one of them repeated within a number of entries. -/
def Rearranged (maxKeys : ℕ) (entries entries' : List JsonValue) : Prop :=
  entries.Perm entries' ∨ ∃ entry ∈ entries, (entry :: entries).Perm entries' ∧ entries'.length ≤ maxKeys

theorem Rearranged.mem_iff {maxKeys : ℕ} (h : Rearranged maxKeys entries entries') (entry : JsonValue) :
    entry ∈ entries ↔ entry ∈ entries' := by
  rcases h with hperm | ⟨repeated, hmem, hperm, -⟩
  · exact hperm.mem_iff
  · rw [← hperm.mem_iff, List.mem_cons]
    constructor
    · exact .inr
    · rintro (rfl | h)
      · exact hmem
      · exact h

theorem Rearranged.length_le_iff {maxKeys : ℕ} (h : Rearranged maxKeys entries entries') :
    entries.length ≤ maxKeys ↔ entries'.length ≤ maxKeys := by
  rcases h with hperm | ⟨repeated, -, hperm, hle⟩
  · rw [hperm.length_eq]
  · have hlength := hperm.length_eq
    rw [List.length_cons] at hlength
    omega

/-! ## The load of an input -/

variable {heap : Snapshot.Heap} {overrides : ProfileLimitOverrides} {limits : ProfileLimits}
  {input : Snapshot.JwksInput}

/-- An input within the byte limit is a key set of these entries. -/
def HasEntries (host : JwksHost) (heap : Snapshot.Heap) (limits : ProfileLimits)
    (input : Snapshot.JwksInput) (entries : List JsonValue) : Prop :=
  ∃ members, Snapshot.snapshotJwksInput host.format heap input limits.maxJwksBytes =
    .ok (.object members) ∧ OrderedMap.lookup members (ascii "keys") = some (.array entries)

/-- The load of a key set checks the number of its entries and loads them. -/
theorem loadJwks_eq_ok (hlimits : resolveProfileLimits overrides = .ok limits)
    (hentries : HasEntries host heap limits input entries) :
    loadJwks host heap input format overrides = .ok jwks ↔
      entries.length ≤ limits.maxKeys ∧ loadEntries host format ⟨[], []⟩ 0 entries = .ok jwks := by
  obtain ⟨members, hsnapshot, hkeys⟩ := hentries
  simp only [loadJwks, hlimits, hsnapshot, Except.mapError, ok_bind]
  change (loadSnapshot host format limits (.object members)).mapError _ = _ ↔ _
  rw [mapError_eq_ok]
  simp only [loadSnapshot, hkeys, bind_eq_ok, require_eq_ok, exists_const]

/-- What is loaded is a key set. -/
theorem exists_entries_of_loadJwks (hlimits : resolveProfileLimits overrides = .ok limits)
    (h : loadJwks host heap input format overrides = .ok jwks) :
    ∃ entries, HasEntries host heap limits input entries := by
  simp only [loadJwks, hlimits, Except.mapError, ok_bind] at h
  cases hsnapshot : Snapshot.snapshotJwksInput host.format heap input limits.maxJwksBytes with
  | error e =>
    rw [hsnapshot] at h
    cases h
  | ok snapshot =>
    rw [hsnapshot] at h
    cases snapshot with
    | object members =>
      cases hkeys : OrderedMap.lookup members (ascii "keys") with
      | none =>
        simp only [ok_bind, loadSnapshot, hkeys] at h
        cases h
      | some keys =>
        cases keys with
        | array entries => exact ⟨entries, members, hsnapshot, hkeys⟩
        | _ =>
          simp only [ok_bind, loadSnapshot, hkeys] at h
          cases h
    | _ => cases h

/-- A load succeeds when the input is a key set of few enough entries and no entry is rejected. -/
theorem exists_loadJwks_iff (hlimits : resolveProfileLimits overrides = .ok limits) :
    (∃ jwks, loadJwks host heap input format overrides = .ok jwks) ↔
      ∃ entries, HasEntries host heap limits input entries ∧ entries.length ≤ limits.maxKeys ∧
        ∀ entry ∈ entries, ¬ Rejected host format entry := by
  constructor
  · rintro ⟨jwks, h⟩
    obtain ⟨entries, hentries⟩ := exists_entries_of_loadJwks hlimits h
    obtain ⟨hcount, hload⟩ := (loadJwks_eq_ok hlimits hentries).mp h
    refine ⟨entries, hentries, hcount, fun entry hmem => ?_⟩
    obtain ⟨r, hentry⟩ := loadEntries_eq_ok_iff.mp ⟨jwks, hload⟩ entry hmem
    exact not_rejected_of_loadEntry hentry
  · rintro ⟨entries, hentries, hcount, hpass⟩
    obtain ⟨jwks, hload⟩ := (@loadEntries_eq_ok_iff host format ⟨[], []⟩ 0 entries).mpr
      fun entry hmem => loadEntry_of_not_rejected (hpass entry hmem) 0
    exact ⟨jwks, (loadJwks_eq_ok hlimits hentries).mpr ⟨hcount, hload⟩⟩

theorem HasEntries.unique (h : HasEntries host heap limits input entries)
    (h' : HasEntries host heap limits input entries') : entries = entries' := by
  obtain ⟨members, hsnapshot, hkeys⟩ := h
  obtain ⟨members', hsnapshot', hkeys'⟩ := h'
  rw [hsnapshot] at hsnapshot'
  cases hsnapshot'
  rw [hkeys] at hkeys'
  cases hkeys'
  rfl

/-! ## The entries of graphs and texts -/

section Inputs

variable {value : Snapshot.GraphValue} {members : List (Text × JsonValue)}

/-- A graph of an object is a key set of its entries when its text fits into the limit. -/
theorem hasEntries_graph (htree : Snapshot.Denotes heap value (.object members))
    (hkeys : OrderedMap.lookup members (ascii "keys") = some (.array entries)) :
    HasEntries host heap limits (.value value) entries ↔
      octetCount (stringify host.format (.object members)) ≤ limits.maxJwksBytes := by
  have hvalue : ∀ t, value ≠ .text t := by
    rintro t rfl
    cases Snapshot.Denotes.unique htree ⟨0, rfl⟩
  constructor
  · rintro ⟨members', hsnapshot, -⟩
    obtain ⟨htree', hfits⟩ := (Snapshot.snapshotJwksInput_graph hvalue).mp hsnapshot
    rwa [htree.unique htree']
  · intro hfits
    exact ⟨members, (Snapshot.snapshotJwksInput_graph hvalue).mpr ⟨htree, hfits⟩, hkeys⟩

/-- The text of an object is a key set of its entries, with both zeros made one, when it fits into the
limit. -/
theorem hasEntries_text (hproper : (JsonValue.object members).Proper)
    (hkeys : OrderedMap.lookup members (ascii "keys") = some (.array entries)) :
    HasEntries host heap limits (.value (.text (stringify host.format (.object members))))
      (entries.map JsonValue.unsigned) ↔
      octetCount (stringify host.format (.object members)) ≤ limits.maxJwksBytes := by
  rw [HasEntries, Snapshot.snapshotJwksInput_text hproper]
  constructor
  · rintro ⟨members', hsnapshot, -⟩
    by_contra hlarge
    rw [if_neg hlarge] at hsnapshot
    cases hsnapshot
  · intro hfits
    refine ⟨JsonValue.unsignedMembers members, by rw [if_pos hfits, JsonValue.unsigned], ?_⟩
    rw [lookup_unsignedMembers, hkeys, Option.map_some, JsonValue.unsigned, unsignedValues_eq_map]

/-- Permuted entries take the same octets. -/
theorem octetCount_permuted (hkeys : OrderedMap.lookup members (ascii "keys") = some (.array entries))
    (hperm : entries.Perm entries') :
    octetCount (stringify host.format
        (.object (OrderedMap.set members (ascii "keys") (.array entries')))) =
      octetCount (stringify host.format (.object members)) :=
  valueCount_object_set host.format hkeys (valueCount_array_perm host.format hperm)

end Inputs

/-- Key sets are loaded whole and looked up by material only. A load succeeds when the input has few enough
entries and no entry is rejected. A lookup finds a key exactly when the set has an Ed25519 entry that the
rules of the format admit and whose thumbprint is the one looked up. Permuting the entries or repeating one
within the number of entries and the byte limit changes neither, except for the position and the label of
a key that is found; and the byte limit admits permuted entries alike. -/
theorem loadJwks_keys (host : JwksHost) (heap : Snapshot.Heap) (format : JwksFormat)
    (overrides : ProfileLimitOverrides) (limits : ProfileLimits)
    (hlimits : resolveProfileLimits overrides = .ok limits) :
    (∀ input, (∃ jwks, loadJwks host heap input format overrides = .ok jwks) ↔
      ∃ entries, HasEntries host heap limits input entries ∧ entries.length ≤ limits.maxKeys ∧
        ∀ entry ∈ entries, ¬ Rejected host format entry) ∧
    (∀ input jwks entries, HasEntries host heap limits input entries →
      loadJwks host heap input format overrides = .ok jwks → ∀ t,
        ((∃ key, jwks.lookup t = .found key) ↔ ∃ (key : JwkRecord) (x : Text), .object key ∈ entries ∧
          Ed25519Entry key x ∧ Ed25519Policy format key ∧ thumbprintOf host (ed25519Members x) = t) ∧
        ∀ key, jwks.lookup t = .found key → key.thumbprint = t) ∧
    (∀ input input' entries entries', HasEntries host heap limits input entries →
      HasEntries host heap limits input' entries' → Rearranged limits.maxKeys entries entries' →
      ((∃ jwks, loadJwks host heap input format overrides = .ok jwks) ↔
        ∃ jwks, loadJwks host heap input' format overrides = .ok jwks) ∧
      (CollisionFree host entries → ∀ jwks jwks', loadJwks host heap input format overrides = .ok jwks →
        loadJwks host heap input' format overrides = .ok jwks' →
          ∀ t, (jwks.lookup t).Agrees (jwks'.lookup t))) ∧
    ∀ (value value' : Snapshot.GraphValue) (members : List (Text × JsonValue))
      (entries entries' : List JsonValue),
      OrderedMap.lookup members (ascii "keys") = some (.array entries) → entries.Perm entries' →
      Snapshot.Denotes heap value (.object members) →
      Snapshot.Denotes heap value' (.object (OrderedMap.set members (ascii "keys") (.array entries'))) →
      (HasEntries host heap limits (.value value) entries ↔
        HasEntries host heap limits (.value value') entries') ∧
      (HasEntries host heap limits (.value (.text (stringify host.format (.object members))))
          (entries.map JsonValue.unsigned) ↔
        HasEntries host heap limits (.value (.text (stringify host.format
          (.object (OrderedMap.set members (ascii "keys") (.array entries'))))))
          (entries'.map JsonValue.unsigned)) := by
  refine ⟨fun input => exists_loadJwks_iff hlimits, ?_, ?_, ?_⟩
  · intro input jwks entries hentries h t
    obtain ⟨-, hload⟩ := (loadJwks_eq_ok hlimits hentries).mp h
    exact ⟨lookup_found_iff hload t, fun key hkey => (LoadedJwks.lookup_eq_found hkey).2⟩
  · intro input input' entries entries' hentries hentries' hrearranged
    constructor
    · rw [exists_loadJwks_iff hlimits, exists_loadJwks_iff hlimits]
      constructor
      · rintro ⟨own, hown, hcount, hpass⟩
        obtain rfl := hown.unique hentries
        exact ⟨entries', hentries', hrearranged.length_le_iff.mp hcount,
          fun entry hmem => hpass entry ((hrearranged.mem_iff entry).mpr hmem)⟩
      · rintro ⟨own, hown, hcount, hpass⟩
        obtain rfl := hown.unique hentries'
        exact ⟨entries, hentries, hrearranged.length_le_iff.mpr hcount,
          fun entry hmem => hpass entry ((hrearranged.mem_iff entry).mp hmem)⟩
    · intro hcollision jwks jwks' h h'
      obtain ⟨-, hload⟩ := (loadJwks_eq_ok hlimits hentries).mp h
      obtain ⟨-, hload'⟩ := (loadJwks_eq_ok hlimits hentries').mp h'
      exact agrees_of_mem_iff hcollision hrearranged.mem_iff hload hload'
  · intro value value' members entries entries' hkeys hperm htree htree'
    have hcount : octetCount (stringify host.format (.object (OrderedMap.set members (ascii "keys")
        (.array entries')))) = octetCount (stringify host.format (.object members)) :=
      octetCount_permuted hkeys hperm
    have hkeys' : OrderedMap.lookup (OrderedMap.set members (ascii "keys") (.array entries'))
        (ascii "keys") = some (.array entries') := by
      rw [OrderedMap.lookup_set, if_pos rfl]
    obtain ⟨depth, hdepth⟩ := id htree
    obtain ⟨depth', hdepth'⟩ := id htree'
    constructor
    · rw [hasEntries_graph htree hkeys, hasEntries_graph htree' hkeys', hcount]
    · rw [hasEntries_text (Snapshot.proper_of_unfold hdepth) hkeys,
        hasEntries_text (Snapshot.proper_of_unfold hdepth') hkeys', hcount]

/-! ## A key set and its repetition -/

/-- The public component of a key. -/
def exampleComponent : Text := ascii "11qYAYKxCrfVS_7TyWQHOg7hcvPapiMlrwIaaPcHURo"

/-- The thumbprint of the key. -/
def exampleThumbprint : Text := ascii "kPrK_qmxVWaYVA9wwBF6Iuo3vVzz7TxHCTwXBygrS4k"

/-- A backend that imports the key, and a hash function with its thumbprint. -/
noncomputable def exampleJwksHost : JwksHost where
  format := .chosen
  createPublicKey members :=
    if members = ed25519Members exampleComponent then
      some ⟨ascii "public", ascii "ed25519", members, (Base64.urlDecode exampleComponent).getD []⟩
    else none
  sha256 _ := (Base64.urlDecode exampleThumbprint).getD []

/-- The members of the key. -/
def exampleEntry : JwkRecord := [(ascii "kty", .text (ascii "OKP")), (ascii "crv", .text (ascii "Ed25519")),
  (ascii "x", .text exampleComponent)]

/-- A set with the key, and one that has it twice. -/
def exampleSets : Snapshot.Heap
  | 0 => .plain ⟨[(ascii "keys", .data (.reference 1))], [], by decide⟩
  | 1 => .array [some (.data (.reference 4))]
  | 2 => .plain ⟨[(ascii "keys", .data (.reference 3))], [], by decide⟩
  | 3 => .array [some (.data (.reference 4)), some (.data (.reference 4))]
  | _ => .plain ⟨[(ascii "kty", .data (.text (ascii "OKP"))), (ascii "crv", .data (.text (ascii "Ed25519"))),
      (ascii "x", .data (.text exampleComponent))], [], by decide⟩

theorem denotes_exampleSets :
    Snapshot.Denotes exampleSets (.reference 0) (.object [(ascii "keys", .array [.object exampleEntry])]) ∧
      Snapshot.Denotes exampleSets (.reference 2)
        (.object [(ascii "keys", .array [.object exampleEntry, .object exampleEntry])]) :=
  ⟨⟨3, rfl⟩, ⟨3, rfl⟩⟩

/-- The octets of the texts of the sets. -/
theorem octetCount_exampleSets :
    octetCount (stringify exampleJwksHost.format
      (.object [(ascii "keys", .array [.object exampleEntry])])) = 90 ∧
    octetCount (stringify exampleJwksHost.format
      (.object [(ascii "keys", .array [.object exampleEntry, .object exampleEntry])])) = 170 := by
  constructor <;> decide +kernel

theorem loadEntry_exampleEntry : ∃ r, loadEntry exampleJwksHost .jwks 0 (.object exampleEntry) = .ok r := by
  have hok : (loadEntry exampleJwksHost .jwks 0 (.object exampleEntry)).isOk = true := by decide +kernel
  cases hload : loadEntry exampleJwksHost .jwks 0 (.object exampleEntry) with
  | ok r => exact ⟨r, rfl⟩
  | error d =>
    rw [hload] at hok
    cases hok

theorem ed25519Entry_exampleEntry : Ed25519Entry exampleEntry exampleComponent :=
  ⟨rfl, rfl, rfl⟩

theorem loadJwks_keys_exampleSets : ∃ jwks jwks',
    loadJwks exampleJwksHost exampleSets (.value (.reference 0)) .jwks .none = .ok jwks ∧
      loadJwks exampleJwksHost exampleSets (.value (.reference 2)) .jwks .none = .ok jwks' ∧
      (∃ key, jwks.lookup exampleThumbprint = .found key ∧ key.thumbprint = exampleThumbprint) ∧
      ∀ t, (jwks.lookup t).Agrees (jwks'.lookup t) := by
  obtain ⟨hloads, hlookups, hrearranged, -⟩ := loadJwks_keys exampleJwksHost exampleSets .jwks .none
    DEFAULT_PROFILE_LIMITS (by decide)
  have honce : HasEntries exampleJwksHost exampleSets DEFAULT_PROFILE_LIMITS (.value (.reference 0))
      [.object exampleEntry] :=
    (hasEntries_graph denotes_exampleSets.1 rfl).mpr (by rw [octetCount_exampleSets.1]; decide)
  have htwice : HasEntries exampleJwksHost exampleSets DEFAULT_PROFILE_LIMITS (.value (.reference 2))
      [.object exampleEntry, .object exampleEntry] :=
    (hasEntries_graph denotes_exampleSets.2 rfl).mpr (by rw [octetCount_exampleSets.2]; decide)
  have hrepeated := hrearranged _ _ _ _ honce htwice
    (.inr ⟨_, List.mem_singleton_self _, .refl _, by decide⟩)
  obtain ⟨r, hentry⟩ := loadEntry_exampleEntry
  obtain ⟨jwks, hload⟩ := (hloads _).mpr ⟨_, honce, by decide, fun entry hmem => by
    rw [List.mem_singleton.mp hmem]
    exact not_rejected_of_loadEntry hentry⟩
  obtain ⟨jwks', hload'⟩ := hrepeated.1.mp ⟨jwks, hload⟩
  refine ⟨jwks, jwks', hload, hload', ?_, ?_⟩
  · obtain ⟨key, hkey⟩ := (hlookups _ _ _ honce hload exampleThumbprint).1.mpr
      ⟨exampleEntry, exampleComponent, List.mem_singleton_self _, ed25519Entry_exampleEntry,
        ⟨.inl rfl, .inl rfl, .inl rfl⟩, by decide +kernel⟩
    exact ⟨key, hkey, (hlookups _ _ _ honce hload exampleThumbprint).2 key hkey⟩
  · apply hrepeated.2 _ jwks jwks' hload hload'
    -- the entries have one public component
    intro key key' x x' hmem hx hmem' hx' _
    cases List.mem_singleton.mp hmem
    cases List.mem_singleton.mp hmem'
    rw [hx.unique hx']

/-- Overrides that admit 90 octets. -/
def smallSets : ProfileLimitOverrides := { ProfileLimitOverrides.none with maxJwksBytes := some (.integer 90) }

/-- The repetition of an entry may exceed the byte limit though not the number of keys. -/
theorem loadJwks_repeated_entry : ∃ limits, resolveProfileLimits smallSets = .ok limits ∧
    2 ≤ limits.maxKeys ∧
    (∃ jwks, loadJwks exampleJwksHost exampleSets (.value (.reference 0)) .jwks smallSets = .ok jwks) ∧
    ∀ jwks, loadJwks exampleJwksHost exampleSets (.value (.reference 2)) .jwks smallSets ≠ .ok jwks := by
  have hlimits : resolveProfileLimits smallSets = .ok { DEFAULT_PROFILE_LIMITS with maxJwksBytes := 90 } := by
    decide
  refine ⟨_, hlimits, by decide, ?_, ?_⟩
  · obtain ⟨r, hentry⟩ := loadEntry_exampleEntry
    refine (exists_loadJwks_iff hlimits).mpr ⟨[.object exampleEntry], ?_, by decide, ?_⟩
    · exact (hasEntries_graph denotes_exampleSets.1 rfl).mpr (by rw [octetCount_exampleSets.1])
    · intro entry hmem
      rw [List.mem_singleton.mp hmem]
      exact not_rejected_of_loadEntry hentry
  · intro jwks hload
    obtain ⟨entries, members, hsnapshot, -⟩ := exists_entries_of_loadJwks hlimits hload
    obtain ⟨htree, hfits⟩ := (Snapshot.snapshotJwksInput_graph (by simp)).mp hsnapshot
    rw [htree.unique denotes_exampleSets.2, octetCount_exampleSets.2] at hfits
    exact absurd hfits (by decide)

end AgentSig.Profiles
