import AgentSig.Core.SignatureInput
import AgentSig.Profiles.Codes

/-!
# Duplicate screening

A structured-field parse resolves a repeated name to its last value. The signature headers
and the agent header are screened for repeated names first, on the raw document, so that a
value can hide no other value of the same name.

## Main definitions

* `parameters`, `member`, `dictionary`: the screen of one level of a raw document
* `assertNoSignatureDuplicates`, `assertNoAgentDuplicates`: the screens of the headers

## Main results

* `lastWins_of_dictionary`, `lastWins_of_member`: a screened document loses nothing when it is
  resolved
* `dictionary_of_lastWins`, `member_of_lastWins`: a document that loses nothing passes the screen
-/

namespace AgentSig.Profiles

open Commons Core StructuredFields

variable {code : InvalidCode}

/-- The loop that rejects the first name that was seen before. -/
def distinctNames (code : InvalidCode) : (seen : List Text) → List Text → Except ProfileError Unit
  | _, [] => return ()
  | seen, name :: rest => do
    require (name ∉ seen) (.duplicate code name)
    distinctNames code (name :: seen) rest

namespace Duplicates

/-- `parameters`. -/
def parameters (code : InvalidCode) (values : List RawParameter) : Except ProfileError Unit :=
  distinctNames code [] (values.map (·.key))

/-- `member`. -/
def member (code : InvalidCode) : RawMember → Except ProfileError Unit
  | .item value => parameters code value.parameters
  | .innerList value => do
    parameters code value.parameters
    value.items.forM fun item => parameters code item.parameters

/-- The loop of `dictionary`. -/
def entries (code : InvalidCode) : (seen : List Text) → List RawDictionaryEntry →
    Except ProfileError Unit
  | _, [] => return ()
  | seen, entry :: rest => do
    require (entry.key ∉ seen) (.duplicate code entry.key)
    member code entry.member
    entries code (entry.key :: seen) rest

/-- `dictionary`. -/
def dictionary (code : InvalidCode) (value : RawField) : Except ProfileError Unit :=
  entries code [] (rawEntries value)

end Duplicates

/-- `screen`. -/
def screen {α : Type} (code : InvalidCode) (operation : Except ProfileError α) :
    Except ProfileError α :=
  classify code operation

/-- One header of `assertNoSignatureDuplicates`, with the length of the texts so far. -/
def screenSignatureHeader (L : CoreLimits) (headers : List HeaderField) (total : ℕ) (name : Text) :
    Except ProfileError ℕ := do
  let values ← withCore (fieldValues headers name none)
  if values = [] then return total
  else do
    let text ← withCore (combineValues L .maxSignatureHeaderBytes values)
    let text ← withCore (requireAscii text)
    let total := total + text.length
    withCore (checkLimit L .maxSignatureHeaderBytes total)
    let raw ← withSf (parseRaw L.structuredFields (.text text) .dictionary)
    withCore (checkLimit L .maxSignatures (rawEntries raw.root).length)
    Duplicates.dictionary .malformedSignature raw.root
    return total

/-- `assertNoSignatureDuplicates`. -/
def assertNoSignatureDuplicates (L : CoreLimits) (headers : List HeaderField) :
    Except ProfileError Unit :=
  screen .malformedSignature do
    withCore (validateHeaders L headers)
    let total ← screenSignatureHeader L headers 0 (ascii "signature-input")
    let _ ← screenSignatureHeader L headers total (ascii "signature")
    return ()

/-- The first character of the text after blanks is a quotation mark. -/
def startsQuoted (text : Text) : Bool := (text.dropWhile blank).head? = some 34

/-- The grammar that `assertNoAgentDuplicates` selects. -/
def screenAgent (L : CoreLimits) (text : Text) : Except ProfileError Unit :=
  if startsQuoted text then do
    let raw ← withSf (parseRaw L.structuredFields (.text text) .item)
    match raw.root with
    | .item item => Duplicates.member .malformedAgent (.item item)
    | _ => return ()
  else do
    let raw ← withSf (parseRaw L.structuredFields (.text text) .dictionary)
    Duplicates.dictionary .malformedAgent raw.root

/-- `assertNoAgentDuplicates`. -/
def assertNoAgentDuplicates (L : CoreLimits) (text : Text) : Except ProfileError Unit :=
  screen .malformedAgent do
    withCore (checkLimit L .maxMessageHeaderBytes text.length)
    let _ ← withCore (requireAscii text)
    screenAgent L text

/-! ## Screened documents -/

theorem distinctNames_eq_ok {seen names : List Text} {u : Unit} :
    distinctNames code seen names = .ok u ↔ names.Nodup ∧ ∀ name ∈ names, name ∉ seen := by
  induction names generalizing seen with
  | nil => simp [distinctNames]
  | cons name names ih =>
    rw [List.forall_mem_cons]
    simp only [distinctNames, bind_eq_ok, require_eq_ok, exists_const, ih, List.nodup_cons,
      List.mem_cons, not_or]
    constructor
    · rintro ⟨hname, hnodup, hrest⟩
      exact ⟨⟨fun h => (hrest name h).1 rfl, hnodup⟩, hname, fun n h => (hrest n h).2⟩
    · rintro ⟨⟨hnotmem, hnodup⟩, hname, hrest⟩
      exact ⟨hname, hnodup, fun n h => ⟨fun he => hnotmem (he ▸ h), hrest n h⟩⟩

namespace Duplicates

theorem parameters_eq_ok {values : List RawParameter} {u : Unit} :
    parameters code values = .ok u ↔ (values.map (·.key)).Nodup := by
  simp [parameters, distinctNames_eq_ok]

theorem keys_occurrence (values : List RawParameter) :
    (values.map RawParameter.occurrence).map (·.1) = values.map (·.key) := by
  rw [List.map_map]
  rfl

theorem parameters_lastWins {values : List RawParameter} {u : Unit}
    (h : parameters code values = .ok u) :
    OrderedMap.lastWins (values.map RawParameter.occurrence) =
      values.map RawParameter.occurrence :=
  OrderedMap.lastWins_eq_self (by rw [keys_occurrence]; exact parameters_eq_ok.mp h)

theorem item_lastWins {item : RawItem} {u : Unit} (h : parameters code item.parameters = .ok u) :
    item.occurrence.lastWins = item.occurrence := by
  simp only [RawItem.occurrence, Item.lastWins, parameters_lastWins h]

/-- A screened member is its own resolution. -/
theorem lastWins_of_member {m : RawMember} {u : Unit} (h : member code m = .ok u) :
    m.occurrence.lastWins = m.occurrence := by
  cases m with
  | item item => exact congrArg Member.item (item_lastWins h)
  | innerList list =>
    simp only [member, bind_eq_ok, forM_eq_ok] at h
    obtain ⟨_, hparameters, hitems⟩ := h
    simp only [RawMember.occurrence, RawInnerList.occurrence, Member.lastWins, InnerList.lastWins,
      parameters_lastWins hparameters, List.map_map]
    have hmap : ∀ item ∈ list.items, (Item.lastWins ∘ RawItem.occurrence) item = item.occurrence :=
      fun item hitem => item_lastWins (hitems item hitem)
    rw [List.map_congr_left hmap]

theorem entries_spec {seen : List Text} {es : List RawDictionaryEntry} {u : Unit}
    (h : entries code seen es = .ok u) :
    (es.map (·.key)).Nodup ∧ (∀ e ∈ es, e.key ∉ seen) ∧ ∀ e ∈ es, member code e.member = .ok () := by
  induction es generalizing seen with
  | nil => simp
  | cons e es ih =>
    simp only [entries, bind_eq_ok, require_eq_ok, exists_const] at h
    obtain ⟨hkey, _, hmember, h⟩ := h
    obtain ⟨hnodup, hseen, hmembers⟩ := ih h
    refine ⟨?_, ?_, List.forall_mem_cons.mpr ⟨hmember, hmembers⟩⟩
    · refine List.nodup_cons.mpr ⟨fun hmem => ?_, hnodup⟩
      obtain ⟨e', he', heq⟩ := List.mem_map.mp hmem
      exact hseen e' he' (by simp [heq])
    · exact List.forall_mem_cons.mpr
        ⟨hkey, fun e' he' hmem => hseen e' he' (List.mem_cons_of_mem _ hmem)⟩

/-- A screened dictionary is its own resolution. -/
theorem lastWins_of_dictionary {r : RawField} {u : Unit} (h : dictionary code r = .ok u)
    {es : List (Text × Member)} (hr : r.occurrences = .dictionary es) :
    r.occurrences.lastWins = .dictionary es := by
  cases r with
  | item | list => simp [RawField.occurrences] at hr
  | dictionary d =>
    obtain ⟨hnodup, -, hmembers⟩ := entries_spec h
    simp only [RawField.occurrences, Field.dictionary.injEq] at hr
    subst hr
    have hkeys : ((d.entries.map RawDictionaryEntry.occurrence).map (·.1)).Nodup := by
      rw [List.map_map]
      exact hnodup
    simp only [RawField.occurrences, Field.lastWins, OrderedMap.lastWins_eq_self hkeys,
      List.map_map]
    refine congrArg Field.dictionary (List.map_congr_left fun e he => ?_)
    exact Prod.ext rfl (lastWins_of_member (hmembers e he))

/-! ## What is its own resolution -/

theorem nodup_of_lastWins {ν : Type} {m : List (Text × ν)} (h : OrderedMap.lastWins m = m) :
    (m.map (·.1)).Nodup := by
  rw [← h]
  exact OrderedMap.nodup_keys_lastWins m

theorem parameters_of_lastWins {values : List RawParameter}
    (h : OrderedMap.lastWins (values.map RawParameter.occurrence) =
      values.map RawParameter.occurrence) : parameters code values = .ok () := by
  apply parameters_eq_ok.mpr
  rw [← keys_occurrence]
  exact nodup_of_lastWins h

/-- A member is screened if it is its own resolution. -/
theorem member_of_lastWins {m : RawMember} (h : m.occurrence.lastWins = m.occurrence) :
    member code m = .ok () := by
  cases m with
  | item item => exact parameters_of_lastWins (congrArg Item.parameters (Member.item.inj h))
  | innerList list =>
    have h := Member.innerList.inj h
    have hitems : ∀ item ∈ list.items, item.occurrence.lastWins = item.occurrence := by
      have hmap := congrArg InnerList.items h
      simp only [RawInnerList.occurrence, InnerList.lastWins, List.map_map] at hmap
      exact List.map_inj_left.mp hmap
    have hforM : (list.items.forM fun item => parameters code item.parameters) = .ok () := by
      apply forM_eq_ok.mpr
      intro item hitem
      exact parameters_of_lastWins (congrArg Item.parameters (hitems item hitem))
    have hparameters : parameters code list.parameters = .ok () :=
      parameters_of_lastWins (congrArg InnerList.parameters h)
    simp only [member, hparameters, ok_bind, hforM]

theorem entries_of_members {seen : List Text} {es : List RawDictionaryEntry}
    (hnodup : (es.map (·.key)).Nodup) (hseen : ∀ e ∈ es, e.key ∉ seen)
    (hmembers : ∀ e ∈ es, member code e.member = .ok ()) : entries code seen es = .ok () := by
  induction es generalizing seen with
  | nil => rfl
  | cons e es ih =>
    obtain ⟨hkey, hnodup⟩ := List.nodup_cons.mp hnodup
    obtain ⟨hmember, hmembers⟩ := List.forall_mem_cons.mp hmembers
    obtain ⟨hfirst, hseen⟩ := List.forall_mem_cons.mp hseen
    have hrest : entries code (e.key :: seen) es = .ok () := by
      apply ih hnodup _ hmembers
      intro e' he' hmem
      rcases List.mem_cons.mp hmem with heq | hmem
      · exact hkey (List.mem_map.mpr ⟨e', he', heq⟩)
      · exact hseen e' he' hmem
    simp only [entries, require_of hfirst, ok_bind, hmember, hrest]

/-- A dictionary is screened if it is its own resolution. -/
theorem dictionary_of_lastWins {r : RawField} {es : List (Text × Member)}
    (hr : r.occurrences = .dictionary es) (h : r.occurrences.lastWins = r.occurrences) :
    dictionary code r = .ok () := by
  cases r with
  | item | list => simp [RawField.occurrences] at hr
  | dictionary d =>
    have h := Field.dictionary.inj h
    have hnodup : ((d.entries.map RawDictionaryEntry.occurrence).map (·.1)).Nodup := by
      rw [← h, List.map_map]
      exact OrderedMap.nodup_keys_lastWins _
    rw [OrderedMap.lastWins_eq_self hnodup, List.map_map] at h
    apply entries_of_members
    · rwa [List.map_map] at hnodup
    · intro e _ hmem
      cases hmem
    · intro e he
      exact member_of_lastWins (congrArg Prod.snd (List.map_inj_left.mp h e he))

end Duplicates

end AgentSig.Profiles
