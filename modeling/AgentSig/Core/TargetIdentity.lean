import AgentSig.Core.Targets

/-!
# Identity of targets

An accepted target has one spelling: a scheme, a host, a port, a path and a query. Its derived components
forget the case of the scheme and of the host, a port that is the default, and an empty path or query, and
nothing else.

## Main definitions

* `TargetSpelling`: the spelling of a target
* `SameTarget`: two spellings of one target

## Main results

* `exists_spelling`, `TargetSpelling.Valid.unique`: the spelling of an accepted target
* `targetParts_spelling`: the parts of an accepted target, from its spelling
* `sameTarget_iff`: two accepted targets have the same parts where they are the same target
-/

namespace AgentSig.Core

open Commons

/-- The spelling of a target. -/
structure TargetSpelling where
  scheme : Text
  host : Text
  port : Option Text
  path : Text
  query : Option Text
  deriving DecidableEq, Repr

/-- A port after its colon. -/
def portText (port : Option Text) : Text := port.elim [] (58 :: ·)

/-- A query after its question mark. -/
def queryText (query : Option Text) : Text := query.elim [] (63 :: ·)

/-- An address in brackets, or a host without the characters that end it. -/
def SpelledHost (host : Text) : Prop :=
  (∃ inner, host = 91 :: (inner ++ [93]) ∧ inner ≠ [] ∧ ∀ c ∈ inner, hexDigit c || c == 58 || c == 46) ∨
    (host ≠ [] ∧ host.head? ≠ some 91 ∧ ∀ c ∈ host, c ≠ 58 ∧ c ≠ 47 ∧ c ≠ 63 ∧ c ≠ 35)

namespace TargetSpelling

/-- The target of a spelling. -/
def text (s : TargetSpelling) : Text :=
  s.scheme ++ 58 :: 47 :: 47 :: (s.host ++ portText s.port ++ s.path ++ queryText s.query)

/-- The shape of the parts of a target. -/
structure Valid (s : TargetSpelling) : Prop where
  letter : s.scheme.head?.any letter
  scheme : ∀ c ∈ s.scheme, schemeChar c
  host : SpelledHost s.host
  port : ∀ p ∈ s.port, ∀ c ∈ p, digit c
  slash : s.path = [] ∨ s.path.head? = some 47
  path : ∀ c ∈ s.path, c ≠ 63 ∧ c ≠ 35
  query : ∀ q ∈ s.query, 35 ∉ q

/-- The default port of the scheme. -/
def defaultPort (s : TargetSpelling) : ℕ := if toLowerCase s.scheme = ascii "https" then 443 else 80

/-- The port, unless it is missing, empty, or the default port in any decimal spelling. -/
def effectivePort (s : TargetSpelling) : Option Text :=
  s.port.filter fun p => ¬ (p = [] ∨ readDigits 0 p = s.defaultPort)

end TargetSpelling

/-- Two spellings of one target: equal up to the case of the scheme and of the host, a default port or an empty
one versus none, an empty path versus a slash, and an empty query versus none. -/
structure SameTarget (s t : TargetSpelling) : Prop where
  scheme : toLowerCase s.scheme = toLowerCase t.scheme
  host : toLowerCase s.host = toLowerCase t.host
  port : s.port = t.port ∨ s.effectivePort = none ∧ t.effectivePort = none
  path : s.path = t.path ∨ (s.path = [] ∨ s.path = [47]) ∧ (t.path = [] ∨ t.path = [47])
  query : s.query = t.query ∨ (s.query = none ∨ s.query = some []) ∧ (t.query = none ∨ t.query = some [])

variable {P : Platform} {L : CoreLimits} {request request' : RequestParts} {parts parts' : TargetParts}
  {s t : TargetSpelling} {host : Text} {port : Option Text}

/-! ## Authorities -/

theorem splitPort_portText (hport : ∀ p ∈ port, ∀ c ∈ p, digit c) : splitPort (portText port) = some port := by
  cases port with
  | none => rfl
  | some p =>
    have hdigits : p.all digit := List.all_eq_true.mpr (hport p rfl)
    simp [splitPort, portText, hdigits]

theorem startsWithout_portText {p : UInt16 → Bool} (h : p 58 = false) (port : Option Text) :
    StartsWithout p (portText port) := by
  cases port with
  | none => exact .nil
  | some port => exact startsWithout_cons.mpr h

/-- A host and a port are read back from an authority. -/
theorem splitAuthority_append (hhost : SpelledHost host) (hport : ∀ p ∈ port, ∀ c ∈ p, digit c) :
    splitAuthority (host ++ portText port) = some (host, port) := by
  have hsuffix := splitPort_portText hport
  rcases hhost with ⟨inner, rfl, hne, hchars⟩ | ⟨hne, hhead, hchars⟩
  · have hclosed : StartsWithout (fun c => hexDigit c || c == 58 || c == 46) (93 :: portText port) := by
      rw [startsWithout_cons]
      decide
    have hshape : (91 :: (inner ++ [93])) ++ portText port = 91 :: (inner ++ 93 :: portText port) := by simp
    rw [hshape]
    unfold splitAuthority
    rw [if_pos List.head?_cons]
    dsimp only [List.tail_cons]
    rw [takeWhile_run hchars hclosed, dropWhile_run hchars hclosed]
    simp [hne, hsuffix]
  · have hchars' (c : UInt16) (hc : c ∈ host) : (c != 58) = true := by simpa using (hchars c hc).1
    have hstop : StartsWithout (· != 58) (portText port) := startsWithout_portText (by decide) port
    unfold splitAuthority
    rw [if_neg (by rwa [List.head?_append_of_ne_nil _ hne])]
    dsimp only
    rw [takeWhile_run hchars' hstop, dropWhile_run hchars' hstop, if_neg hne, hsuffix]
    rfl

theorem portText_of_splitPort {t : Text} (h : splitPort t = some port) :
    t = portText port ∧ ∀ p ∈ port, ∀ c ∈ p, digit c := by
  unfold splitPort at h
  split at h
  · obtain rfl := Option.some.inj h
    exact ⟨rfl, by simp⟩
  · split at h
    · rename_i hdigits
      obtain rfl := Option.some.inj h
      simp only [Bool.and_eq_true, decide_eq_true_eq, List.all_eq_true] at hdigits
      obtain ⟨rfl, hdigits⟩ := hdigits
      refine ⟨rfl, fun p hp => ?_⟩
      obtain rfl := Option.mem_some.mp hp
      exact hdigits
    · simp at h

/-- An authority is split into a host and a port. -/
theorem append_of_splitAuthority {authority : Text} (h : splitAuthority authority = some (host, port))
    (hchars : ∀ c ∈ authority, c ≠ 47 ∧ c ≠ 63 ∧ c ≠ 35) :
    authority = host ++ portText port ∧ SpelledHost host ∧ ∀ p ∈ port, ∀ c ∈ p, digit c := by
  unfold splitAuthority at h
  split at h
  · rename_i hbracket
    obtain ⟨rest, rfl⟩ : ∃ rest, authority = 91 :: rest := by
      cases authority with
      | nil => simp at hbracket
      | cons c rest => exact ⟨rest, by simpa using hbracket⟩
    dsimp only [List.tail_cons] at h
    have hrest := List.takeWhile_append_dropWhile (p := fun c => hexDigit c || c == 58 || c == 46) (l := rest)
    split at h
    · rename_i after hclose
      split at h
      · simp at h
      · rename_i hne
        obtain ⟨port', hport, hpair⟩ := Option.map_eq_some_iff.mp h
        obtain ⟨rfl, rfl⟩ := Prod.mk.inj hpair
        obtain ⟨rfl, hdigits⟩ := portText_of_splitPort hport
        rw [hclose] at hrest
        refine ⟨?_, .inl ⟨_, rfl, hne, fun c hc => ?_⟩, hdigits⟩
        swap
        · exact List.mem_takeWhile_imp (p := fun c => hexDigit c || c == 58 || c == 46) hc
        conv_lhs => rw [← hrest]
        simp
    · simp at h
  · rename_i hhead
    dsimp only at h
    have hrest := List.takeWhile_append_dropWhile (p := fun c : UInt16 => c != 58) (l := authority)
    split at h
    · simp at h
    · rename_i hne
      obtain ⟨port', hport, hpair⟩ := Option.map_eq_some_iff.mp h
      obtain ⟨rfl, rfl⟩ := Prod.mk.inj hpair
      obtain ⟨hafter, hdigits⟩ := portText_of_splitPort hport
      rw [hafter] at hrest
      refine ⟨hrest.symm, .inr ⟨hne, ?_, fun c hc => ?_⟩, hdigits⟩
      · rw [← hrest, List.head?_append_of_ne_nil _ hne] at hhead
        exact hhead
      · have hmem := (List.takeWhile_sublist (fun c : UInt16 => c != 58)).subset hc
        exact ⟨by simpa using List.mem_takeWhile_imp (p := fun c : UInt16 => c != 58) hc, hchars c hmem⟩

/-! ## Spellings -/

namespace TargetSpelling

theorem Valid.host_chars (h : s.Valid) : ∀ c ∈ s.host, c ≠ 47 ∧ c ≠ 63 ∧ c ≠ 35 := by
  rcases h.host with ⟨inner, hhost, -, hchars⟩ | ⟨-, -, hchars⟩
  · intro c hc
    have hclass : (hexDigit c || c == 58 || c == 46) ∨ c = 91 ∨ c = 93 := by
      rw [hhost] at hc
      rcases List.mem_cons.mp hc with rfl | hc
      · exact .inr (.inl rfl)
      · rcases List.mem_append.mp hc with hc | hc
        · exact .inl (hchars c hc)
        · exact .inr (.inr (List.mem_singleton.mp hc))
    refine ⟨?_, ?_, ?_⟩
    all_goals rintro rfl; exact absurd hclass (by decide)
  · exact fun c hc => (hchars c hc).2

theorem Valid.port_chars (h : s.Valid) : ∀ c ∈ portText s.port, c ≠ 47 ∧ c ≠ 63 ∧ c ≠ 35 := by
  cases hport : s.port with
  | none => simp [portText]
  | some port =>
    intro c hc
    rcases List.mem_cons.mp hc with rfl | hc
    · decide
    · have hdigit := h.port port hport c hc
      refine ⟨?_, ?_, ?_⟩
      all_goals rintro rfl; exact absurd hdigit (by decide)

/-- The parts of a target are read back from it. -/
theorem Valid.splitTarget (h : s.Valid) :
    splitTarget s.text = some (s.scheme, s.host ++ portText s.port, s.path, s.query.map (63 :: ·)) := by
  have hcolon : StartsWithout schemeChar (58 :: 47 :: 47 :: (s.host ++ portText s.port ++ s.path ++
      queryText s.query)) := by
    rw [startsWithout_cons]
    decide
  have hauthority : ∀ c ∈ s.host ++ portText s.port, (c != 47 && c != 63 && c != 35) = true := by
    intro c hc
    have hchars : c ≠ 47 ∧ c ≠ 63 ∧ c ≠ 35 :=
      (List.mem_append.mp hc).elim (h.host_chars c) (h.port_chars c)
    simp [hchars]
  have hnext : StartsWithout (fun c => c != 47 && c != 63 && c != 35) (s.path ++ queryText s.query) := by
    rcases h.slash with hpath | hslash
    · rw [hpath, List.nil_append]
      cases s.query with
      | none => exact .nil
      | some query => exact startsWithout_cons.mpr (by decide)
    · obtain ⟨path, hpath⟩ : ∃ path, s.path = 47 :: path := by
        cases hpath : s.path with
        | nil => simp [hpath] at hslash
        | cons c path => exact ⟨path, by simpa [hpath] using hslash⟩
      rw [hpath]
      exact startsWithout_cons.mpr (by decide)
  have hpath : ∀ c ∈ s.path, (c != 63 && c != 35) = true := fun c hc => by simp [h.path c hc]
  have hmark : StartsWithout (fun c => c != 63 && c != 35) (queryText s.query) := by
    cases s.query with
    | none => exact .nil
    | some query => exact startsWithout_cons.mpr (by decide)
  have hne : s.host ++ portText s.port ≠ [] := by
    rcases h.host with ⟨inner, hhost, -, -⟩ | ⟨hhost, -, -⟩
    · simp [hhost]
    · simp [hhost]
  have hfragment : (queryText s.query).contains 35 = false := by
    rw [Bool.eq_false_iff, ne_eq, List.contains_iff_mem]
    cases hquery : s.query with
    | none => simp [queryText]
    | some query => simpa [queryText] using h.query query hquery
  unfold Core.splitTarget text
  dsimp only
  rw [takeWhile_run h.scheme hcolon, dropWhile_run h.scheme hcolon]
  simp only []
  rw [List.append_assoc (s.host ++ portText s.port), takeWhile_run hauthority hnext,
    dropWhile_run hauthority hnext, takeWhile_run hpath hmark, dropWhile_run hpath hmark, h.letter, hfragment,
    if_neg (by simpa using hne)]
  cases s.query with
  | none => rfl
  | some query => rfl

/-- A target has one spelling. -/
theorem Valid.unique (h : s.Valid) (h' : t.Valid) (heq : s.text = t.text) : s = t := by
  have hsplit := h.splitTarget
  rw [heq, h'.splitTarget] at hsplit
  obtain ⟨hscheme, hauthority, hpath, hquery⟩ : t.scheme = s.scheme ∧
      t.host ++ portText t.port = s.host ++ portText s.port ∧ t.path = s.path ∧
      t.query.map (63 :: ·) = s.query.map (63 :: ·) := by
    simpa using hsplit
  have hsame := splitAuthority_append h'.host h'.port
  rw [hauthority, splitAuthority_append h.host h.port] at hsame
  obtain ⟨hhost, hport⟩ := Prod.mk.inj (Option.some.inj hsame)
  have hquery' : t.query = s.query :=
    Option.map_injective (fun _ _ heq => (List.cons.inj heq).2) hquery
  obtain ⟨scheme, host, port, path, query⟩ := s
  obtain ⟨scheme', host', port', path', query'⟩ := t
  simp_all

end TargetSpelling

/-- A target that is split has a spelling. -/
theorem exists_spelling {target scheme authority path : Text} {query : Option Text}
    (htarget : splitTarget target = some (scheme, authority, path, query))
    (hauthority : splitAuthority authority = some (host, port)) :
    ∃ s : TargetSpelling, s.Valid ∧ s.text = target ∧ s.scheme = scheme ∧ s.host = host ∧ s.port = port ∧
      s.path = path ∧ s.query.map (63 :: ·) = query := by
  unfold splitTarget at htarget
  dsimp only at htarget
  have hscheme := List.takeWhile_append_dropWhile (p := schemeChar) (l := target)
  split at htarget
  · rename_i rest hprotocol
    rw [hprotocol] at hscheme
    have hrest := List.takeWhile_append_dropWhile (p := fun c => c != 47 && c != 63 && c != 35) (l := rest)
    have hstart := startsWithout_dropWhile (p := fun c => c != 47 && c != 63 && c != 35) rest
    generalize hafter : rest.dropWhile (fun c => c != 47 && c != 63 && c != 35) = after at *
    have hpath := List.takeWhile_append_dropWhile (p := fun c => c != 63 && c != 35) (l := after)
    have hquery := startsWithout_dropWhile (p := fun c => c != 63 && c != 35) after
    split at htarget
    · simp at htarget
    · rename_i hguard
      obtain ⟨rfl, rfl, rfl, rfl⟩ : target.takeWhile schemeChar = scheme ∧
          rest.takeWhile (fun c => c != 47 && c != 63 && c != 35) = authority ∧
          after.takeWhile (fun c => c != 63 && c != 35) = path ∧
          (if after.dropWhile (fun c => c != 63 && c != 35) = [] then none
            else some (after.dropWhile fun c => c != 63 && c != 35)) = query := by
        simpa using htarget
      have hpathChars (c : UInt16) (hc : c ∈ after.takeWhile fun c => c != 63 && c != 35) : c ≠ 63 ∧ c ≠ 35 := by
        simpa using List.mem_takeWhile_imp (p := fun c : UInt16 => c != 63 && c != 35) hc
      have hauthorityChars (c : UInt16) (hc : c ∈ rest.takeWhile fun c => c != 47 && c != 63 && c != 35) :
          c ≠ 47 ∧ c ≠ 63 ∧ c ≠ 35 := by
        simpa [and_assoc] using List.mem_takeWhile_imp (p := fun c : UInt16 => c != 47 && c != 63 && c != 35) hc
      have hschemeChars (c : UInt16) (hc : c ∈ target.takeWhile schemeChar) : schemeChar c :=
        List.mem_takeWhile_imp hc
      have hslash : after.takeWhile (fun c => c != 63 && c != 35) = [] ∨
          (after.takeWhile (fun c => c != 63 && c != 35)).head? = some 47 := by
        cases after with
        | nil => exact .inl rfl
        | cons c after =>
          have hc := startsWithout_cons.mp hstart
          by_cases hpathChar : (c != 63 && c != 35) = true
          · right
            rw [List.takeWhile_cons_of_pos (p := fun c => c != 63 && c != 35) hpathChar, List.head?_cons]
            simp only [Bool.and_assoc, hpathChar, Bool.and_true, bne_eq_false_iff_eq] at hc
            rw [hc]
          · exact .inl (List.takeWhile_cons_of_neg (p := fun c => c != 63 && c != 35) hpathChar)
      generalize after.takeWhile (fun c => c != 63 && c != 35) = path at *
      generalize after.dropWhile (fun c => c != 63 && c != 35) = tail at *
      generalize rest.takeWhile (fun c => c != 47 && c != 63 && c != 35) = authority at *
      generalize target.takeWhile schemeChar = scheme at *
      simp only [Bool.or_eq_true, not_or, Bool.not_eq_true', Bool.not_eq_false, decide_eq_true_eq] at hguard
      obtain ⟨⟨hletter, -⟩, hfragment⟩ := hguard
      obtain ⟨rfl, hhost, hport⟩ := append_of_splitAuthority hauthority hauthorityChars
      have hspelling (query : Option Text) (hsame : tail = queryText query) (hhash : ∀ q ∈ query, 35 ∉ q) :
          (⟨scheme, host, port, path, query⟩ : TargetSpelling).Valid ∧
            (⟨scheme, host, port, path, query⟩ : TargetSpelling).text = target := by
        refine ⟨⟨hletter, hschemeChars, hhost, hport, hslash, hpathChars, hhash⟩, ?_⟩
        rw [← hscheme, ← hrest, ← hpath, hsame]
        simp [TargetSpelling.text]
      cases tail with
      | nil =>
        obtain ⟨hvalid, htext⟩ := hspelling none rfl (by simp)
        exact ⟨_, hvalid, htext, rfl, rfl, rfl, rfl, rfl⟩
      | cons c query =>
        have hc := startsWithout_cons.mp hquery
        obtain rfl : c = 63 := by
          by_contra hne
          obtain rfl : c = 35 := by simpa [hne] using hc
          simp at hfragment
        obtain ⟨hvalid, htext⟩ := hspelling (some query) rfl fun q hq hmem => by
          obtain rfl := Option.mem_some.mp hq
          simp [hmem] at hfragment
        exact ⟨_, hvalid, htext, rfl, rfl, rfl, rfl, by simp⟩
  · simp at htarget

/-! ## Parts -/

/-- The parts of an accepted target, from its spelling. -/
theorem targetParts_spelling {target : Text} (h : targetParts P L target = .ok parts) :
    ∃ s : TargetSpelling, s.Valid ∧ s.text = target ∧ parts = {
      original := target
      scheme := toLowerCase s.scheme
      authority := toLowerCase s.host ++ portText s.effectivePort
      path := if s.path = [] then [47] else s.path
      query := 63 :: s.query.getD [] } := by
  simp only [targetParts, bind_eq_ok, require_eq_ok, exists_const] at h
  obtain ⟨-, -, -, h⟩ := h
  split at h
  · simp at h
  · rename_i scheme authority path query htarget
    simp only [bind_eq_ok, require_eq_ok, exists_const] at h
    obtain ⟨-, -, h⟩ := h
    split at h
    · simp at h
    · rename_i host port hauthority
      simp only [bind_eq_ok, require_eq_ok, exists_const, pure_eq_ok] at h
      obtain ⟨-, rfl⟩ := h
      obtain ⟨s, hvalid, htext, rfl, rfl, rfl, rfl, rfl⟩ := exists_spelling htarget hauthority
      refine ⟨s, hvalid, htext, ?_⟩
      simp only [TargetParts.mk.injEq, true_and]
      refine ⟨?_, ?_⟩
      · unfold TargetSpelling.effectivePort TargetSpelling.defaultPort
        generalize (if toLowerCase s.scheme = ascii "https" then 443 else 80) = default
        cases s.port with
        | none => simp [portText]
        | some port =>
          dsimp only
          split
          · rename_i hdefault
            rw [Option.filter_some_neg (by simpa [or_iff_not_imp_left] using hdefault)]
            simp [portText]
          · rename_i hdefault
            rw [Option.filter_some_pos (by simpa using hdefault)]
            rfl
      · cases s.query with
        | none => rfl
        | some query => rfl

/-- Lower case keeps the shape of a host. -/
theorem SpelledHost.lower (h : SpelledHost host) : SpelledHost (toLowerCase host) := by
  rcases h with ⟨inner, rfl, hne, hchars⟩ | ⟨hne, hhead, hchars⟩
  · refine .inl ⟨toLowerCase inner, toLowerCase_bracketed inner, toLowerCase_ne_nil hne, fun c hc => ?_⟩
    obtain ⟨d, hd, rfl⟩ := List.mem_map.mp hc
    have hclass := hchars d hd
    split
    · rename_i hupper
      simp only [hexDigit, digit] at hclass ⊢
      simp only [Bool.or_eq_true, Bool.and_eq_true, decide_eq_true_eq, beq_iff_eq,
        UInt16.le_iff_toNat_le, UInt16.toNat_add, UInt16.reduceToNat, ← UInt16.toNat_inj] at hclass hupper ⊢
      omega
    · exact hclass
  · refine .inr ⟨toLowerCase_ne_nil hne, ?_, fun c hc => ?_⟩
    · cases host with
      | nil => exact absurd rfl hne
      | cons c host =>
        rw [toLowerCase, List.map_cons, List.head?_cons]
        rw [List.head?_cons] at hhead
        split
        · rename_i hupper
          intro heq
          have hlower := Option.some.inj heq
          simp only [UInt16.le_iff_toNat_le, UInt16.toNat_add, UInt16.reduceToNat, ← UInt16.toNat_inj] at hlower hupper
          omega
        · exact hhead
    · have hother : (c != 58 && c != 47 && c != 63 && c != 35) = true := by
        refine mem_toLowerCase (p := fun c => c != 58 && c != 47 && c != 63 && c != 35) (fun d h97 _ => ?_)
          (fun d hd => by simp [hchars d hd]) c hc
        simp only [UInt16.le_iff_toNat_le, UInt16.reduceToNat] at h97
        simp only [Bool.and_eq_true, bne_iff_ne, ne_eq, ← UInt16.toNat_inj, UInt16.reduceToNat]
        omega
      simpa [and_assoc] using hother

theorem TargetSpelling.Valid.effectivePort (h : s.Valid) : ∀ p ∈ s.effectivePort, ∀ c ∈ p, digit c := by
  intro p hp
  exact h.port p (Option.filter_eq_some_iff.mp hp).1

theorem effectivePort_eq_iff (hscheme : toLowerCase s.scheme = toLowerCase t.scheme) :
    s.effectivePort = t.effectivePort ↔
      s.port = t.port ∨ s.effectivePort = none ∧ t.effectivePort = none := by
  have hdefault : s.defaultPort = t.defaultPort := by
    unfold TargetSpelling.defaultPort
    rw [hscheme]
  constructor
  · intro heq
    cases hport : s.effectivePort with
    | none => exact .inr ⟨rfl, heq ▸ hport⟩
    | some p =>
      have hport' : t.effectivePort = some p := heq ▸ hport
      exact .inl ((Option.filter_eq_some_iff.mp hport).1.trans (Option.filter_eq_some_iff.mp hport').1.symm)
  · rintro (hport | ⟨hport, hport'⟩)
    · unfold TargetSpelling.effectivePort
      rw [hport, hdefault]
    · rw [hport, hport']

/-- The parts of two targets are equal where the targets are the same. -/
theorem sameTarget_iff (hs : s.Valid) (ht : t.Valid) :
    (toLowerCase s.scheme = toLowerCase t.scheme ∧
      toLowerCase s.host ++ portText s.effectivePort = toLowerCase t.host ++ portText t.effectivePort ∧
      (if s.path = [] then [47] else s.path) = (if t.path = [] then [47] else t.path) ∧
      63 :: s.query.getD [] = 63 :: t.query.getD []) ↔ SameTarget s t := by
  have hauthority : toLowerCase s.host ++ portText s.effectivePort =
      toLowerCase t.host ++ portText t.effectivePort ↔
        toLowerCase s.host = toLowerCase t.host ∧ s.effectivePort = t.effectivePort := by
    constructor
    · intro heq
      have hsplit := splitAuthority_append hs.host.lower hs.effectivePort
      rw [heq, splitAuthority_append ht.host.lower ht.effectivePort] at hsplit
      obtain ⟨hhost, hport⟩ := Prod.mk.inj (Option.some.inj hsplit)
      exact ⟨hhost.symm, hport.symm⟩
    · rintro ⟨hhost, hport⟩
      rw [hhost, hport]
  have hpath : (if s.path = [] then [47] else s.path) = (if t.path = [] then [47] else t.path) ↔
      s.path = t.path ∨ (s.path = [] ∨ s.path = [47]) ∧ (t.path = [] ∨ t.path = [47]) := by
    by_cases hs' : s.path = []
    · by_cases ht' : t.path = []
      · simp [hs', ht']
      · simp [hs', ht', eq_comm]
    · by_cases ht' : t.path = []
      · simp [hs', ht']
      · rw [if_neg hs', if_neg ht']
        refine ⟨.inl, ?_⟩
        rintro (heq | ⟨hs'', ht''⟩)
        · exact heq
        · rw [hs''.resolve_left hs', ht''.resolve_left ht']
  have hquery : 63 :: s.query.getD [] = 63 :: t.query.getD [] ↔
      s.query = t.query ∨ (s.query = none ∨ s.query = some []) ∧ (t.query = none ∨ t.query = some []) := by
    cases s.query with
    | none => cases t.query <;> simp [eq_comm]
    | some q =>
      cases t.query with
      | none => simp
      | some q' =>
        simp only [Option.getD_some, List.cons.injEq, true_and, Option.some.injEq, reduceCtorEq, false_or]
        refine ⟨.inl, ?_⟩
        rintro (heq | ⟨rfl, rfl⟩)
        · exact heq
        · rfl
  rw [hauthority, hpath, hquery]
  constructor
  · rintro ⟨hscheme, ⟨hhost, hport⟩, hpath, hquery⟩
    exact ⟨hscheme, hhost, (effectivePort_eq_iff hscheme).mp hport, hpath, hquery⟩
  · rintro ⟨hscheme, hhost, hport, hpath, hquery⟩
    exact ⟨hscheme, ⟨hhost, (effectivePort_eq_iff hscheme).mpr hport⟩, hpath, hquery⟩

end AgentSig.Core
