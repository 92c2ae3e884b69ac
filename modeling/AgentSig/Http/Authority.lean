import AgentSig.Http.Types
import AgentSig.Profiles.AgentOrigin

/-!
# HTTP authorities

The authority of a request is a host with an optional port. Its spelling is checked before the platform
parses it, and only the host that origins are compared by is canonical: requests keep the spelling.

## Main definitions

* `HttpAuthority`, `parseHttpAuthority`: an authority, and its parser
* `httpOriginKey`: the key that origins are compared by
* `HostText`, `authorityText`: the hosts that the parser accepts, and their spelling with a port

## Main results

* `splitHttpAuthority_authorityText`, `splitHttpAuthority_spec`: an authority splits in one way
* `parseHttpAuthority_spec`: what a parsed authority is
-/

namespace AgentSig.Http

open Commons Core Profiles

/-- `"http" | "https"`. -/
inductive HttpScheme
  | http
  | https
  deriving DecidableEq, Repr

/-- The text of a scheme. -/
def HttpScheme.text : HttpScheme → Text
  | .http => ascii "http"
  | .https => ascii "https"

/-- The port that a scheme implies. -/
def HttpScheme.defaultPort : HttpScheme → ℕ
  | .http => 80
  | .https => 443

/-- What ends a mapping early: a rejection, or an error of the platform. -/
inductive MappingFailure
  | rejected (code : HttpMappingErrorCode)
  | thrown
  deriving DecidableEq, Repr

/-- `rejectMapping`. -/
def rejectMapping (code : HttpMappingErrorCode) : MappingFailure := .rejected code

/-- `HttpAuthority`. -/
structure HttpAuthority where
  original : Text
  canonicalHost : Text
  port : Option ℕ
  deriving DecidableEq, Repr

/-- A character of `[0-9a-fA-F:.]`. -/
def ipChar (c : UInt16) : Bool := hexDigit c || c == 58 || c == 46

/-- A character of `[A-Za-z0-9._-]`. -/
def hostChar (c : UInt16) : Bool := letter c || digit c || c == 46 || c == 95 || c == 45

/-- The groups of `(?::([0-9]+))?$`. -/
def portSuffix : Text → Option (Option Text)
  | [] => some none
  | c :: port => if c = 58 ∧ port ≠ [] ∧ port.all digit then some (some port) else none

/-- The groups of `/^(\[([0-9a-fA-F:.]+)\])(?::([0-9]+))?$/` or `/^([^:[\]]+)(?::([0-9]+))?$/`: the host and
the port. -/
def splitHttpAuthority (value : Text) : Option (Text × Option Text) :=
  if value.head? = some 91 then
    let inner := value.tail.takeWhile ipChar
    match value.tail.dropWhile ipChar with
    | 93 :: rest =>
      if inner = [] then none else (portSuffix rest).map fun port => (91 :: (inner ++ [93]), port)
    | _ => none
  else
    let host := value.takeWhile fun c => c != 58 && c != 91 && c != 93
    if host = [] then none
    else (portSuffix (value.dropWhile fun c => c != 58 && c != 91 && c != 93)).map fun port => (host, port)

/-- The URL of a host, whose parsed host name is compared. -/
def hostUrl (host : Text) : Text := ascii "https://" ++ host ++ ascii "/"

/-- The canonical host of an IPv6 address in brackets. -/
def numericHost (O : OriginPlatform) (host : Text) : Except MappingFailure Text := do
  require (O.isIP host.tail.dropLast = 6) (rejectMapping .requestMalformed)
  match O.url (hostUrl host) with
  | none => throw (rejectMapping .requestMalformed)
  | some checked => return checked.hostname

/-- The canonical host of a name or an IPv4 address. -/
def namedHost (O : OriginPlatform) (host : Text) : Except MappingFailure Text := do
  require (host.all hostChar) (rejectMapping .requestMalformed)
  let lower := toLowerCase host
  match O.url (hostUrl host) with
  | none => throw (rejectMapping .requestMalformed)
  | some checked => do
    require (checked.hostname = lower ∧ checked.username = [] ∧ checked.password = [] ∧
      checked.pathname = [47] ∧ checked.search = [] ∧ checked.hash = []) (rejectMapping .requestMalformed)
    require (O.isIP checked.hostname = 4 → O.isIP host = 4) (rejectMapping .requestMalformed)
    return lower

/-- The port of its text. -/
def parsePort : Option Text → Except MappingFailure (Option ℕ)
  | none => return none
  | some portText => do
    require (portText.length ≤ 5) (rejectMapping .requestMalformed)
    let port := readDigits 0 portText
    require (1 ≤ port ∧ port ≤ 65535) (rejectMapping .requestMalformed)
    return some port

/-- The checks of `parseHttpAuthority` on the characters. -/
def authorityChars (value : Text) : Bool :=
  value ≠ [] && value.all (fun c => 0x21 ≤ c && c ≤ 0x7e) &&
    !value.any fun c => (ascii "\\@%/?#").contains c

/-- `parseHttpAuthority`. -/
def parseHttpAuthority (O : OriginPlatform) (value : Text) : Except MappingFailure HttpAuthority := do
  require (authorityChars value) (rejectMapping .requestMalformed)
  match splitHttpAuthority value with
  | none => throw (rejectMapping .requestMalformed)
  | some (host, portText) => do
    let canonicalHost ← (if value.head? = some 91 then numericHost O host else namedHost O host)
    let port ← parsePort portText
    return ⟨value, canonicalHost, port⟩

/-- `httpOriginKey`. -/
def httpOriginKey (scheme : HttpScheme) (authority : HttpAuthority) : Text :=
  scheme.text ++ ascii "://" ++ authority.canonicalHost ++ ascii ":" ++
    decimal (authority.port.getD scheme.defaultPort)

/-! ## Spellings -/

/-- A host: an address in brackets, or a name. -/
def HostText (host : Text) : Prop :=
  (∃ inner, host = 91 :: (inner ++ [93]) ∧ inner ≠ [] ∧ ∀ c ∈ inner, ipChar c) ∨
    host ≠ [] ∧ ∀ c ∈ host, hostChar c

/-- A port: digits, at least one. -/
def PortText (port : Text) : Prop := port ≠ [] ∧ ∀ c ∈ port, digit c

/-- The spelling of a host with an optional port. -/
def authorityText (host : Text) : Option Text → Text
  | none => host
  | some port => host ++ 58 :: port

variable {O : OriginPlatform} {host value : Text} {port portText : Option Text}

theorem ipChar_ne {c : UInt16} (h : ipChar c) : c ≠ 91 ∧ c ≠ 93 ∧ c ≠ 47 ∧ c ≠ 64 := by
  refine ⟨?_, ?_, ?_, ?_⟩
  all_goals rintro rfl; exact absurd h (by decide)

theorem hostChar_ne {c : UInt16} (h : hostChar c) :
    c ≠ 58 ∧ c ≠ 91 ∧ c ≠ 93 ∧ c ≠ 47 ∧ c ≠ 64 := by
  refine ⟨?_, ?_, ?_, ?_, ?_⟩
  all_goals rintro rfl; exact absurd h (by decide)

/-- What stands after a host: nothing, or a colon. -/
theorem authorityText_eq_append (host : Text) (port : Option Text) :
    ∃ rest, authorityText host port = host ++ rest ∧
      rest = port.elim [] fun port => 58 :: port := by
  cases port with
  | none => exact ⟨[], by simp [authorityText], rfl⟩
  | some port => exact ⟨58 :: port, rfl, rfl⟩

theorem portSuffix_eq_some {rest : Text} :
    portSuffix rest = some port ↔
      rest = (port.elim [] fun port => 58 :: port) ∧ ∀ p ∈ port, PortText p := by
  cases rest with
  | nil => cases port <;> simp [portSuffix]
  | cons c rest =>
    simp only [portSuffix]
    split
    · rename_i h
      obtain ⟨rfl, hne, hall⟩ := h
      constructor
      · intro h
        obtain rfl := Option.some.inj h
        refine ⟨rfl, fun p hp => ?_⟩
        obtain rfl := Option.some.inj hp
        exact ⟨hne, List.all_eq_true.mp hall⟩
      · rintro ⟨h, -⟩
        cases port with
        | none => simp at h
        | some port => rw [(List.cons.inj h).2]
    · rename_i hnot
      constructor
      · intro h
        simp at h
      · rintro ⟨h, hport⟩
        cases port with
        | none => simp at h
        | some port =>
          obtain ⟨rfl, rfl⟩ := List.cons.inj h
          obtain ⟨hne, hall⟩ := hport rest rfl
          exact absurd ⟨rfl, hne, List.all_eq_true.mpr hall⟩ hnot

theorem HostText.ne_nil (h : HostText host) : host ≠ [] := by
  rcases h with ⟨inner, rfl, -⟩ | ⟨hne, -⟩
  · simp
  · exact hne

/-- A host starts with a bracket exactly when it is an address. -/
theorem head?_authorityText (h : HostText host) (port : Option Text) :
    (authorityText host port).head? = host.head? := by
  obtain ⟨rest, heq, -⟩ := authorityText_eq_append host port
  rw [heq]
  exact List.head?_append_of_ne_nil _ h.ne_nil

/-- The spelling of a host with a port splits into them. -/
theorem splitHttpAuthority_authorityText (hhost : HostText host) (hport : ∀ p ∈ port, PortText p) :
    splitHttpAuthority (authorityText host port) = some (host, port) := by
  obtain ⟨rest, heq, hrest⟩ := authorityText_eq_append host port
  have hsuffix : portSuffix rest = some port := portSuffix_eq_some.mpr ⟨hrest, hport⟩
  have hstop : StartsWithout (fun c => c != 58 && c != 91 && c != 93) rest := by
    rw [hrest]
    cases port with
    | none => exact .nil
    | some port => simp
  rw [heq]
  rcases hhost with ⟨inner, rfl, hne, hchars⟩ | ⟨hne, hchars⟩
  · have hclosed : StartsWithout ipChar (93 :: rest) := by
      rw [startsWithout_cons]
      decide
    have hshape : (91 :: (inner ++ [93])) ++ rest = 91 :: (inner ++ 93 :: rest) := by simp
    rw [hshape]
    unfold splitHttpAuthority
    rw [if_pos List.head?_cons]
    dsimp only [List.tail_cons]
    rw [takeWhile_run hchars hclosed, dropWhile_run hchars hclosed]
    simp [hne, hsuffix]
  · have hchars' (c : UInt16) (hc : c ∈ host) : (c != 58 && c != 91 && c != 93) = true := by
      obtain ⟨h58, h91, h93, -⟩ := hostChar_ne (hchars c hc)
      simp [h58, h91, h93]
    have hhead : (host ++ rest).head? ≠ some 91 := by
      rw [List.head?_append_of_ne_nil _ hne]
      intro h
      exact (hostChar_ne (hchars 91 (List.mem_of_mem_head? h))).2.1 rfl
    unfold splitHttpAuthority
    rw [if_neg hhead]
    dsimp only
    rw [takeWhile_run hchars' hstop, dropWhile_run hchars' hstop, if_neg hne, hsuffix]
    rfl

/-- An authority is the spelling of what it splits into. -/
theorem splitHttpAuthority_spec (h : splitHttpAuthority value = some (host, port)) :
    value = authorityText host port ∧ (∀ p ∈ port, PortText p) ∧
      ((∃ inner, host = 91 :: (inner ++ [93]) ∧ inner ≠ [] ∧ (∀ c ∈ inner, ipChar c) ∧
        value.head? = some 91) ∨
      host ≠ [] ∧ value.head? ≠ some 91 ∧ ∀ c ∈ host, c ≠ 58 ∧ c ≠ 91 ∧ c ≠ 93) := by
  unfold splitHttpAuthority at h
  split at h
  · rename_i hhead
    dsimp only at h
    split at h
    · rename_i rest hrest
      split at h
      · simp at h
      · rename_i hne
        obtain ⟨port', hport', heq⟩ := Option.map_eq_some_iff.mp h
        obtain ⟨rfl, rfl⟩ := Prod.mk.inj heq
        obtain ⟨rfl, hall⟩ := portSuffix_eq_some.mp hport'
        refine ⟨?_, hall, .inl ⟨_, rfl, hne, fun c hc => List.mem_takeWhile_imp hc, hhead⟩⟩
        obtain ⟨t, rfl⟩ : ∃ t, value = 91 :: t := by
          cases value with
          | nil => simp at hhead
          | cons c t => exact ⟨t, by simpa using hhead⟩
        have hsplit := List.takeWhile_append_dropWhile (p := ipChar) (l := t)
        rw [List.tail_cons] at hrest ⊢
        rw [hrest] at hsplit
        cases port' with
        | none => simpa [authorityText] using hsplit.symm
        | some port => simpa [authorityText] using hsplit.symm
    · simp at h
  · rename_i hhead
    dsimp only at h
    split at h
    · simp at h
    · rename_i hne
      obtain ⟨port', hport', heq⟩ := Option.map_eq_some_iff.mp h
      obtain ⟨rfl, rfl⟩ := Prod.mk.inj heq
      obtain ⟨hrest, hall⟩ := portSuffix_eq_some.mp hport'
      refine ⟨?_, hall, .inr ⟨hne, hhead, fun c hc => ?_⟩⟩
      · have hsplit := List.takeWhile_append_dropWhile (p := fun c : UInt16 =>
          c != 58 && c != 91 && c != 93) (l := value)
        rw [hrest] at hsplit
        cases port' with
        | none => simpa [authorityText] using hsplit.symm
        | some port => simpa [authorityText] using hsplit.symm
      · have hchar := List.mem_takeWhile_imp hc
        simp only [Bool.and_eq_true, bne_iff_ne, ne_eq] at hchar
        exact ⟨hchar.1.1, hchar.1.2, hchar.2⟩

/-! ## Parsed authorities -/

/-- A port text that the parser accepts. -/
def ValidPort (port : Text) : Prop :=
  PortText port ∧ port.length ≤ 5 ∧ 1 ≤ readDigits 0 port ∧ readDigits 0 port ≤ 65535

/-- The canonical host of a host. -/
def canonicalHost (O : OriginPlatform) (host : Text) : Except MappingFailure Text :=
  if host.head? = some 91 then numericHost O host else namedHost O host

theorem parsePort_eq_ok {n : Option ℕ} (hport : ∀ p ∈ port, PortText p) :
    parsePort port = .ok n ↔ (∀ p ∈ port, ValidPort p) ∧ n = port.map (readDigits 0) := by
  cases port with
  | none =>
    simp only [parsePort, pure_eq_ok, Option.not_mem_none, false_implies, implies_true, true_and,
      Option.map_none]
    exact eq_comm
  | some p =>
    simp only [parsePort, bind_eq_ok, require_eq_ok, exists_const, pure_eq_ok, Option.mem_some_iff,
      forall_eq', Option.map_some, ValidPort]
    constructor
    · rintro ⟨hlength, hrange, rfl⟩
      exact ⟨⟨hport p rfl, hlength, hrange⟩, rfl⟩
    · rintro ⟨⟨-, hlength, hrange⟩, rfl⟩
      exact ⟨hlength, hrange, rfl⟩

theorem namedHost_hostChars {canonical : Text} (h : namedHost O host = .ok canonical) :
    ∀ c ∈ host, hostChar c := by
  simp only [namedHost, bind_eq_ok, require_eq_ok, exists_const] at h
  exact List.all_eq_true.mp h.1

/-- What a parsed authority is: the spelling of a host and a port, with the canonical host. -/
theorem parseHttpAuthority_spec {authority : HttpAuthority} (h : parseHttpAuthority O value = .ok authority) :
    ∃ host port, HostText host ∧ (∀ p ∈ port, ValidPort p) ∧ value = authorityText host port ∧
      canonicalHost O host = .ok authority.canonicalHost ∧ authority.original = value ∧
      authority.port = port.map (readDigits 0) := by
  unfold parseHttpAuthority at h
  simp only [bind_eq_ok, require_eq_ok, exists_const] at h
  obtain ⟨-, h⟩ := h
  split at h
  · simp at h
  · rename_i host port hsplit
    simp only [bind_eq_ok, pure_eq_ok] at h
    obtain ⟨canonical, hcanonical, n, hn, rfl⟩ := h
    obtain ⟨hvalue, hport, hhost⟩ := splitHttpAuthority_spec hsplit
    obtain ⟨hvalid, rfl⟩ := (parsePort_eq_ok hport).mp hn
    rcases hhost with ⟨inner, hinner, hne, hchars, hhead⟩ | ⟨hne, hhead, -⟩
    · have hhost : HostText host := .inl ⟨inner, hinner, hne, hchars⟩
      refine ⟨host, port, hhost, hvalid, hvalue, ?_, rfl, rfl⟩
      rw [canonicalHost, ← head?_authorityText hhost port, ← hvalue]
      exact hcanonical
    · rw [if_neg hhead] at hcanonical
      have hhost : HostText host := .inr ⟨hne, namedHost_hostChars hcanonical⟩
      refine ⟨host, port, hhost, hvalid, hvalue, ?_, rfl, rfl⟩
      rw [canonicalHost, ← head?_authorityText hhost port, ← hvalue, if_neg hhead]
      exact hcanonical

/-- The characters of hosts and ports. -/
theorem authorityText_chars (hhost : HostText host) (hport : ∀ p ∈ port, PortText p) {c : UInt16}
    (hc : c ∈ authorityText host port) : hostChar c ∨ c = 58 ∨ c = 91 ∨ c = 93 := by
  have hip {c : UInt16} (h : ipChar c) : hostChar c ∨ c = 58 := by
    simp only [ipChar, hexDigit, hostChar, letter, digit] at h ⊢
    grind
  have hdigit {c : UInt16} (h : digit c) : hostChar c := by
    simp only [hostChar] at h ⊢
    grind
  have hrest {c : UInt16} {p : Text} (hp : PortText p) (hc : c ∈ 58 :: p) : hostChar c ∨ c = 58 := by
    rcases List.mem_cons.mp hc with rfl | hc
    · exact .inr rfl
    · exact .inl (hdigit (hp.2 c hc))
  have hmem : hostChar c ∨ c = 58 ∨ c ∈ host := by
    cases port with
    | none => exact .inr (.inr hc)
    | some p =>
      rcases List.mem_append.mp hc with hc | hc
      · exact .inr (.inr hc)
      · exact (hrest (hport p rfl) hc).imp_right .inl
  rcases hmem with hc | hc | hc
  · exact .inl hc
  · exact .inr (.inl hc)
  · rcases hhost with ⟨inner, rfl, -, hchars⟩ | ⟨-, hchars⟩
    · rcases List.mem_cons.mp hc with rfl | hc
      · simp
      · rcases List.mem_append.mp hc with hc | hc
        · exact (hip (hchars c hc)).imp_right .inl
        · exact .inr (.inr (.inr (List.mem_singleton.mp hc)))
    · exact .inl (hchars c hc)

end AgentSig.Http
