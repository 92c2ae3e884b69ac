import AgentSig.Commons.Text
import Mathlib.Tactic.FinCases
import Mathlib.Tactic.IntervalCases

/-!
# Base64

The base64 encoding of octets (RFC 4648, Sections 4 and 5): three octets are four sextets,
and each sextet is one symbol of an alphabet. Decoding accepts a final group of two or three
symbols and drops the bits that pad it, whatever they are.

## Main definitions

* `encode`, `decode`: octets and sextets
* `symbol`, `sextet`: the standard alphabet
* `padded bs`: the padded text of some octets
* `urlSymbol`, `urlSextet`: the alphabet that is safe in URLs
* `Canonical n t`: `t` is the text of `n` octets

## Main results

* `decode_encode`: decoding inverts encoding
* `length_decode`: the octets of a number of sextets
* `sextet_symbol`: reading a symbol inverts writing it
* `urlDecode_urlEncode`: the text of some octets decodes to them
* `canonical_iff_decode`: decoding and encoding again finds the canonical texts
* `canonical_iff_last`: they differ from the others in the last symbol
-/

namespace Commons.Base64

/-- The sextets of some octets: a final group of one or two octets is padded with zero bits. -/
def encode : List UInt8 → List (Fin 64)
  | x :: y :: z :: rest =>
    .ofNat 64 (x.toNat / 4) :: .ofNat 64 (x.toNat % 4 * 16 + y.toNat / 16) ::
      .ofNat 64 (y.toNat % 16 * 4 + z.toNat / 64) :: .ofNat 64 (z.toNat % 64) :: encode rest
  | [x, y] =>
    [.ofNat 64 (x.toNat / 4), .ofNat 64 (x.toNat % 4 * 16 + y.toNat / 16),
      .ofNat 64 (y.toNat % 16 * 4)]
  | [x] => [.ofNat 64 (x.toNat / 4), .ofNat 64 (x.toNat % 4 * 16)]
  | [] => []

/-- The octets of some sextets. The bits that pad a final group are dropped. -/
def decode : List (Fin 64) → List UInt8
  | a :: b :: c :: d :: rest =>
    .ofNat (a.val * 4 + b.val / 16) :: .ofNat (b.val % 16 * 16 + c.val / 4) ::
      .ofNat (c.val % 4 * 64 + d.val) :: decode rest
  | [a, b, c] => [.ofNat (a.val * 4 + b.val / 16), .ofNat (b.val % 16 * 16 + c.val / 4)]
  | [a, b] => [.ofNat (a.val * 4 + b.val / 16)]
  | _ => []

theorem ofNat_eq_of_toNat {n : ℕ} {x : UInt8} (h : n = x.toNat) : UInt8.ofNat n = x := by
  rw [h, UInt8.ofNat_toNat]

/-- Decoding inverts encoding. -/
theorem decode_encode (bs : List UInt8) : decode (encode bs) = bs := by
  induction bs using encode.induct with
  | case1 x y z rest ih =>
    have hx := x.toNat_lt
    have hy := y.toNat_lt
    have hz := z.toNat_lt
    simp only [encode, decode, ih, Fin.val_ofNat, List.cons.injEq, and_true]
    exact ⟨ofNat_eq_of_toNat (by omega), ofNat_eq_of_toNat (by omega), ofNat_eq_of_toNat (by omega)⟩
  | case2 x y =>
    have hx := x.toNat_lt
    have hy := y.toNat_lt
    simp only [encode, decode, Fin.val_ofNat, List.cons.injEq, and_true]
    exact ⟨ofNat_eq_of_toNat (by omega), ofNat_eq_of_toNat (by omega)⟩
  | case3 x =>
    have hx := x.toNat_lt
    simp only [encode, decode, Fin.val_ofNat, List.cons.injEq, and_true]
    exact ofNat_eq_of_toNat (by omega)
  | case4 => rfl

theorem length_decode (ss : List (Fin 64)) : (decode ss).length = ss.length * 6 / 8 := by
  induction ss using decode.induct with
  | case1 a b c d rest ih => simp only [decode, List.length_cons, ih]; omega
  | case2 a b c => simp [decode]
  | case3 a b => simp [decode]
  | case4 ss h₁ h₂ h₃ =>
    match ss with
    | [] => simp [decode]
    | [a] => simp [decode]
    | [a, b] => exact absurd rfl (h₃ a b)
    | [a, b, c] => exact absurd rfl (h₂ a b c)
    | a :: b :: c :: d :: rest => exact absurd rfl (h₁ a b c d rest)

theorem length_encode (bs : List UInt8) : (encode bs).length = (bs.length * 4 + 2) / 3 := by
  induction bs using encode.induct with
  | case1 x y z rest ih => simp only [encode, List.length_cons, ih]; omega
  | case2 x y => simp [encode]
  | case3 x => simp [encode]
  | case4 => rfl

/-! ## The standard alphabet -/

/-- The symbol of a sextet. -/
def symbol (s : Fin 64) : UInt16 :=
  if s.val < 26 then .ofNat (65 + s.val)
  else if s.val < 52 then .ofNat (71 + s.val)
  else if s.val < 62 then .ofNat (s.val - 4)
  else if s.val = 62 then 43 else 47

/-- The sextet of a symbol. -/
def sextet (c : UInt16) : Option (Fin 64) :=
  if 65 ≤ c ∧ c ≤ 90 then some (.ofNat 64 (c.toNat - 65))
  else if 97 ≤ c ∧ c ≤ 122 then some (.ofNat 64 (c.toNat - 71))
  else if 48 ≤ c ∧ c ≤ 57 then some (.ofNat 64 (c.toNat + 4))
  else if c = 43 then some 62
  else if c = 47 then some 63
  else none

/-- Reading a symbol inverts writing it. -/
theorem sextet_symbol : ∀ s : Fin 64, sextet (symbol s) = some s := by decide

/-- The number of pad symbols that complete a final group of `n` sextets. -/
def padding (n : ℕ) : ℕ := (4 - n % 4) % 4

/-- The padded text of some octets. -/
def padded (bs : List UInt8) : Text :=
  (encode bs).map symbol ++ List.replicate (padding (encode bs).length) 61

/-- The octets of a text over the alphabet, or none if a unit is no symbol. -/
def decodeText (t : Text) : Option (List UInt8) := (t.mapM sextet).map decode

theorem mapM_sextet_map_symbol (ss : List (Fin 64)) : (ss.map symbol).mapM sextet = some ss := by
  induction ss with
  | nil => rfl
  | cons s ss ih => simp [List.mapM_cons, sextet_symbol, ih]

theorem decodeText_encode (bs : List UInt8) :
    decodeText ((encode bs).map symbol) = some bs := by
  rw [decodeText, mapM_sextet_map_symbol, Option.map_some, decode_encode]

theorem length_padded (bs : List UInt8) : (padded bs).length = 4 * ((bs.length + 2) / 3) := by
  simp only [padded, List.length_append, List.length_map, List.length_replicate, length_encode,
    padding]
  omega

/-! ## The alphabet of URLs -/

/-- The symbol of a sextet, in the alphabet that is safe in URLs. -/
def urlSymbol (s : Fin 64) : UInt16 :=
  if s.val = 62 then 45 else if s.val = 63 then 95 else symbol s

/-- The sextet of a symbol, in the alphabet that is safe in URLs. -/
def urlSextet (c : UInt16) : Option (Fin 64) :=
  if c = 45 then some 62
  else if c = 95 then some 63
  else if c = 43 ∨ c = 47 then none
  else sextet c

/-- Every symbol is ASCII. -/
theorem le_of_urlSextet {c : UInt16} (h : (urlSextet c).isSome) : c ≤ 127 := by
  unfold urlSextet sextet at h
  by_contra hlarge
  grind

/-- The text of some octets without padding, in the alphabet that is safe in URLs. -/
def urlEncode (bs : List UInt8) : Text := (encode bs).map urlSymbol

/-- The octets of a text over the alphabet that is safe in URLs. -/
def urlDecode (t : Text) : Option (List UInt8) := (t.mapM urlSextet).map decode

/-- Reading a symbol inverts writing it. -/
theorem urlSextet_urlSymbol : ∀ s : Fin 64, urlSextet (urlSymbol s) = some s := by decide

theorem mapM_urlSextet_map_urlSymbol (ss : List (Fin 64)) :
    (ss.map urlSymbol).mapM urlSextet = some ss := by
  induction ss with
  | nil => rfl
  | cons s ss ih => simp [List.mapM_cons, urlSextet_urlSymbol, ih]

/-- Decoding inverts encoding. -/
theorem urlDecode_urlEncode (bs : List UInt8) : urlDecode (urlEncode bs) = some bs := by
  rw [urlDecode, urlEncode, mapM_urlSextet_map_urlSymbol, Option.map_some, decode_encode]

/-- Octets are determined by their text. -/
theorem urlEncode_injective : Function.Injective urlEncode := by
  intro bs bs' h
  have hdecoded := congrArg urlDecode h
  rwa [urlDecode_urlEncode, urlDecode_urlEncode, Option.some.injEq] at hdecoded

theorem length_urlEncode (bs : List UInt8) : (urlEncode bs).length = (bs.length * 4 + 2) / 3 := by
  rw [urlEncode, List.length_map, length_encode]

theorem urlSextet_of_mem_urlEncode {bs : List UInt8} {c : UInt16} (h : c ∈ urlEncode bs) :
    (urlSextet c).isSome := by
  obtain ⟨s, -, rfl⟩ := List.mem_map.mp h
  rw [urlSextet_urlSymbol, Option.isSome_some]

/-! ## Canonical texts -/

/-- The text of some `n` octets. -/
def Canonical (n : ℕ) (t : Text) : Prop := ∃ bs : List UInt8, bs.length = n ∧ t = urlEncode bs

variable {n : ℕ} {t : Text}

theorem Canonical.length (h : Canonical n t) : t.length = (n * 4 + 2) / 3 := by
  obtain ⟨bs, rfl, rfl⟩ := h
  exact length_urlEncode bs

theorem Canonical.symbols (h : Canonical n t) : ∀ c ∈ t, (urlSextet c).isSome := by
  obtain ⟨bs, -, rfl⟩ := h
  intro c hc
  exact urlSextet_of_mem_urlEncode hc

/-- A canonical text is encoded again as itself. -/
theorem canonical_iff_decode : Canonical n t ↔
    ((urlDecode t).getD []).length = n ∧ urlEncode ((urlDecode t).getD []) = t := by
  constructor
  · rintro ⟨bs, rfl, rfl⟩
    rw [urlDecode_urlEncode]
    exact ⟨rfl, rfl⟩
  · rintro ⟨hlength, hencode⟩
    exact ⟨_, hlength, hencode.symm⟩

/-- Sextets with a final group of three come back if the two bits that pad it are zero. -/
theorem encode_decode {ss : List (Fin 64)} (hlength : ss.length % 4 = 3)
    (hlast : ∀ s ∈ ss.getLast?, s.val % 4 = 0) : encode (decode ss) = ss := by
  induction ss using decode.induct with
  | case1 a b c d rest ih =>
    have hrest : rest.length % 4 = 3 := by
      simp only [List.length_cons] at hlength
      omega
    have hne : rest ≠ [] := by
      rintro rfl
      simp at hrest
    have hrest' : encode (decode rest) = rest :=
      ih hrest fun s hs => hlast s (by simp [List.getLast?_cons, Option.mem_def.mp hs])
    simp only [decode, encode, hrest', UInt8.toNat_ofNat']
    simp only [List.cons.injEq, and_true, Fin.ext_iff, Fin.val_ofNat]
    omega
  | case2 a b c =>
    have hc := hlast c (by simp)
    simp only [decode, encode, UInt8.toNat_ofNat', List.cons.injEq, and_true, Fin.ext_iff, Fin.val_ofNat]
    omega
  | case3 a b => simp at hlength
  | case4 ss h₁ h₂ h₃ =>
    match ss with
    | [] => simp at hlength
    | [a] => simp at hlength
    | [a, b] => exact absurd rfl (h₃ a b)
    | [a, b, c] => exact absurd rfl (h₂ a b c)
    | a :: b :: c :: d :: rest => exact absurd rfl (h₁ a b c d rest)

theorem getLast?_encode {bs : List UInt8} (h : bs.length % 3 = 2) :
    ∀ s ∈ (encode bs).getLast?, s.val % 4 = 0 := by
  induction bs using encode.induct with
  | case1 x y z rest ih =>
    have hrest : rest.length % 3 = 2 := by
      simp only [List.length_cons] at h
      omega
    obtain ⟨s, ss, hencode⟩ : ∃ s ss, encode rest = s :: ss := by
      refine List.exists_cons_of_ne_nil (List.ne_nil_of_length_pos ?_)
      rw [length_encode]
      omega
    simpa [encode, hencode, List.getLast?_cons] using ih hrest
  | case2 x y =>
    intro s hs
    obtain rfl : Fin.ofNat 64 (y.toNat % 16 * 4) = s := by simpa [encode] using hs
    simp only [Fin.val_ofNat]
    omega
  | case3 x => simp at h
  | case4 => simp at h

/-- Writing a symbol inverts reading it. -/
theorem urlSymbol_of_urlSextet {c : UInt16} {s : Fin 64} (h : urlSextet c = some s) : urlSymbol s = c := by
  have hsymbol {m : ℕ} (hm : m < 64) (hsextet : some (Fin.ofNat 64 m) = some s) : s.val = m := by
    rw [← Option.some.inj hsextet, Fin.val_ofNat, Nat.mod_eq_of_lt hm]
  have hunit {m : ℕ} (hm : m = c.toNat) : UInt16.ofNat m = c := by
    rw [hm, UInt16.ofNat_toNat]
  unfold urlSextet at h
  split_ifs at h with h₁ h₂ h₃
  · rw [← Option.some.inj h, h₁]
    rfl
  · rw [← Option.some.inj h, h₂]
    rfl
  · unfold sextet at h
    simp only [UInt16.le_iff_toNat_le, UInt16.reduceToNat] at h
    split_ifs at h with hupper hlower hdigit hplus hslash
    · have hs := hsymbol (by omega) h
      rw [urlSymbol, if_neg (by omega), if_neg (by omega), symbol, if_pos (by omega)]
      exact hunit (by omega)
    · have hs := hsymbol (by omega) h
      rw [urlSymbol, if_neg (by omega), if_neg (by omega), symbol, if_neg (by omega), if_pos (by omega)]
      exact hunit (by omega)
    · have hs := hsymbol (by omega) h
      rw [urlSymbol, if_neg (by omega), if_neg (by omega), symbol, if_neg (by omega), if_neg (by omega),
        if_pos (by omega)]
      exact hunit (by omega)
    · exact absurd (.inl hplus) h₃
    · exact absurd (.inr hslash) h₃

theorem exists_sextets {t : Text} (h : ∀ c ∈ t, (urlSextet c).isSome) :
    ∃ ss : List (Fin 64), t = ss.map urlSymbol := by
  induction t with
  | nil => exact ⟨[], rfl⟩
  | cons c t ih =>
    obtain ⟨hc, ht⟩ := List.forall_mem_cons.mp h
    obtain ⟨s, hs⟩ := Option.isSome_iff_exists.mp hc
    obtain ⟨ss, rfl⟩ := ih ht
    exact ⟨s :: ss, by rw [List.map_cons, urlSymbol_of_urlSextet hs]⟩

/-- Of the texts over the alphabet that have the length, the canonical ones end in a symbol whose two last bits
are zero. -/
theorem canonical_iff_last (hn : n % 3 = 2) : Canonical n t ↔
    t.length = (n * 4 + 2) / 3 ∧ (∀ c ∈ t, (urlSextet c).isSome) ∧
      ∀ c ∈ t.getLast?, ∀ s ∈ urlSextet c, s.val % 4 = 0 := by
  constructor
  · intro h
    refine ⟨h.length, h.symbols, ?_⟩
    obtain ⟨bs, rfl, rfl⟩ := h
    intro c hc s hs
    rw [urlEncode, List.getLast?_map, Option.mem_def, Option.map_eq_some_iff] at hc
    obtain ⟨s', hs', rfl⟩ := hc
    rw [Option.mem_def, urlSextet_urlSymbol] at hs
    exact Option.some.inj hs ▸ getLast?_encode hn s' hs'
  · rintro ⟨hlength, hsymbols, hlast⟩
    obtain ⟨ss, rfl⟩ := exists_sextets hsymbols
    rw [List.length_map] at hlength
    have hzero : ∀ s ∈ ss.getLast?, s.val % 4 = 0 := by
      intro s hs
      refine hlast (urlSymbol s) ?_ s (urlSextet_urlSymbol s)
      rw [List.getLast?_map, Option.mem_def.mp hs]
      rfl
    refine ⟨decode ss, ?_, ?_⟩
    · rw [length_decode]
      omega
    · rw [urlEncode, encode_decode (by omega) hzero]

end Commons.Base64
