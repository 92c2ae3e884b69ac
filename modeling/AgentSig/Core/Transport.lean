import AgentSig.Core.Folding
import AgentSig.Core.Injectivity

/-!
# Signature bases and transport

Intermediaries spell the header of a message in another way. The signature base only reads the
normalized values of a field, in order, so it stays the same.

## Main definitions

* `HeadersRewritten`, `HttpMessage.Rewritten`: a header, and a message, is spelled in another way
* `headerBytes`: the size of a header, that is bounded

## Main results

* `fieldValues_rewritten`: the values of each field stay the same
* `createSignatureBase_rewritten`: the signature base stays the same
* `respelled_folds`: except where only one of two adjacent folds is replaced
-/

namespace AgentSig.Core

open Commons StructuredFields

/-- A value is spelled in another way, as the same kind of value. -/
structure HeaderValue.Respelled (version : Option HttpVersion) (value value' : HeaderValue) :
    Prop where
  text : ∀ t', value' = .text t' → ∃ t, value = .text t
  string : Core.Respelled version value.string value'.string

/-- A header is spelled in another way. -/
inductive HeadersRewritten (version : Option HttpVersion) : List HeaderField → List HeaderField → Prop
  /-- The letter case of a field name changes. -/
  | name {before after : List HeaderField} {name name' : Text} {value : HeaderValue} :
      toLowerCase name' = toLowerCase name →
      HeadersRewritten version (before ++ ⟨name, value⟩ :: after) (before ++ ⟨name', value⟩ :: after)
  /-- Fields change places, where the order of fields of the same name stays. -/
  | reorder {headers headers' : List HeaderField} :
      (∀ name, headers'.filter (fun h => toLowerCase h.name = name) =
        headers.filter fun h => toLowerCase h.name = name) →
      HeadersRewritten version headers headers'
  | value {before after : List HeaderField} {name : Text} {value value' : HeaderValue} :
      value.Respelled version value' →
      HeadersRewritten version (before ++ ⟨name, value⟩ :: after) (before ++ ⟨name, value'⟩ :: after)

/-- Two neighbours of different names change places. -/
theorem HeadersRewritten.swap {version : Option HttpVersion} {before after : List HeaderField}
    {f g : HeaderField} (hne : toLowerCase f.name ≠ toLowerCase g.name) :
    HeadersRewritten version (before ++ f :: g :: after) (before ++ g :: f :: after) := by
  refine .reorder fun name => ?_
  simp only [List.filter_append, List.filter_cons]
  by_cases hf : toLowerCase f.name = name
  · have hg : toLowerCase g.name ≠ name := fun hg => hne (hf.trans hg.symm)
    simp only [hf, hg, decide_true, decide_false, if_true, Bool.false_eq_true, if_false]
  · simp only [hf, decide_false, Bool.false_eq_true, if_false]

variable {version : Option HttpVersion} {headers headers' : List HeaderField} {name name' : Text}
  {value value' : HeaderValue} {L : CoreLimits} {u : Unit}

/-! ## Values -/

/-- The values of a field, before they are normalized. -/
def spelledValues (headers : List HeaderField) (name : Text) : List HeaderValue :=
  (headers.filter fun h => toLowerCase h.name = name).map (·.value)

theorem spelledValues_append (before after : List HeaderField) (name : Text) :
    spelledValues (before ++ after) name = spelledValues before name ++ spelledValues after name := by
  simp [spelledValues]

theorem spelledValues_cons (h : HeaderField) (headers : List HeaderField) (name : Text) :
    spelledValues (h :: headers) name =
      if toLowerCase h.name = name then h.value :: spelledValues headers name
      else spelledValues headers name := by
  rw [spelledValues, List.filter_cons]
  split <;> simp_all [spelledValues]

theorem fieldValues_eq (headers : List HeaderField) (name : Text) (version : Option HttpVersion) :
    fieldValues headers name version =
      (spelledValues headers name).mapM fun value => normalizeValue value version := by
  rw [fieldValues, spelledValues, List.mapM_map]
  rfl

/-- The values of each field stay the same. -/
theorem fieldValues_rewritten {values : List Text} (h : HeadersRewritten version headers headers')
    (hvalues : fieldValues headers name version = .ok values) :
    fieldValues headers' name version = .ok values := by
  rw [fieldValues_eq] at hvalues ⊢
  cases h with
  | name hname =>
    rw [spelledValues_append, spelledValues_cons] at hvalues ⊢
    rwa [hname]
  | reorder hfilter =>
    rwa [spelledValues, hfilter]
  | @value before after n v v' hvalue =>
    rw [spelledValues_append, spelledValues_cons] at hvalues ⊢
    by_cases hn : toLowerCase n = name
    · rw [if_pos hn] at hvalues ⊢
      simp only [List.mapM_append, List.mapM_cons, bind_eq_ok, pure_eq_ok] at hvalues ⊢
      obtain ⟨first, hfirst, _, ⟨w, hw, rest, hrest, rfl⟩, rfl⟩ := hvalues
      exact ⟨first, hfirst, _, ⟨w, normalizeValue_respelled hvalue.string hw, rest, hrest, rfl⟩, rfl⟩
    · rw [if_neg hn] at hvalues ⊢
      exact hvalues

/-! ## Validity -/

/-- The size of a header, that is bounded. -/
def headerBytes (headers : List HeaderField) : ℕ :=
  (headers.map fun h => h.name.length + h.value.length + 4).sum

/-- A field that passes the checks, besides the size. -/
structure HeaderField.Valid (h : HeaderField) : Prop where
  name : isFieldName h.name
  ascii : ∀ t, h.value = .text t → isAscii t

theorem validateHeadersLoop_eq_ok {total : ℕ} :
    validateHeadersLoop L total headers = .ok u ↔
      (headers ≠ [] → total + headerBytes headers ≤ L.get .maxMessageHeaderBytes) ∧
        ∀ h ∈ headers, h.Valid := by
  induction headers generalizing total with
  | nil => simp [validateHeadersLoop]
  | cons h headers ih =>
    obtain ⟨n, v⟩ := h
    have hbytes : headerBytes (⟨n, v⟩ :: headers) = n.length + v.length + 4 + headerBytes headers := by
      simp [headerBytes]
    have hvalid : HeaderField.Valid ⟨n, v⟩ ↔ isFieldName n ∧ ∀ t, v = .text t → isAscii t :=
      ⟨fun h => ⟨h.name, h.ascii⟩, fun h => ⟨h.1, h.2⟩⟩
    rw [List.forall_mem_cons, hvalid, hbytes]
    have hstep : validateHeadersLoop L total (⟨n, v⟩ :: headers) = .ok u ↔
        total + (n.length + v.length + 4) ≤ L.get .maxMessageHeaderBytes ∧ isFieldName n ∧
          (∀ t, v = .text t → isAscii t) ∧
          validateHeadersLoop L (total + (n.length + v.length + 4)) headers = .ok u := by
      cases v <;> simp [validateHeadersLoop]
    rw [hstep, ih]
    have hempty : headers = [] → headerBytes headers = 0 := by
      rintro rfl
      rfl
    constructor
    · rintro ⟨hhead, hname, hascii, htail, hvalid⟩
      refine ⟨fun _ => ?_, ⟨hname, hascii⟩, hvalid⟩
      by_cases hnil : headers = []
      · rw [hempty hnil]
        exact hhead
      · have := htail hnil
        omega
    · rintro ⟨hbytes, ⟨hname, hascii⟩, hvalid⟩
      have := hbytes (by simp)
      exact ⟨by omega, hname, hascii, fun _ => by omega, hvalid⟩

theorem validateHeaders_eq_ok :
    validateHeaders L headers = .ok u ↔
      headerBytes headers ≤ L.get .maxMessageHeaderBytes ∧ ∀ h ∈ headers, h.Valid := by
  rw [validateHeaders, validateHeadersLoop_eq_ok, Nat.zero_add]
  refine and_congr_left fun _ => ?_
  cases headers with
  | nil => simp [headerBytes]
  | cons h headers => simp

theorem fieldNameChar_toLowerCase (c : UInt16) :
    fieldNameChar (if 65 ≤ c ∧ c ≤ 90 then c + 32 else c) = fieldNameChar c := by
  split
  · rename_i h
    have hupper : fieldNameChar c := by simp [fieldNameChar, h]
    have hlower : 97 ≤ c + 32 ∧ c + 32 ≤ 122 := by
      simp only [UInt16.le_iff_toNat_le, UInt16.toNat_add, UInt16.reduceToNat] at h ⊢
      omega
    have hlower : fieldNameChar (c + 32) := by simp [fieldNameChar, hlower]
    rw [hupper, hlower]
  · rfl

theorem isFieldName_toLowerCase (t : Text) : isFieldName (toLowerCase t) = isFieldName t := by
  unfold isFieldName toLowerCase
  rw [List.all_map]
  congr 1
  · simp
  · exact List.all_congr rfl fun c => fieldNameChar_toLowerCase c

theorem isAscii_blanks {blanks : Text} (h : ∀ c ∈ blanks, blank c) : isAscii blanks := by
  refine List.all_eq_true.mpr fun c hc => ?_
  have hblank := h c hc
  simp only [blank, Bool.or_eq_true, beq_iff_eq] at hblank
  rcases hblank with rfl | rfl <;> decide

theorem isAscii_respelled {t t' : Text} (h : Respelled version t t') (ht : isAscii t) :
    isAscii t' := by
  cases h with
  | addLeading hblanks => rw [isAscii_append, isAscii_blanks hblanks, ht]; rfl
  | removeLeading _ => exact (Bool.and_eq_true_iff.mp (isAscii_append _ _ ▸ ht)).2
  | addTrailing hblanks => rw [isAscii_append, isAscii_blanks hblanks, ht]; rfl
  | removeTrailing _ _ => exact (Bool.and_eq_true_iff.mp (isAscii_append _ _ ▸ ht)).1
  | replaceFold _ _ _ _ _ =>
    simp only [isAscii, List.all_append, List.all_cons, Bool.and_eq_true] at ht ⊢
    exact ⟨ht.1, by decide, ht.2.2.2.2⟩

/-- All fields stay valid when one becomes another valid field. -/
theorem valid_replace {before after : List HeaderField} {f f' : HeaderField}
    (h : ∀ g ∈ before ++ f :: after, g.Valid) (hf' : f.Valid → f'.Valid) :
    ∀ g ∈ before ++ f' :: after, g.Valid := by
  rw [List.forall_mem_append, List.forall_mem_cons] at h ⊢
  exact ⟨h.1, hf' h.2.1, h.2.2⟩

/-- A valid header stays valid, besides its size. -/
theorem valid_rewritten (h : HeadersRewritten version headers headers')
    (hvalid : ∀ f ∈ headers, f.Valid) : ∀ f ∈ headers', f.Valid := by
  cases h with
  | name hname =>
    refine valid_replace hvalid fun hf => ⟨?_, hf.ascii⟩
    rw [← isFieldName_toLowerCase, hname, isFieldName_toLowerCase]
    exact hf.name
  | reorder hfilter =>
    intro f hf
    have hmem : f ∈ headers'.filter fun h => toLowerCase h.name = toLowerCase f.name :=
      List.mem_filter.mpr ⟨hf, by simp⟩
    rw [hfilter] at hmem
    exact hvalid f (List.mem_of_mem_filter hmem)
  | value hvalue =>
    refine valid_replace hvalid fun hf => ⟨hf.name, ?_⟩
    rintro t' rfl
    obtain ⟨t, rfl⟩ := hvalue.text t' rfl
    exact isAscii_respelled hvalue.string (hf.ascii t rfl)

/-! ## Messages -/

/-- A header is spelled in another way, any number of times. -/
abbrev HeadersRespelled (version : Option HttpVersion) :=
  Relation.ReflTransGen (HeadersRewritten version)

theorem fieldValues_respelled {values : List Text} (h : HeadersRespelled version headers headers')
    (hvalues : fieldValues headers name version = .ok values) :
    fieldValues headers' name version = .ok values := by
  induction h with
  | refl => exact hvalues
  | tail _ hstep ih => exact fieldValues_rewritten hstep ih

theorem valid_respelled (h : HeadersRespelled version headers headers')
    (hvalid : ∀ f ∈ headers, f.Valid) : ∀ f ∈ headers', f.Valid := by
  induction h with
  | refl => exact hvalid
  | tail _ hstep ih => exact valid_rewritten hstep ih

/-- The header of a request is spelled in another way. -/
inductive RequestRewritten : RequestParts → RequestParts → Prop
  | respelled {request : RequestParts} {headers' : List HeaderField} :
      HeadersRespelled request.httpVersion request.headers headers' →
      RequestRewritten request { request with headers := headers' }

/-- A message is spelled in another way: its header is, and that of the request of a response. -/
inductive HttpMessage.Rewritten : HttpMessage → HttpMessage → Prop
  | request {request request' : RequestParts} :
      RequestRewritten request request' → Rewritten (.request request) (.request request')
  | response {status : Number} {headers headers' : List HeaderField} {version : Option HttpVersion}
      {request request' : Option RequestParts} :
      HeadersRespelled version headers headers' → Option.Rel RequestRewritten request request' →
      Rewritten (.response status headers version request) (.response status headers' version request')

/-- The headers of a message are within their limit. -/
def HttpMessage.HeadersFit (L : CoreLimits) (message : HttpMessage) : Prop :=
  headerBytes message.headers ≤ L.get .maxMessageHeaderBytes ∧
    ∀ request, message.request? = some request →
      headerBytes request.headers ≤ L.get .maxMessageHeaderBytes

variable {P : Platform} {options : CanonicalizationOptions} {message message' : HttpMessage}
  {component : CoveredComponent} {flags : ComponentFlags} {value : Text}

theorem headerComponent_respelled (h : HeadersRespelled version headers headers')
    (hvalue : headerComponent L options headers version component flags = .ok value) :
    headerComponent L options headers' version component flags = .ok value := by
  unfold headerComponent at hvalue ⊢
  obtain ⟨values, hvalues, hrest⟩ := bind_eq_ok.mp hvalue
  exact bind_eq_ok.mpr ⟨values, fieldValues_respelled h hvalues, hrest⟩

/-- Nothing else of a request is read for a derived component. -/
theorem requestComponent_headers (request : RequestParts) (headers' : List HeaderField) (name : Text)
    (encodedName : Option Text) :
    requestComponent P L { request with headers := headers' } name encodedName =
      requestComponent P L request name encodedName := rfl

theorem HttpMessage.Rewritten.isRequest (h : message.Rewritten message') :
    message'.isRequest = message.isRequest := by
  cases h <;> rfl

theorem HttpMessage.Rewritten.request? (h : message.Rewritten message') :
    Option.Rel RequestRewritten message.request? message'.request? := by
  cases h with
  | request hrequest => exact .some hrequest
  | response _ hrequest => exact hrequest

theorem HttpMessage.Rewritten.httpVersion (h : message.Rewritten message') :
    message'.httpVersion = message.httpVersion := by
  cases h with
  | request hrequest => cases hrequest; rfl
  | response _ _ => rfl

theorem HttpMessage.Rewritten.respelled (h : message.Rewritten message') :
    HeadersRespelled message.httpVersion message.headers message'.headers := by
  cases h with
  | request hrequest => cases hrequest with | respelled hheaders => exact hheaders
  | response hheaders _ => exact hheaders

theorem derivedComponent_rewritten (h : message.Rewritten message') :
    derivedComponent P L message' component flags = derivedComponent P L message component flags := by
  cases h with
  | request hrequest => cases hrequest; rfl
  | response _ hrequest =>
    cases hrequest with
    | none => rfl
    | some hrequest => cases hrequest; rfl

theorem fieldComponent_rewritten (h : message.Rewritten message')
    (hvalue : fieldComponent L options message component flags = .ok value) :
    fieldComponent L options message' component flags = .ok value := by
  unfold fieldComponent at hvalue ⊢
  have hrequest := h.request?
  generalize hold : message.request? = old at hvalue hrequest
  generalize hnew : message'.request? = new at hrequest ⊢
  cases hrequest with
  | none =>
    rw [h.httpVersion]
    cases hreq : flags.req <;> rw [hreq] at hvalue <;>
      exact headerComponent_respelled h.respelled hvalue
  | some hrequest =>
    cases hrequest with
    | respelled hheaders =>
      cases hreq : flags.req with
      | true =>
        rw [hreq] at hvalue
        exact headerComponent_respelled hheaders hvalue
      | false =>
        rw [hreq] at hvalue
        dsimp only at hvalue ⊢
        rw [h.httpVersion]
        exact headerComponent_respelled h.respelled hvalue

theorem resolveComponent_rewritten (h : message.Rewritten message')
    (hvalue : resolveComponent P L options message component flags = .ok value) :
    resolveComponent P L options message' component flags = .ok value := by
  unfold resolveComponent at hvalue ⊢
  split
  · rename_i hderived
    rw [if_pos hderived] at hvalue
    rw [derivedComponent_rewritten h]
    exact hvalue
  · rename_i hderived
    rw [if_neg hderived] at hvalue
    exact fieldComponent_rewritten h hvalue

theorem componentValue_rewritten (h : message.Rewritten message')
    (hvalue : componentValue P L options message component = .ok value) :
    componentValue P L options message' component = .ok value := by
  have hnone : message'.request? = none ↔ message.request? = none := by
    have hrequest := h.request?
    generalize message.request? = old at hrequest ⊢
    generalize message'.request? = new at hrequest ⊢
    cases hrequest <;> simp
  simp only [componentValue, bind_eq_ok, require_eq_ok, exists_const, h.isRequest, hnone]
    at hvalue ⊢
  obtain ⟨flags, hflags, hreq, hmissing, v, hv, hrest⟩ := hvalue
  exact ⟨flags, hflags, hreq, hmissing, v, resolveComponent_rewritten h hv, hrest⟩

theorem componentLines_rewritten {seen : List Text} {n : ℕ} {components : List CoveredComponent}
    {lines : List Text × ℕ} (h : message.Rewritten message')
    (hlines : componentLines P L options message seen n components = .ok lines) :
    componentLines P L options message' seen n components = .ok lines := by
  induction components generalizing seen n lines with
  | nil => exact hlines
  | cons component components ih =>
    simp only [componentLines, bind_eq_ok] at hlines ⊢
    obtain ⟨identifier, hidentifier, u, hseen, v, hv, w, hlimit, rest, hrest, hlast⟩ := hlines
    exact ⟨identifier, hidentifier, u, hseen, v, componentValue_rewritten h hv, w, hlimit, rest,
      ih hrest, hlast⟩

theorem validateSections_rewritten (h : message.Rewritten message') (hfit : message'.HeadersFit L)
    (hvalid : validateSections L message = .ok u) : validateSections L message' = .ok u := by
  simp only [validateSections, bind_eq_ok, validateHeaders_eq_ok] at hvalid ⊢
  obtain ⟨u', ⟨-, hheaders⟩, hrest⟩ := hvalid
  refine ⟨u', ⟨hfit.1, valid_respelled h.respelled hheaders⟩, ?_⟩
  cases h with
  | request => exact hrest
  | response _ hrequest =>
    cases hrequest with
    | none => exact hrest
    | some hrequest =>
      cases hrequest with
      | respelled hrespelled =>
        rw [validateHeaders_eq_ok] at hrest ⊢
        exact ⟨hfit.2 _ rfl, valid_respelled hrespelled hrest.2⟩

/-- **The signature base does not depend on how a header is spelled**: not on the letter case of the
names, the order of fields of different names, the blanks around the values, or whether folds were
replaced by spaces. -/
theorem createSignatureBase_rewritten (P : Platform) (L : CoreLimits)
    (options : CanonicalizationOptions) (message message' : HttpMessage) (input : SignatureInput)
    (base : SignatureBase) (h : message.Rewritten message') (hfit : message'.HeadersFit L)
    (hbase : createSignatureBase P L options message input = .ok base) :
    createSignatureBase P L options message' input = .ok base := by
  simp only [createSignatureBase, bind_eq_ok] at hbase ⊢
  obtain ⟨parameters, hparameters, u, hvalid, lines, hlines, hrest⟩ := hbase
  exact ⟨parameters, hparameters, u, validateSections_rewritten h hfit hvalid, lines,
    componentLines_rewritten h hlines, hrest⟩

/-- A field with a string value. -/
def textField (name value : String) : HeaderField := ⟨ascii name, .text (ascii value)⟩

/-- A request in HTTP/1.1 with some fields. -/
def spelledRequest (headers : List HeaderField) : HttpMessage :=
  .request ⟨ascii "GET", ascii "https://a.example/", none, headers, some .http11⟩

/-- An input that covers a field in two modes. -/
def spelledInput : SignatureInput :=
  ⟨ascii "sig1", [⟨ascii "x-fold", []⟩, ⟨ascii "x-fold", [(ascii "bs", .boolean true)]⟩],
    [(ascii "created", .integer (.integer 1))]⟩

theorem respelled_example : HeadersRespelled (some .http11)
    [textField "X-Fold" "a\r\n\t b ", textField "X-Other" "1"]
    [textField "X-Other" "1", textField "x-FOLD" "a b"] := by
  refine .head (@HeadersRewritten.name _ [] _ _ (ascii "x-FOLD") _ (by decide)) (.head
    (@HeadersRewritten.value _ [] _ _ _ (.text (ascii "a\r\n\t b")) ⟨?_, ?_⟩) (.head
    (@HeadersRewritten.value _ [] _ _ _ (.text (ascii "a b")) ⟨?_, ?_⟩) (.single
    (@HeadersRewritten.swap _ [] _ _ _ (by decide)))))
  · exact fun _ _ => ⟨_, rfl⟩
  · exact @Respelled.removeTrailing _ [32] (ascii "a\r\n\t b") (by decide) (fun _ => by decide)
  · exact fun _ _ => ⟨_, rfl⟩
  · refine @Respelled.replaceFold _ [97] [9, 32] [98] rfl (by decide) (by decide)
      (startsWithout_cons.mpr rfl) ?_
    rintro ⟨before, after, h, -⟩
    have hmem : (13 : UInt16) ∈ [97] := by
      rw [h]
      simp
    simp at hmem

theorem createSignatureBase_rewritten_spelledInput : ∃ base,
    createSignatureBase examplePlatform DEFAULT_CORE_LIMITS ⟨[]⟩
        (spelledRequest [textField "X-Fold" "a\r\n\t b ", textField "X-Other" "1"]) spelledInput =
      .ok base ∧
    createSignatureBase examplePlatform DEFAULT_CORE_LIMITS ⟨[]⟩
        (spelledRequest [textField "X-Other" "1", textField "x-FOLD" "a b"]) spelledInput =
      .ok base := by
  refine ⟨_, rfl, ?_⟩
  apply createSignatureBase_rewritten _ _ _
    (spelledRequest [textField "X-Fold" "a\r\n\t b ", textField "X-Other" "1"])
  · exact .request (.respelled respelled_example)
  · refine ⟨by decide, ?_⟩
    rintro request ⟨⟩
    decide
  · rfl

/-- When one of two adjacent folds is replaced by a space, that space becomes a part of the other
fold, and there is one space less. Without the blank after it, a line break at the end is no fold. -/
theorem respelled_folds : (∃ base base',
    createSignatureBase examplePlatform DEFAULT_CORE_LIMITS ⟨[]⟩
        (spelledRequest [textField "X-Fold" "a\r\n \r\n b"]) spelledInput = .ok base ∧
      createSignatureBase examplePlatform DEFAULT_CORE_LIMITS ⟨[]⟩
        (spelledRequest [textField "X-Fold" "a\r\n  b"]) spelledInput = .ok base' ∧
      base.text ≠ base'.text) ∧
    ∃ base, createSignatureBase examplePlatform DEFAULT_CORE_LIMITS ⟨[]⟩
        (spelledRequest [textField "X-Fold" "a\r\n "]) spelledInput = .ok base ∧
      createSignatureBase examplePlatform DEFAULT_CORE_LIMITS ⟨[]⟩
        (spelledRequest [textField "X-Fold" "a\r\n"]) spelledInput = .error malformed := by
  refine ⟨⟨_, _, rfl, rfl, ?_⟩, _, rfl, rfl⟩
  decide

end AgentSig.Core
