import AgentSig.StructuredFields.Conformance
import AgentSig.StructuredFields.MemberLines

/-!
# Positions of the cursor

A production moves the cursor past the run that it reads, so the position counts the units before the ones
that remain. The offsets that a raw document records are such positions, and the slice between two of them
is the run that was read.

## Main definitions

* `Span.slice source s`: the units of a span
* `Cursor.At source c`: the cursor is in the source, at its position
* `Cursor.Advances c c'`: the cursor moved past a run

## Main results

* `key_advances`, `bare_advances`, `separator_advances`: the productions move past what they read
* `Cursor.At.reads`: the slice of a production reads as its value
-/

namespace AgentSig.StructuredFields

open Commons

variable {L : Limits} {source : Text} {c c' c'' : Cursor}

/-- The units of a span. -/
def Span.slice (source : Text) (s : Span) : Text := (source.drop s.start).take (s.stop - s.start)

/-- The cursor is in the source, at its position. -/
def Cursor.At (source : Text) (c : Cursor) : Prop :=
  c.position ≤ source.length ∧ c.rest = source.drop c.position

/-- The cursor moved past a run. -/
def Cursor.Advances (c c' : Cursor) : Prop :=
  ∃ run, c.rest = run ++ c'.rest ∧ c'.position = c.position + run.length

namespace Cursor

theorem Advances.of_eq (hposition : c'.position = c.position) (hrest : c'.rest = c.rest) : c.Advances c' :=
  ⟨[], hrest.symm, hposition⟩

theorem Advances.trans (h : c.Advances c') (h' : c'.Advances c'') : c.Advances c'' := by
  obtain ⟨run, hrest, hposition⟩ := h
  obtain ⟨run', hrest', hposition'⟩ := h'
  refine ⟨run ++ run', ?_, ?_⟩
  · rw [hrest, hrest', List.append_assoc]
  · rw [hposition', hposition, List.length_append, Nat.add_assoc]

theorem Advances.position_le (h : c.Advances c') : c.position ≤ c'.position := by
  obtain ⟨run, -, hposition⟩ := h
  omega

theorem next_advances {u : UInt16} (h : c.code = some u) : c.Advances c.next :=
  ⟨[u], rest_of_code h, rfl⟩

theorem spaces_advances (allowTab : Bool) : c.Advances (c.spaces allowTab) :=
  ⟨c.rest.takeWhile (space allowTab), (List.takeWhile_append_dropWhile).symm, rfl⟩

/-- A run that is followed by the units that remain. -/
theorem moveTo_advances {run rest : Text} (h : c.rest = run ++ rest) :
    c.Advances (c.moveTo run.length rest) := ⟨run, h, rfl⟩

theorem consumeOccurrence_advances (h : c.consumeOccurrence L = .ok c') : c.Advances c' := by
  obtain ⟨-, rfl⟩ := consumeOccurrence_eq_ok.mp h
  exact .of_eq rfl rfl

/-- A cursor that moves stays in the source, and the slice that it moved past is the run. -/
theorem At.advance (hc : c.At source) (h : c.Advances c') : c'.At source ∧
    c.rest = Span.slice source ⟨c.position, c'.position⟩ ++ c'.rest := by
  obtain ⟨hle, hdrop⟩ := hc
  obtain ⟨run, hrest, hposition⟩ := h
  have hlength := congrArg List.length (hdrop.symm.trans hrest)
  rw [List.length_drop, List.length_append] at hlength
  have hslice : Span.slice source ⟨c.position, c'.position⟩ = run := by
    rw [Span.slice, ← hdrop, hrest, hposition, Nat.add_sub_cancel_left, List.take_left]
  refine ⟨⟨by omega, ?_⟩, by rw [hslice, hrest]⟩
  rw [hposition, ← List.drop_drop, ← hdrop, hrest, List.drop_left]

/-- The slice of a production reads as its value. -/
theorem At.reads {α : Type} {p : UInt16 → Bool} {R : Text → α → Text → Prop} {a : α}
    (hrun : ∃ run, c.rest = run ++ c'.rest ∧ Rfc9651.Reads p R run a) (hc : c.At source)
    (h : c.Advances c') : R (Span.slice source ⟨c.position, c'.position⟩) a [] := by
  obtain ⟨run, hrest, hreads⟩ := hrun
  have hslice : Span.slice source ⟨c.position, c'.position⟩ = run :=
    List.append_cancel_right ((hc.advance h).2.symm.trans hrest)
  have hread := hreads.reads [] .nil
  rwa [List.append_nil, ← hslice] at hread

end Cursor

/-! ## Keys and bare items -/

theorem key_advances {k : Text} {s : Span} (h : key L c = .ok ((k, s), c')) :
    c.Advances c' ∧ s = ⟨c.position, c'.position⟩ ∧ c.rest = k ++ c'.rest := by
  simp only [key, bind_eq_ok, require_eq_ok, exists_const, Prod.exists, pure_eq_ok, Prod.mk.injEq,
    scan_eq_ok] at h
  obtain ⟨-, k, rest, ⟨heq, -⟩, ⟨rfl, rfl⟩, rfl⟩ := h
  exact ⟨Cursor.moveTo_advances heq, rfl, heq⟩

theorem token_advances {t : Text} (h : token L c = .ok (t, c')) : c.Advances c' := by
  simp only [token, bind_eq_ok, Prod.exists, pure_eq_ok, Prod.mk.injEq, scan_eq_ok] at h
  obtain ⟨t, rest, ⟨heq, -⟩, -, rfl⟩ := h
  exact Cursor.moveTo_advances heq

theorem number_advances {n : Numeric} (h : number c = .ok (n, c')) : c.Advances c' := by
  simp only [number, bind_eq_ok, require_eq_ok, exists_const, Prod.exists, digitLoop_eq_ok] at h
  set c₁ := if c.code = some 45 then c.next else c with hc₁
  have hsign : c.Advances c₁ := by
    rw [hc₁]
    split
    · rename_i hcode
      exact Cursor.next_advances hcode
    · exact .of_eq rfl rfl
  obtain ⟨-, count, value, rest, ⟨ds, heq, -, -, -, hcount, -⟩, h⟩ := h
  have hdigits := hsign.trans (Cursor.moveTo_advances heq)
  rw [Nat.zero_add] at hcount
  rw [← hcount] at hdigits
  split at h
  · rename_i hpoint
    simp only [bind_eq_ok, require_eq_ok, exists_const, Prod.exists, digitLoop_eq_ok, pure_eq_ok,
      Prod.mk.injEq] at h
    obtain ⟨-, digits, fraction, rest', ⟨fs, heq', -, -, -, hdigits', -⟩, -, -, rfl⟩ := h
    rw [Nat.zero_add] at hdigits'
    have hend := (hdigits.trans (Cursor.next_advances hpoint)).trans (Cursor.moveTo_advances heq')
    rwa [← hdigits'] at hend
  · rw [pure_eq_ok, Prod.mk.injEq] at h
    exact h.2 ▸ hdigits

/-- The offset after a closing quote counts the units before it. -/
theorem stringLoop_run {p n stop : ℕ} {t output rest : Text}
    (h : stringLoop L p n t = .ok (output, stop, rest)) :
    ∃ run, t = run ++ rest ∧ stop = p + run.length := by
  induction p, n, t using stringLoop.induct generalizing output stop with
  | case1 => simp [stringLoop] at h
  | case2 p n t =>
    rw [stringLoop.eq_def] at h
    simp only [if_true, Except.ok.injEq, Prod.mk.injEq] at h
    obtain ⟨-, rfl, rfl⟩ := h
    exact ⟨[34], rfl, rfl⟩
  | case3 p n v t _ ih =>
    rw [stringLoop.eq_def] at h
    simp only [if_neg (show ¬ (92 : UInt16) = 34 by decide), if_true, bind_eq_ok, require_eq_ok,
      Limits.check_eq_ok, exists_const, Prod.exists, pure_eq_ok, Prod.mk.injEq] at h
    obtain ⟨-, -, output, stop, rest, h, -, rfl, rfl⟩ := h
    obtain ⟨run, rfl, rfl⟩ := ih h
    exact ⟨92 :: v :: run, rfl, by simp only [List.length_cons]; omega⟩
  | case4 => simp [stringLoop] at h
  | case5 p n u t hu hu' ih =>
    rw [stringLoop.eq_def] at h
    simp only [if_neg hu, if_neg hu', bind_eq_ok, require_eq_ok, Limits.check_eq_ok,
      exists_const, Prod.exists, pure_eq_ok, Prod.mk.injEq] at h
    obtain ⟨-, -, output, stop, rest, h, -, rfl, rfl⟩ := h
    obtain ⟨run, rfl, rfl⟩ := ih h
    exact ⟨u :: run, rfl, by rw [List.length_cons]; omega⟩

theorem string_advances {t : Text} (hcode : c.code = some 34) (h : string L c = .ok (t, c')) :
    c.Advances c' := by
  simp only [string, bind_eq_ok, Prod.exists, pure_eq_ok, Prod.mk.injEq] at h
  obtain ⟨t, stop, rest, h, -, rfl⟩ := h
  obtain ⟨run, heq, hstop⟩ := stringLoop_run h
  exact (Cursor.next_advances hcode).trans ⟨run, heq, hstop⟩

theorem bytes_advances {octets : List UInt8} (hcode : c.code = some 58) (h : bytes L c = .ok (octets, c')) :
    c.Advances c' := by
  simp only [bytes, bind_eq_ok, require_eq_ok, exists_const, Prod.exists, pure_eq_ok, Prod.mk.injEq] at h
  obtain ⟨run, n, k, rest, h, hend, -, -, rfl⟩ := h
  obtain ⟨symbols, pads, -, heq, -⟩ := bytesLoop_sound h
  exact ((Cursor.next_advances hcode).trans (Cursor.moveTo_advances heq)).trans (Cursor.next_advances hend)

theorem displayLoop_run {p n stop : ℕ} {t rest : Text} {octets : List UInt8}
    (h : displayLoop L p n t = .ok (octets, stop, rest)) :
    ∃ run, t = run ++ rest ∧ stop = p + run.length := by
  induction p, n, t using displayLoop.induct generalizing octets stop with
  | case1 => simp [displayLoop] at h
  | case2 p n t =>
    rw [displayLoop.eq_def] at h
    simp only [if_true, Except.ok.injEq, Prod.mk.injEq] at h
    obtain ⟨-, rfl, rfl⟩ := h
    exact ⟨[34], rfl, rfl⟩
  | case3 p n u t hu hp =>
    rw [displayLoop.eq_def] at h
    simp [hu, hp] at h
  | case4 p n x y t hu hp ih =>
    rw [displayLoop.eq_def] at h
    simp only [if_neg hu, if_neg hp, if_true, bind_eq_ok, require_eq_ok, Limits.check_eq_ok,
      exists_const, Prod.exists, pure_eq_ok, Prod.mk.injEq] at h
    obtain ⟨-, -, octets, stop, rest, h, -, rfl, rfl⟩ := h
    obtain ⟨run, rfl, rfl⟩ := ih h
    exact ⟨37 :: x :: y :: run, rfl, by simp only [List.length_cons]; omega⟩
  | case5 p n t ht hu hp =>
    rw [displayLoop.eq_def] at h
    rcases t with _ | ⟨x, _ | ⟨y, t⟩⟩
    · simp at h
    · simp at h
    · exact (ht x y t rfl).elim
  | case6 p n u t hu hp hu' ih =>
    rw [displayLoop.eq_def] at h
    simp only [if_neg hu, if_neg hp, if_neg hu', bind_eq_ok, Limits.check_eq_ok,
      exists_const, Prod.exists, pure_eq_ok, Prod.mk.injEq] at h
    obtain ⟨-, octets, stop, rest, h, -, rfl, rfl⟩ := h
    obtain ⟨run, rfl, rfl⟩ := ih h
    exact ⟨u :: run, rfl, by rw [List.length_cons]; omega⟩

theorem displayString_advances {t : Text} (hcode : c.code = some 37)
    (h : displayString L c = .ok (t, c')) : c.Advances c' := by
  simp only [displayString, bind_eq_ok, require_eq_ok, exists_const, Prod.exists] at h
  obtain ⟨hquote, octets, stop, rest, h, hdecode⟩ := h
  obtain ⟨run, heq, hstop⟩ := displayLoop_run h
  split at hdecode
  · simp only [pure_eq_ok, Prod.mk.injEq] at hdecode
    obtain ⟨-, rfl⟩ := hdecode
    exact ((Cursor.next_advances hcode).trans (Cursor.next_advances hquote)).trans ⟨run, heq, hstop⟩
  · cases hdecode

/-- A bare item ends where the cursor is after it. -/
theorem bare_advances {b : RawBareItem} (h : bare L c = .ok (b, c')) :
    c.Advances c' ∧ b.toSpan = ⟨c.position, c'.position⟩ := by
  simp only [bare, bind_eq_ok, Prod.exists, pure_eq_ok, Prod.mk.injEq] at h
  obtain ⟨v, c', h, rfl, rfl⟩ := h
  refine ⟨?_, rfl⟩
  unfold bareBranch at h
  split at h
  · simp [Cursor.fail] at h
  · rename_i u hu
    split_ifs at h with h₁ h₂ h₃ h₄ h₅ h₆ h₇
    · simp only [bind_eq_ok, Prod.exists, pure_eq_ok, Prod.mk.injEq] at h
      obtain ⟨v, c', h, -, rfl⟩ := h
      exact number_advances h
    · simp only [bind_eq_ok, Prod.exists, pure_eq_ok, Prod.mk.injEq] at h
      obtain ⟨v, c', h, -, rfl⟩ := h
      exact string_advances (h₂ ▸ hu) h
    · simp only [bind_eq_ok, Prod.exists, pure_eq_ok, Prod.mk.injEq] at h
      obtain ⟨v, c', h, -, rfl⟩ := h
      exact token_advances h
    · simp only [bind_eq_ok, Prod.exists, pure_eq_ok, Prod.mk.injEq] at h
      obtain ⟨v, c', h, -, rfl⟩ := h
      exact bytes_advances (h₄ ▸ hu) h
    · simp only [bind_eq_ok, require_eq_ok, exists_const, pure_eq_ok, Prod.mk.injEq] at h
      obtain ⟨hdigit, -, rfl⟩ := h
      rcases hdigit with hdigit | hdigit
      · exact (Cursor.next_advances hu).trans (Cursor.next_advances hdigit)
      · exact (Cursor.next_advances hu).trans (Cursor.next_advances hdigit)
    · simp only [bind_eq_ok, Prod.exists] at h
      obtain ⟨v, c', hv, h⟩ := h
      have hnumber := (Cursor.next_advances hu).trans (number_advances hv)
      cases v with
      | integer z =>
        rw [pure_eq_ok, Prod.mk.injEq] at h
        exact h.2 ▸ hnumber
      | decimal z => simp [Cursor.fail] at h
    · simp only [bind_eq_ok, Prod.exists, pure_eq_ok, Prod.mk.injEq] at h
      obtain ⟨v, c', h, -, rfl⟩ := h
      exact displayString_advances (h₇ ▸ hu) h
    · simp [Cursor.fail] at h

/-- Whether another member follows or not, the cursor moves past the whitespace. -/
theorem separator_advances {more : Bool} (h : separator c = .ok (more, c')) : c.Advances c' := by
  dsimp only [separator] at h
  split at h
  · rw [pure_eq_ok, Prod.mk.injEq] at h
    exact h.2 ▸ Cursor.spaces_advances true
  · simp only [bind_eq_ok, require_eq_ok, exists_const, pure_eq_ok, Prod.mk.injEq] at h
    obtain ⟨hcomma, -, -, rfl⟩ := h
    exact ((Cursor.spaces_advances true).trans (Cursor.next_advances hcomma)).trans
      (Cursor.spaces_advances true)

end AgentSig.StructuredFields
