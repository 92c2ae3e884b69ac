import AgentSig.Commons.OrderedMap
import Mathlib.Data.List.TakeWhile
import Mathlib.Order.Lattice

/-!
# Sliding windows and cool-downs

A gate that keeps the times of its recent admissions, and forgets them when they are no longer near,
bounds the number of admissions in every window. A gate that keeps the last admission of each key bounds
how close two admissions of one key are. Both forget lazily, and neither looks at the whole history.

## Main definitions

* `Shrinking near`: what is near stays near when both times get closer
* `recent`: the records that are near, of a log in order
* `Windowed`: a log of what was admitted, and at most `n` admissions in every window
* `Cooled`: a record of every admission that is near, and none near another of its key

## Main results

* `Windowed.admit`, `Windowed.recent`, `Windowed.later`: what keeps the windows bounded
* `Cooled.admit`, `Cooled.recent`, `Cooled.later`: what keeps the admissions of a key apart
-/

namespace Commons

variable {κ K : Type} [LinearOrder K]

/-- A second time that is near a first is near every time between them, and they are near each other. -/
def Shrinking (near : K → K → Bool) : Prop :=
  ∀ ⦃t t' u u' : K⦄, t ≤ t' → u' ≤ u → near t u → near t' u'

variable {near : K → K → Bool} {n : ℕ} {now now' : K}

theorem Shrinking.far {t t' u u' : K} (h : Shrinking near) (ht : t' ≤ t) (hu : u ≤ u')
    (hfar : near t u = false) : near t' u' = false := by
  by_contra hnot
  have hclose := h ht hu (by simpa using hnot)
  rw [hfar] at hclose
  exact absurd hclose Bool.false_ne_true

/-! ## Windows -/

/-- The log from its first record that is near on. -/
def recent (near : K → K → Bool) (now : K) (log : List K) : List K :=
  log.dropWhile fun t => !near t now

/-- A time in the window that begins at another. -/
def inWindow (near : K → K → Bool) (w t : K) : Bool := w ≤ t ∧ near w t

/-- The log ends the history of the admissions, what it has forgotten is not near any more, and there are
at most `n` admissions in every window. -/
structure Windowed (near : K → K → Bool) (n : ℕ) (past log : List K) (now : K) : Prop where
  past_le : ∀ t ∈ past, t ≤ now
  forgotten : ∃ old, past = old ++ log ∧ ∀ t ∈ old, near t now = false
  length_le : log.length ≤ n
  window : ∀ w, past.countP (inWindow near w) ≤ n

theorem windowed_nil (near : K → K → Bool) (n : ℕ) (now : K) : Windowed near n [] [] now :=
  ⟨by simp, ⟨[], rfl, by simp⟩, Nat.zero_le _, fun _ => Nat.zero_le _⟩

section

variable {past log : List K}

theorem Windowed.later (hnear : Shrinking near) (h : Windowed near n past log now)
    (hle : now ≤ now') :
    Windowed near n past log now' := by
  obtain ⟨old, hpast, hfar⟩ := h.forgotten
  exact ⟨fun t ht => (h.past_le t ht).trans hle,
    ⟨old, hpast, fun t ht => hnear.far le_rfl hle (hfar t ht)⟩, h.length_le, h.window⟩

theorem Windowed.recent (h : Windowed near n past log now) :
    Windowed near n past (recent near now log) now := by
  obtain ⟨old, rfl, hfar⟩ := h.forgotten
  refine ⟨h.past_le, ⟨old ++ log.takeWhile fun t => !near t now, ?_, ?_⟩, ?_, h.window⟩
  · rw [List.append_assoc]
    exact congrArg (old ++ ·) List.takeWhile_append_dropWhile.symm
  · intro t ht
    rcases List.mem_append.mp ht with ht | ht
    · exact hfar t ht
    · simpa using List.mem_takeWhile_imp ht
  · exact le_trans (List.dropWhile_sublist _).length_le h.length_le

/-- A gate that admits while fewer than `n` records are left keeps every window bounded. -/
theorem Windowed.admit (hnear : Shrinking near) (h : Windowed near n past log now)
    (hroom : log.length < n) :
    Windowed near n (past ++ [now]) (log ++ [now]) now := by
  obtain ⟨old, hpast, hfar⟩ := h.forgotten
  refine ⟨?_, ⟨old, by rw [hpast, List.append_assoc], hfar⟩, ?_, fun w => ?_⟩
  · intro t ht
    rcases List.mem_append.mp ht with ht | ht
    · exact h.past_le t ht
    · exact (List.mem_singleton.mp ht).le
  · rw [List.length_append, List.length_singleton]
    exact hroom
  · rw [List.countP_append, List.countP_singleton]
    by_cases hnow : inWindow near w now
    · -- A window that reaches to `now` holds no forgotten admission.
      rw [if_pos hnow, hpast, List.countP_append]
      have hold : old.countP (inWindow near w) = 0 := by
        refine List.countP_eq_zero.mpr fun t ht hin => ?_
        simp only [inWindow, Bool.decide_and, Bool.and_eq_true, decide_eq_true_eq] at hin hnow
        have hclose := hnear hin.1 le_rfl hnow.2
        rw [hfar t ht] at hclose
        exact absurd hclose Bool.false_ne_true
      have hlog : log.countP (inWindow near w) ≤ log.length := List.countP_le_length
      omega
    · rw [if_neg hnow]
      exact h.window w

end

/-! ## Cool-downs -/

/-- No admission of a key is near. -/
def Idle (near : K → K → Bool) (past : List (κ × K)) (key : κ) (now : K) : Prop :=
  ∀ e ∈ past, e.1 = key → near e.2 now = false

/-- Every admission that is near is recorded, and none is near an earlier one of its key. -/
structure Cooled (near : K → K → Bool) (past records : List (κ × K)) (now : K) : Prop where
  past_le : ∀ e ∈ past, e.2 ≤ now
  recorded : ∀ e ∈ past, near e.2 now → e ∈ records
  spaced : past.Pairwise fun e e' => e.1 = e'.1 → near e.2 e'.2 = false

theorem cooled_nil (near : K → K → Bool) (now : K) : Cooled near ([] : List (κ × K)) [] now :=
  ⟨by simp, by simp, List.Pairwise.nil⟩

variable {past records : List (κ × K)} {key : κ}

theorem Idle.later (hnear : Shrinking near) (h : Idle near past key now) (hle : now ≤ now') :
    Idle near past key now' :=
  fun e he hkey => hnear.far le_rfl hle (h e he hkey)

theorem Cooled.later (hnear : Shrinking near) (h : Cooled near past records now)
    (hle : now ≤ now') : Cooled near past records now' := by
  refine ⟨fun e he => (h.past_le e he).trans hle, fun e he hclose => ?_, h.spaced⟩
  exact h.recorded e he (hnear le_rfl hle hclose)

/-- The records that are not near may be forgotten. -/
theorem Cooled.recent (h : Cooled near past records now) :
    Cooled near past (records.filter fun e => near e.2 now) now :=
  ⟨h.past_le, fun e he hclose => List.mem_filter.mpr ⟨h.recorded e he hclose, hclose⟩, h.spaced⟩

/-- A key without a record is idle. -/
theorem Cooled.idle [DecidableEq κ] (h : Cooled near past records now)
    (hnone : OrderedMap.lookup records key = none) : Idle near past key now := by
  intro e he hkey
  by_contra hnot
  have hmem := h.recorded e he (by simpa using hnot)
  have hsome := OrderedMap.lookup_isSome.mpr (List.mem_map_of_mem (f := (·.1)) hmem)
  rw [hkey, hnone] at hsome
  exact absurd hsome Bool.false_ne_true

/-- A gate that admits idle keys keeps the admissions of a key apart. -/
theorem Cooled.admit [DecidableEq κ] (h : Cooled near past records now)
    (hidle : Idle near past key now) :
    Cooled near (past ++ [(key, now)]) (OrderedMap.set records key now) now := by
  refine ⟨?_, ?_, ?_⟩
  · intro e he
    rcases List.mem_append.mp he with he | he
    · exact h.past_le e he
    · obtain rfl := List.mem_singleton.mp he
      exact le_rfl
  · intro e he hclose
    rcases List.mem_append.mp he with he | he
    · refine OrderedMap.mem_set_of_ne (h.recorded e he hclose) fun hkey => ?_
      exact absurd ((hidle e he hkey).symm.trans hclose) Bool.false_ne_true
    · obtain rfl := List.mem_singleton.mp he
      exact OrderedMap.mem_set_self
  · refine List.pairwise_append.mpr ⟨h.spaced, List.pairwise_singleton _ _, fun e he e' he' => ?_⟩
    obtain rfl := List.mem_singleton.mp he'
    exact hidle e he

end Commons
