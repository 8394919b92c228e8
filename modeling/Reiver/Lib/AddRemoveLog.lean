import Mathlib.Data.List.Basic
import Mathlib.Order.Lattice

/-! Logs that add and remove keys, an event after the other, and what they say version by version. -/

namespace Reiver

structure LogEvent (V K : Type) where
  version : V
  key : K
  added : Bool
deriving DecidableEq

section AddRemoveLog
variable {V K : Type} [DecidableEq K] {events : List (LogEvent V K)} {e : LogEvent V K} {k : K}

def lastEvent (events : List (LogEvent V K)) (k : K) : Option (LogEvent V K) := (events.filter (·.key = k)).getLast?

theorem lastEvent_concat :
    lastEvent (events ++ [e]) k = if e.key = k then some e else lastEvent events k := by
  rw [lastEvent, List.filter_append]
  by_cases h : e.key = k
  · rw [if_pos h, List.filter_cons_of_pos (by simpa using h), List.filter_nil, List.getLast?_append]
    rfl
  · rw [if_neg h, List.filter_cons_of_neg (by simpa using h), List.filter_nil, List.append_nil]
    rfl

theorem mem_of_lastEvent (h : lastEvent events k = some e) : e ∈ events ∧ e.key = k := by
  obtain ⟨hmem, hkey⟩ := List.mem_filter.mp (List.mem_of_getLast? h)
  exact ⟨hmem, of_decide_eq_true hkey⟩

theorem lastEvent_eq_none : lastEvent events k = none ↔ ∀ e ∈ events, e.key ≠ k := by
  rw [lastEvent, List.getLast?_eq_none_iff, List.filter_eq_nil_iff]
  exact forall₂_congr fun e _ => by rw [decide_eq_true_eq]

variable [LinearOrder V]

/-- A key is live that some version adds and no later version removes, in whatever order its events stand there. -/
def Live (events : List (LogEvent V K)) (k : K) : Prop :=
  ∃ e ∈ events, e.key = k ∧ e.added = true ∧
    ∀ e' ∈ events, e'.key = k → e'.added = false → e'.version ≤ e.version

/-- A version whose removal is the last event of a key does not also add it. -/
def RemovalsAlone (events : List (LogEvent V K)) : Prop :=
  ∀ k, ∀ e ∈ lastEvent events k, e.added = false →
    ∀ e' ∈ events, e'.key = k → e'.added = true → e'.version ≠ e.version

theorem version_le_lastEvent (hsorted : events.Pairwise (·.version ≤ ·.version)) (h : lastEvent events k = some e)
    {e' : LogEvent V K} (he' : e' ∈ events) (hkey : e'.key = k) : e'.version ≤ e.version := by
  have hfiltered := hsorted.filter (·.key = k)
  obtain ⟨before, hsplit⟩ := List.getLast?_eq_some_iff.mp h
  have hmem : e' ∈ before ++ [e] := hsplit ▸ List.mem_filter.mpr ⟨he', decide_eq_true hkey⟩
  rw [hsplit] at hfiltered
  rcases List.mem_append.mp hmem with hbefore | hlast
  · exact (List.pairwise_append.mp hfiltered).2.2 e' hbefore e (List.mem_singleton_self e)
  · rw [List.mem_singleton.mp hlast]

theorem live_of_added_last (hsorted : events.Pairwise (·.version ≤ ·.version)) (h : lastEvent events k = some e)
    (hadded : e.added = true) : Live events k := by
  obtain ⟨hmem, hkey⟩ := mem_of_lastEvent h
  exact ⟨e, hmem, hkey, hadded, fun e' he' hkey' _ => version_le_lastEvent hsorted h he' hkey'⟩

theorem live_iff_of_removed_last (hsorted : events.Pairwise (·.version ≤ ·.version)) (h : lastEvent events k = some e)
    (hadded : e.added = false) :
    Live events k ↔ ∃ e' ∈ events, e'.key = k ∧ e'.added = true ∧ e'.version = e.version := by
  obtain ⟨hmem, hkey⟩ := mem_of_lastEvent h
  constructor
  · rintro ⟨e', he', hkey', hadded', hall⟩
    exact ⟨e', he', hkey', hadded',
      le_antisymm (version_le_lastEvent hsorted h he' hkey') (hall e hmem hkey hadded)⟩
  · rintro ⟨e', he', hkey', hadded', hversion⟩
    exact ⟨e', he', hkey', hadded', fun e'' he'' hkey'' _ => hversion ▸ version_le_lastEvent hsorted h he'' hkey''⟩

theorem lastEvent_live_iff (hsorted : events.Pairwise (·.version ≤ ·.version)) :
    (∀ k, (lastEvent events k).any (·.added) = true ↔ Live events k) ↔ RemovalsAlone events := by
  refine forall_congr' fun k => ?_
  cases hlast : lastEvent events k with
  | none =>
    refine iff_of_true (iff_of_false Bool.false_ne_true ?_) fun e he => by cases he
    rintro ⟨e, he, hkey, -⟩
    exact lastEvent_eq_none.mp hlast e he hkey
  | some e =>
    cases hadded : e.added with
    | true =>
      refine iff_of_true (iff_of_true hadded (live_of_added_last hsorted hlast hadded)) fun e' he' hremoved => ?_
      rw [← Option.some_inj.mp he', hadded] at hremoved
      cases hremoved
    | false =>
      rw [Option.any_some, hadded, live_iff_of_removed_last hsorted hlast hadded]
      simp only [Option.mem_some_iff, forall_eq', hadded, forall_const, Bool.false_eq_true, false_iff, not_exists,
        not_and, ne_eq]

end AddRemoveLog

end Reiver
