import Mathlib.Data.List.Infix

/-! # Regular expressions

Classes of characters one after another, in choice or repeated, what they match, and a matcher by derivatives. -/

namespace Reiver

inductive Regex where
  | never
  | empty
  | one (p : Char → Bool)
  | seq (r s : Regex)
  | alt (r s : Regex)
  | star (r : Regex)

namespace Regex

inductive Matches : Regex → List Char → Prop
  | empty : Matches .empty []
  | one {p : Char → Bool} {c : Char} (h : p c = true) : Matches (.one p) [c]
  | seq {r s : Regex} {v w : List Char} (hr : Matches r v) (hs : Matches s w) : Matches (.seq r s) (v ++ w)
  | left {r s : Regex} {w : List Char} (hr : Matches r w) : Matches (.alt r s) w
  | right {r s : Regex} {w : List Char} (hs : Matches s w) : Matches (.alt r s) w
  | done {r : Regex} : Matches (.star r) []
  | again {r : Regex} {v w : List Char} (hr : Matches r v) (hs : Matches (.star r) w) : Matches (.star r) (v ++ w)

def opt (r : Regex) : Regex := alt r empty

def plus (r : Regex) : Regex := seq r (star r)

def all : List Regex → Regex
  | [] => empty
  | r :: rs => seq r (all rs)

def literal (s : String) : Regex := all (s.toList.map fun c => one (· == c))

/-! ### The matcher -/

def nullable : Regex → Bool
  | never => false
  | empty => true
  | one _ => false
  | seq r s => r.nullable && s.nullable
  | alt r s => r.nullable || s.nullable
  | star _ => true

def deriv (c : Char) : Regex → Regex
  | never => never
  | empty => never
  | one p => if p c then empty else never
  | seq r s => if r.nullable then alt (seq (deriv c r) s) (deriv c s) else seq (deriv c r) s
  | alt r s => alt (deriv c r) (deriv c s)
  | star r => seq (deriv c r) (star r)

def accepts : Regex → List Char → Bool
  | r, [] => r.nullable
  | r, c :: w => (r.deriv c).accepts w

def occursIn (r : Regex) (text : List Char) : Bool := text.tails.any fun rest => rest.inits.any r.accepts

section Proofs
variable {r s : Regex} {c : Char} {w text : List Char} {p : Char → Bool}

theorem not_matches_never : ¬Matches never w := by
  intro h
  cases h

theorem matches_empty_iff : Matches empty w ↔ w = [] := by
  constructor
  · intro h
    cases h
    rfl
  · rintro rfl
    exact .empty

theorem matches_one_iff : Matches (one p) w ↔ ∃ c, p c = true ∧ w = [c] := by
  constructor
  · intro h
    cases h with
    | one hp => exact ⟨_, hp, rfl⟩
  · rintro ⟨c, hp, rfl⟩
    exact .one hp

theorem matches_seq_iff : Matches (seq r s) w ↔ ∃ u v, Matches r u ∧ Matches s v ∧ u ++ v = w := by
  constructor
  · intro h
    cases h with
    | seq hr hs => exact ⟨_, _, hr, hs, rfl⟩
  · rintro ⟨u, v, hr, hs, rfl⟩
    exact .seq hr hs

theorem matches_alt_iff : Matches (alt r s) w ↔ Matches r w ∨ Matches s w := by
  constructor
  · intro h
    cases h with
    | left hr => exact .inl hr
    | right hs => exact .inr hs
  · rintro (hr | hs)
    · exact .left hr
    · exact .right hs

theorem matches_nil_iff : Matches r [] ↔ r.nullable = true := by
  induction r with
  | never => exact iff_of_false not_matches_never Bool.false_ne_true
  | empty => exact iff_of_true .empty rfl
  | one p =>
    refine iff_of_false (fun h => ?_) Bool.false_ne_true
    obtain ⟨c, -, hc⟩ := matches_one_iff.mp h
    cases hc
  | seq r s ihr ihs =>
    rw [matches_seq_iff, nullable, Bool.and_eq_true, ← ihr, ← ihs]
    constructor
    · rintro ⟨u, v, hr, hs, huv⟩
      obtain ⟨rfl, rfl⟩ := List.append_eq_nil_iff.mp huv
      exact ⟨hr, hs⟩
    · rintro ⟨hr, hs⟩
      exact ⟨[], [], hr, hs, rfl⟩
  | alt r s ihr ihs => rw [matches_alt_iff, nullable, Bool.or_eq_true, ihr, ihs]
  | star r _ => exact iff_of_true .done rfl

theorem matches_star_cons :
    Matches (star r) (c :: w) ↔ ∃ u v, Matches r (c :: u) ∧ Matches (star r) v ∧ u ++ v = w := by
  constructor
  · intro h
    generalize hr : star r = t at h
    generalize hw : c :: w = cs at h
    induction h with
    | again hmatch hrest ihmatch ih =>
      rename_i r' v' w'
      cases hr
      cases v' with
      | nil => exact ih rfl hw
      | cons d v' =>
        cases hw
        exact ⟨v', w', hmatch, hrest, rfl⟩
    | done => cases hw
    | empty => cases hr
    | one h => cases hr
    | seq hr' hs' => cases hr
    | left hr' => cases hr
    | right hs' => cases hr
  · rintro ⟨u, v, hr, hs, rfl⟩
    exact Matches.again hr hs

theorem matches_deriv_iff : Matches (r.deriv c) w ↔ Matches r (c :: w) := by
  induction r generalizing w with
  | never => exact iff_of_false not_matches_never not_matches_never
  | empty => exact iff_of_false not_matches_never fun h => List.cons_ne_nil c w (matches_empty_iff.mp h)
  | one p =>
    rw [deriv, matches_one_iff]
    split
    · next hp =>
      rw [matches_empty_iff]
      constructor
      · rintro rfl
        exact ⟨c, hp, rfl⟩
      · rintro ⟨d, -, hd⟩
        exact (List.cons_eq_cons.mp hd).2
    · next hp =>
      refine iff_of_false not_matches_never ?_
      rintro ⟨d, hd, heq⟩
      exact hp ((List.cons_eq_cons.mp heq).1 ▸ hd)
  | seq r s ihr ihs =>
    -- The character is taken by the first part, or by the second one where the first is empty.
    have hcons : Matches (seq r s) (c :: w) ↔
        Matches (seq (r.deriv c) s) w ∨ r.nullable = true ∧ Matches (s.deriv c) w := by
      rw [matches_seq_iff, matches_seq_iff, ihs, ← matches_nil_iff]
      constructor
      · rintro ⟨u, v, hr, hs, huv⟩
        cases u with
        | nil => exact .inr ⟨hr, huv ▸ hs⟩
        | cons d u =>
          cases huv
          exact .inl ⟨u, v, ihr.mpr hr, hs, rfl⟩
      · rintro (⟨u, v, hr, hs, rfl⟩ | ⟨hr, hs⟩)
        · exact ⟨c :: u, v, ihr.mp hr, hs, rfl⟩
        · exact ⟨[], c :: w, hr, hs, rfl⟩
    rw [hcons, deriv]
    split
    · next hnull => rw [matches_alt_iff, and_iff_right hnull]
    · next hnull => rw [or_iff_left fun h => hnull h.1]
  | alt r s ihr ihs => rw [deriv, matches_alt_iff, matches_alt_iff, ihr, ihs]
  | star r ih =>
    rw [deriv, matches_seq_iff, matches_star_cons]
    exact exists_congr fun u => exists_congr fun v => and_congr_left fun _ => ih

theorem accepts_iff : r.accepts w = true ↔ Matches r w := by
  induction w generalizing r with
  | nil => exact matches_nil_iff.symm
  | cons c w ih => exact ih.trans matches_deriv_iff

theorem occursIn_iff : r.occursIn text = true ↔ ∃ w, w <:+: text ∧ Matches r w := by
  simp only [occursIn, List.any_eq_true, List.mem_tails, List.mem_inits, accepts_iff]
  constructor
  · rintro ⟨rest, hrest, w, hw, hmatch⟩
    exact ⟨w, hw.isInfix.trans hrest.isInfix, hmatch⟩
  · rintro ⟨w, ⟨before, after, htext⟩, hmatch⟩
    exact ⟨w ++ after, ⟨before, by rw [← htext, List.append_assoc]⟩, w, List.prefix_append w after, hmatch⟩

theorem matches_literal_seq {s : String} {rest : Regex} (h : Matches (seq (literal s) rest) w) : s.toList <+: w := by
  obtain ⟨u, v, hliteral, -, rfl⟩ := matches_seq_iff.mp h
  have hu : ∀ (cs u : List Char), Matches (all (cs.map fun c => one (· == c))) u → u = cs := by
    intro cs
    induction cs with
    | nil => exact fun u hu => matches_empty_iff.mp hu
    | cons c cs ih =>
      intro u hu
      obtain ⟨first, others, hfirst, hothers, rfl⟩ := matches_seq_iff.mp hu
      obtain ⟨d, hd, rfl⟩ := matches_one_iff.mp hfirst
      rw [ih others hothers, beq_iff_eq.mp hd]
      rfl
  exact hu s.toList u hliteral ▸ List.prefix_append u v

end Proofs

end Regex

end Reiver
