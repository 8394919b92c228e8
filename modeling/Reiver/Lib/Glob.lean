import Reiver.Lib.LengthPrefixed
import Mathlib.Data.List.Basic

/-! Glob patterns for paths: a star stands for any text within a path component, two for any text at all, a question
    mark for a character, and braces for each of the alternatives in them. -/

namespace Reiver

inductive GlobMatches : List Char → List Char → Prop
  | nil : GlobMatches [] []
  | char {c : Char} {p s : List Char} (hstar : c ≠ '*') (hany : c ≠ '?') (hbrace : c ≠ '\x7b') (h : GlobMatches p s) :
      GlobMatches (c :: p) (c :: s)
  | any {c : Char} {p s : List Char} (hc : c ≠ '/') (h : GlobMatches p s) : GlobMatches ('?' :: p) (c :: s)
  | star {p t s : List Char} (hp : p.head? ≠ some '*') (ht : '/' ∉ t) (h : GlobMatches p s) :
      GlobMatches ('*' :: p) (t ++ s)
  | deep {p t s : List Char} (h : GlobMatches p s) : GlobMatches ('*' :: '*' :: p) (t ++ s)
  | braces {body a p s : List Char} (hbody : '\x7b' ∉ body ∧ '\x7d' ∉ body) (ha : a ∈ body.splitOn ',')
      (h : GlobMatches (a ++ p) s) : GlobMatches ('\x7b' :: (body ++ '\x7d' :: p)) s

def Plain (l : List Char) : Prop := ∀ c ∈ l, c ∉ ['*', '?', '\x7b', '\x7d', ',']

instance (l : List Char) : Decidable (Plain l) := List.decidableBAll _ l

namespace GlobMatches
variable {p q l s : List Char}

theorem nil_iff : GlobMatches [] s ↔ s = [] := by
  constructor
  · intro h
    cases h
    rfl
  · rintro rfl
    exact nil

theorem char_iff {c : Char} (hc : c ∉ ['*', '?', '\x7b']) :
    GlobMatches (c :: p) s ↔ ∃ s', s = c :: s' ∧ GlobMatches p s' := by
  simp only [List.mem_cons, List.not_mem_nil, or_false, not_or] at hc
  constructor
  · intro h
    cases h with
    | char _ _ _ h => exact ⟨_, rfl, h⟩
    | any => exact absurd rfl hc.2.1
    | star => exact absurd rfl hc.1
    | deep => exact absurd rfl hc.1
    | braces => exact absurd rfl hc.2.2
  · rintro ⟨s', rfl, h⟩
    exact char hc.1 hc.2.1 hc.2.2 h

theorem plain_iff (hl : Plain l) : GlobMatches (l ++ p) s ↔ ∃ s', s = l ++ s' ∧ GlobMatches p s' := by
  induction l generalizing s with
  | nil => exact ⟨fun h => ⟨s, rfl, h⟩, fun ⟨_, rfl, h⟩ => h⟩
  | cons c l ih =>
    obtain ⟨hc, hl⟩ := List.forall_mem_cons.mp hl
    have hc : c ∉ ['*', '?', '\x7b'] := fun hmem => hc (by simp only [List.mem_cons] at hmem ⊢; tauto)
    rw [List.cons_append, char_iff hc]
    constructor
    · rintro ⟨s', rfl, h⟩
      obtain ⟨t, rfl, htail⟩ := (ih hl).mp h
      exact ⟨t, rfl, htail⟩
    · rintro ⟨t, rfl, h⟩
      exact ⟨l ++ t, rfl, (ih hl).mpr ⟨t, rfl, h⟩⟩

theorem self_iff (hl : Plain l) : GlobMatches l s ↔ s = l := by
  have h := @plain_iff [] l s hl
  rw [List.append_nil] at h
  rw [h]
  constructor
  · rintro ⟨s', rfl, hs⟩
    rw [nil_iff.mp hs, List.append_nil]
  · rintro rfl
    exact ⟨[], (List.append_nil _).symm, nil⟩

theorem braces_iff {ps : List (List Char)} (hne : ps ≠ []) (hps : ∀ p ∈ ps, '\x7b' ∉ p ∧ '\x7d' ∉ p ∧ ',' ∉ p) :
    GlobMatches ('\x7b' :: ([','].intercalate ps ++ ['\x7d'])) s ↔ ∃ p ∈ ps, GlobMatches p s := by
  have hmem : ∀ {c : Char}, c ≠ ',' → (∀ p ∈ ps, c ∉ p) → c ∉ [','].intercalate ps := by
    intro c hcomma hc
    induction ps with
    | nil => exact List.not_mem_nil
    | cons p rest ih =>
      by_cases hrest : rest = []
      · subst hrest
        rw [List.intercalate_singleton]
        exact hc p List.mem_cons_self
      · rw [List.intercalate_cons_of_ne_nil hrest]
        simp only [List.mem_append, List.mem_singleton, not_or]
        exact ⟨⟨hc p List.mem_cons_self, hcomma⟩, ih hrest (fun q hq => hps q (List.mem_cons_of_mem _ hq))
          fun q hq => hc q (List.mem_cons_of_mem _ hq)⟩
  have hopen := hmem (c := '\x7b') (by decide) fun p hp => (hps p hp).1
  have hclose := hmem (c := '\x7d') (by decide) fun p hp => (hps p hp).2.1
  have hsplit := List.splitOn_intercalate ',' (fun p hp => (hps p hp).2.2) hne
  constructor
  · intro h
    generalize hpat : '\x7b' :: ([','].intercalate ps ++ ['\x7d']) = pat at h
    cases h with
    | nil => cases hpat
    | char _ _ hbrace => exact absurd (List.cons.inj hpat).1.symm hbrace
    | any => exact absurd (List.cons.inj hpat).1 (by decide)
    | star => exact absurd (List.cons.inj hpat).1 (by decide)
    | deep => exact absurd (List.cons.inj hpat).1 (by decide)
    | braces hbody ha h =>
      obtain ⟨rfl, rfl⟩ := split_at_first hclose hbody.2 (List.cons.inj hpat).2
      rw [hsplit] at ha
      rw [List.append_nil] at h
      exact ⟨_, ha, h⟩
  · rintro ⟨p, hp, h⟩
    refine braces ⟨hopen, hclose⟩ (a := p) (by rwa [hsplit]) ?_
    rwa [List.append_nil]

end GlobMatches

end Reiver
