import Mathlib.Data.List.TakeWhile
import Reiver.Watch.Fingerprint

/-! # Plain forms

The plain form of a message has its words one space apart and an `N` for each run of digits. It is what messages of one
shape share, and what the loop over the message makes. -/

namespace Reiver.Watch

/-! ### Plain forms -/

/-- A run of digits becomes an `N`. The flag says that a digit came before. -/
def hideDigits : Bool → List Char → List Char
  | _, [] => []
  | afterDigit, c :: cs =>
    if c.isDigit then if afterDigit then hideDigits true cs else 'N' :: hideDigits true cs
    else c :: hideDigits false cs

def words (message : List Char) : List (List Char) := (message.splitOnP isWhitespace).filter (· ≠ [])

def plainForm (message : List Char) : List Char := [' '].intercalate ((words message).map (hideDigits false))

/-- Two texts that differ in runs of digits and in runs of whitespace. -/
inductive SameShape : List Char → List Char → Prop
  | nil : SameShape [] []
  | char {c : Char} {l l' : List Char} (hdigit : c.isDigit = false) (hspace : isWhitespace c = false)
    (h : SameShape l l') : SameShape (c :: l) (c :: l')
  | digits {run run' l l' : List Char} (hne : run ≠ [] ∧ run' ≠ []) (hrun : ∀ c ∈ run ++ run', c.isDigit = true)
    (h : SameShape l l') : SameShape (run ++ l) (run' ++ l')
  | blanks {run run' l l' : List Char} (hne : run ≠ [] ∧ run' ≠ []) (hrun : ∀ c ∈ run ++ run', isWhitespace c = true)
    (h : SameShape l l') : SameShape (run ++ l) (run' ++ l')

/-- `str::trim`. -/
def trim (l : List Char) : List Char := ((l.dropWhile isWhitespace).reverse.dropWhile isWhitespace).reverse

variable {l l' run r : List Char} {d w : Bool} {c : Char}

theorem isDigit_not_space (h : c.isDigit = true) : isWhitespace c = false := by
  rw [Char.isDigit, Bool.and_eq_true, decide_eq_true_eq, decide_eq_true_eq] at h
  obtain ⟨hlo, hhi⟩ := h
  have hlo : 48 ≤ c.toNat := hlo
  have hhi : c.toNat ≤ 57 := hhi
  simp only [isWhitespace, List.mem_cons, List.not_mem_nil, or_false, Bool.or_eq_false_iff, Bool.and_eq_false_iff,
    decide_eq_false_iff_not]
  omega

/-! ### The loop -/

theorem loop_digit (h : c.isDigit = true) :
    normalizeLoop d w (c :: l) = if d then normalizeLoop true false l else 'N' :: normalizeLoop true false l := by
  rw [normalizeLoop, if_pos h]

theorem loop_blank (h : isWhitespace c = true) :
    normalizeLoop d w (c :: l) = if w then normalizeLoop false true l else ' ' :: normalizeLoop false true l := by
  have hdigit : ¬c.isDigit = true := fun hd => by
    rw [isDigit_not_space hd] at h
    cases h
  rw [normalizeLoop, if_neg hdigit, if_pos h]

theorem loop_char (hdigit : c.isDigit = false) (hspace : isWhitespace c = false) :
    normalizeLoop d w (c :: l) = c :: normalizeLoop false false l := by
  rw [normalizeLoop, if_neg (Bool.eq_false_iff.mp hdigit), if_neg (Bool.eq_false_iff.mp hspace)]

theorem loop_digits (hne : run ≠ []) (hrun : ∀ c ∈ run, c.isDigit = true) :
    normalizeLoop d w (run ++ l) = (if d then [] else ['N']) ++ normalizeLoop true false l := by
  induction run generalizing d w with
  | nil => exact absurd rfl hne
  | cons c run ih =>
    rw [List.cons_append, loop_digit (hrun c List.mem_cons_self)]
    have hrest : normalizeLoop true false (run ++ l) = normalizeLoop true false l := by
      cases run with
      | nil => rfl
      | cons c' run => exact ih (List.cons_ne_nil _ _) fun x hx => hrun x (List.mem_cons_of_mem _ hx)
    rw [hrest]
    cases d <;> rfl

theorem loop_blanks (hne : run ≠ []) (hrun : ∀ c ∈ run, isWhitespace c = true) :
    normalizeLoop d w (run ++ l) = (if w then [] else [' ']) ++ normalizeLoop false true l := by
  induction run generalizing d w with
  | nil => exact absurd rfl hne
  | cons c run ih =>
    rw [List.cons_append, loop_blank (hrun c List.mem_cons_self)]
    have hrest : normalizeLoop false true (run ++ l) = normalizeLoop false true l := by
      cases run with
      | nil => rfl
      | cons c' run => exact ih (List.cons_ne_nil _ _) fun x hx => hrun x (List.mem_cons_of_mem _ hx)
    rw [hrest]
    cases w <;> rfl

theorem loop_sameShape (h : SameShape l l') : normalizeLoop d w l = normalizeLoop d w l' := by
  induction h generalizing d w with
  | nil => rfl
  | char hdigit hspace _ ih => rw [loop_char hdigit hspace, loop_char hdigit hspace, ih]
  | digits hne hrun _ ih =>
    obtain ⟨hrun, hrun'⟩ := List.forall_mem_append.mp hrun
    rw [loop_digits hne.1 hrun, loop_digits hne.2 hrun', ih]
  | blanks hne hrun _ ih =>
    obtain ⟨hrun, hrun'⟩ := List.forall_mem_append.mp hrun
    rw [loop_blanks hne.1 hrun, loop_blanks hne.2 hrun', ih]

theorem loop_word (hword : ∀ c ∈ run, isWhitespace c = false) (hrest : ∀ c ∈ l.head?, isWhitespace c = true)
    (hne : run ≠ []) : normalizeLoop d w (run ++ l) = hideDigits d run ++ normalizeLoop false false l := by
  induction run generalizing d w with
  | nil => exact absurd rfl hne
  | cons c run ih =>
    have hspace := hword c List.mem_cons_self
    have hlater : ∀ d, normalizeLoop d false (run ++ l) = hideDigits d run ++ normalizeLoop false false l := by
      intro d
      cases run with
      | cons c' run => exact ih (fun x hx => hword x (List.mem_cons_of_mem _ hx)) (List.cons_ne_nil _ _)
      | nil =>
        cases l with
        | nil => rfl
        | cons b l => rw [List.nil_append, loop_blank (hrest b rfl), loop_blank (hrest b rfl)]; rfl
    rw [List.cons_append, hideDigits]
    by_cases hdigit : c.isDigit = true
    · rw [loop_digit hdigit, if_pos hdigit, hlater]
      cases d <;> rfl
    · rw [loop_char (eq_false_of_ne_true hdigit) hspace, if_neg hdigit, hlater, List.cons_append]

/-! ### The last space -/

theorem popSpace_eq_self (h : l.getLast? ≠ some ' ') : popSpace l = l := by
  rw [popSpace, if_neg]
  simp only [endsText, decide_eq_true_eq]
  rintro ⟨before, rfl⟩
  exact h (List.getLast?_concat ..)

theorem popSpace_concat : popSpace (l ++ [' ']) = l := by
  rw [popSpace, if_pos, List.dropLast_concat]
  exact decide_eq_true ⟨l, rfl⟩

theorem popSpace_append (hr : r ≠ []) : popSpace (l ++ r) = l ++ popSpace r := by
  by_cases h : r.getLast? = some ' '
  · obtain ⟨before, rfl⟩ := List.getLast?_eq_some_iff.mp h
    rw [← List.append_assoc, popSpace_concat, popSpace_concat]
  · rw [popSpace_eq_self h, popSpace_eq_self]
    rwa [List.getLast?_append_of_ne_nil _ hr]

/-! ### The plain form is what the loop makes -/

theorem words_append_blank {b : Char} (hb : isWhitespace b = true) : words (l ++ b :: r) = words l ++ words r := by
  rw [words, List.splitOnP_append_cons l r hb, List.filter_append]
  rfl

theorem words_blanks (hrun : ∀ c ∈ run, isWhitespace c = true) : words (run ++ l) = words l := by
  induction run with
  | nil => rfl
  | cons b run ih =>
    rw [List.cons_append, ← List.nil_append (b :: _), words_append_blank (hrun b List.mem_cons_self),
      ih fun x hx => hrun x (List.mem_cons_of_mem _ hx)]
    rfl

theorem words_trailing (hrun : ∀ c ∈ run, isWhitespace c = true) : words (l ++ run) = words l := by
  cases run with
  | nil => rw [List.append_nil]
  | cons b run =>
    have hrest := words_blanks (l := []) fun x hx => hrun x (List.mem_cons_of_mem b hx)
    rw [words_append_blank (hrun b List.mem_cons_self), ← List.append_nil run, hrest]
    exact List.append_nil _

theorem words_word (hword : ∀ c ∈ run, isWhitespace c = false) (hne : run ≠ []) : words run = [run] := by
  rw [words, List.splitOnP_eq_singleton hword]
  exact List.filter_cons_of_pos (decide_eq_true hne)

theorem dropWhile_blank (l : List Char) :
    ∃ run, l = run ++ l.dropWhile isWhitespace ∧ ∀ c ∈ run, isWhitespace c = true :=
  ⟨l.takeWhile isWhitespace, List.takeWhile_append_dropWhile.symm, fun _ h => List.mem_takeWhile_imp h⟩

theorem words_trim (l : List Char) : words (trim l) = words l := by
  obtain ⟨run, hl, hrun⟩ := dropWhile_blank l
  obtain ⟨run', hr, hrun'⟩ := dropWhile_blank (l.dropWhile isWhitespace).reverse
  have hr := congrArg List.reverse hr
  rw [List.reverse_reverse, List.reverse_append] at hr
  have htrim : words (l.dropWhile isWhitespace) = words (trim l) := by
    rw [hr]
    exact words_trailing fun c hc => hrun' c (List.mem_reverse.mp hc)
  rw [← htrim, ← words_blanks hrun, ← hl]

theorem hideDigits_eq_nil (hrun : hideDigits false run = []) : run = [] := by
  cases run with
  | nil => rfl
  | cons c run =>
    rw [hideDigits] at hrun
    split at hrun <;> cases hrun

theorem hideDigits_spaceless (hrun : ∀ c ∈ run, isWhitespace c = false) : ' ' ∉ hideDigits d run := by
  induction run generalizing d with
  | nil => exact List.not_mem_nil
  | cons c run ih =>
    have hrest : ∀ d, ' ' ∉ hideDigits d run := fun d => ih fun x hx => hrun x (List.mem_cons_of_mem _ hx)
    have hN : ' ' ∉ 'N' :: hideDigits true run := fun h => (List.mem_cons.mp h).elim (by decide) (hrest true)
    rw [hideDigits]
    split_ifs with hdigit hafter
    · exact hrest true
    · exact hN
    · rintro (_ | ⟨_, h⟩)
      · cases hrun ' ' List.mem_cons_self
      · exact hrest false h

theorem last_hideDigits (hrun : ∀ c ∈ run, isWhitespace c = false) : (hideDigits d run).getLast? ≠ some ' ' := fun h =>
  hideDigits_spaceless hrun (List.mem_of_getLast? h)

/-- What the loop leaves behind whitespace: nothing if there are no words, else the plain form and perhaps a space. -/
theorem loop_plainForm (message : List Char) :
    (normalizeLoop false true message = [] ↔ words message = []) ∧
      popSpace (normalizeLoop false true message) = plainForm message := by
  induction hn : message.length using Nat.strong_induction_on generalizing message with
  | _ n ih =>
  cases message with
  | nil => exact ⟨by decide, rfl⟩
  | cons c l =>
    by_cases hspace : isWhitespace c = true
    · obtain ⟨hnil, hplain⟩ := ih l.length (hn ▸ Nat.lt_succ_self _) l rfl
      have hblank : ∀ x ∈ [c], isWhitespace x = true := fun x hx => List.mem_singleton.mp hx ▸ hspace
      have hwords : words (c :: l) = words l := words_blanks hblank
      rw [loop_blank hspace, if_pos rfl, plainForm, hwords]
      exact ⟨hnil, hplain⟩
    · -- The first word, and what is behind it.
      obtain ⟨run, rest, hl, hne, hrun, hrest⟩ : ∃ run rest, c :: l = run ++ rest ∧ run ≠ [] ∧
          (∀ c ∈ run, isWhitespace c = false) ∧ ∀ c ∈ rest.head?, isWhitespace c = true := by
        refine ⟨(c :: l).takeWhile (!isWhitespace ·), (c :: l).dropWhile (!isWhitespace ·),
          List.takeWhile_append_dropWhile.symm, ?_, fun x hx => ?_, fun x hx => ?_⟩
        · rw [List.takeWhile_cons_of_pos (by simp [hspace])]
          exact List.cons_ne_nil _ _
        · have hnot := List.mem_takeWhile_imp hx
          simpa using hnot
        · have hhead := List.head?_dropWhile_not (!isWhitespace ·) (c :: l)
          rw [Option.mem_def.mp hx] at hhead
          simpa using hhead
      rw [hl, loop_word hrun hrest hne]
      cases rest with
      | nil =>
        rw [normalizeLoop, List.append_nil, List.append_nil, plainForm, words_word hrun hne,
          popSpace_eq_self (last_hideDigits hrun)]
        exact ⟨iff_of_false (fun h => hne (hideDigits_eq_nil h)) (List.cons_ne_nil _ _), by
          rw [List.map_singleton, List.intercalate_singleton]⟩
      | cons b r =>
        have hb := hrest b rfl
        have hlt : r.length < n := by
          have hlen := congrArg List.length hl
          rw [hn, List.length_append, List.length_cons] at hlen
          have := List.length_pos_of_ne_nil hne
          omega
        obtain ⟨hnil, hplain⟩ := ih r.length hlt r rfl
        have hwords : words (run ++ b :: r) = run :: words r := by
          rw [words_append_blank hb, words_word hrun hne, List.singleton_append]
        rw [loop_blank hb, if_neg Bool.false_ne_true]
        refine ⟨iff_of_false (List.append_ne_nil_of_right_ne_nil _ (List.cons_ne_nil _ _)) ?_, ?_⟩
        · rw [hwords]
          exact List.cons_ne_nil _ _
        · rw [plainForm, hwords, List.map_cons, popSpace_append (List.cons_ne_nil _ _)]
          by_cases hr : words r = []
          · rw [hnil.mpr hr, hr, List.map_nil, List.intercalate_singleton, ← List.nil_append [' '], popSpace_concat,
              List.append_nil]
          · have hloop : normalizeLoop false true r ≠ [] := fun h => hr (hnil.mp h)
            have hmap : (words r).map (hideDigits false) ≠ [] := fun h => hr (List.map_eq_nil_iff.mp h)
            rw [List.intercalate_cons_of_ne_nil hmap, ← List.singleton_append, popSpace_append hloop, hplain,
              List.append_assoc]
            rfl

theorem collapse_eq_plainForm (message : List Char) : collapse message = plainForm message :=
  (loop_plainForm message).2

theorem plainForm_sameShape {message message' : List Char} (h : SameShape (trim message) (trim message')) :
    plainForm message = plainForm message' := by
  have hkeep : ∀ l, plainForm (trim l) = plainForm l := fun l => by rw [plainForm, words_trim, plainForm]
  rw [← hkeep, ← hkeep message', ← collapse_eq_plainForm, ← collapse_eq_plainForm, collapse, collapse, loop_sameShape h]

/-! ### Tidy texts -/

/-- No digits, and no whitespace but single spaces. The flag says that a space came before. -/
def tidy : Bool → List Char → Bool
  | _, [] => true
  | afterSpace, c :: cs =>
    !c.isDigit && if isWhitespace c then c = ' ' && !afterSpace && tidy true cs else tidy false cs

theorem tidy_char (hdigit : c.isDigit = false) (hspace : isWhitespace c = false) (h : tidy false l = true) :
    tidy w (c :: l) = true := by
  rw [tidy, hdigit, hspace]
  exact h

theorem tidy_loop (hafter : d = true → w = false) : tidy w (normalizeLoop d w l) = true := by
  induction l generalizing d w with
  | nil => rfl
  | cons c l ih =>
    by_cases hdigit : c.isDigit = true
    · rw [loop_digit hdigit]
      cases d with
      | false => exact tidy_char (by decide) (by decide) (ih fun _ => rfl)
      | true =>
        rw [hafter rfl]
        exact ih fun _ => rfl
    · by_cases hspace : isWhitespace c = true
      · rw [loop_blank hspace]
        cases w with
        | true => exact ih fun h => nomatch h
        | false => exact ih fun h => nomatch h
      · rw [loop_char (eq_false_of_ne_true hdigit) (eq_false_of_ne_true hspace)]
        exact tidy_char (eq_false_of_ne_true hdigit) (eq_false_of_ne_true hspace) (ih fun _ => rfl)

theorem loop_of_tidy (h : tidy w l = true) : normalizeLoop d w l = l := by
  induction l generalizing d w with
  | nil => rfl
  | cons c l ih =>
    rw [tidy, Bool.and_eq_true] at h
    obtain ⟨hdigit, h⟩ := h
    have hdigit : c.isDigit = false := by simpa using hdigit
    by_cases hspace : isWhitespace c = true
    · rw [if_pos hspace, Bool.and_eq_true, Bool.and_eq_true, decide_eq_true_eq] at h
      obtain ⟨⟨rfl, hw⟩, h⟩ := h
      rw [loop_blank hspace, ih h, if_neg (by simpa using hw)]
    · rw [if_neg hspace] at h
      rw [loop_char hdigit (eq_false_of_ne_true hspace), ih h]

theorem tidy_of_append (h : tidy w (l ++ r) = true) : tidy w l = true := by
  induction l generalizing w with
  | nil => rfl
  | cons c l ih =>
    rw [List.cons_append, tidy] at h
    rw [tidy]
    split_ifs at h ⊢ with hspace
    · rw [Bool.and_eq_true, Bool.and_eq_true] at h ⊢
      exact ⟨h.1, h.2.1, ih h.2.2⟩
    · rw [Bool.and_eq_true] at h ⊢
      exact ⟨h.1, ih h.2⟩

theorem not_tidy_spaces : tidy w (l ++ ' ' :: ' ' :: r) = false := by
  induction l generalizing w with
  | nil => cases w <;> rfl
  | cons c l ih =>
    rw [List.cons_append, tidy, ih, ih, Bool.and_false, ite_self, Bool.and_false]

theorem tidy_mem (h : tidy w l = true) (hc : c ∈ l) : c.isDigit = false ∧ (isWhitespace c = true → c = ' ') := by
  induction l generalizing w with
  | nil => cases hc
  | cons x l ih =>
    rw [tidy, Bool.and_eq_true] at h
    obtain ⟨hdigit, h⟩ := h
    by_cases hspace : isWhitespace x = true
    · rw [if_pos hspace, Bool.and_eq_true, Bool.and_eq_true, decide_eq_true_eq] at h
      rcases List.mem_cons.mp hc with rfl | hc
      · exact ⟨by simpa using hdigit, fun _ => h.1.1⟩
      · exact ih h.2 hc
    · rw [if_neg hspace] at h
      rcases List.mem_cons.mp hc with rfl | hc
      · exact ⟨by simpa using hdigit, fun hspace' => absurd hspace' hspace⟩
      · exact ih h hc

/-- A text that is left as it is, but for its words. -/
structure Neat (l : List Char) : Prop where
  tidy : tidy true l = true
  last : l.getLast? ≠ some ' '

theorem neat_collapse (message : List Char) : Neat (collapse message) := by
  have htidy := tidy_loop (d := false) (w := true) (l := message) fun h => nomatch h
  rw [collapse]
  by_cases h : (normalizeLoop false true message).getLast? = some ' '
  · obtain ⟨before, hbefore⟩ := List.getLast?_eq_some_iff.mp h
    rw [hbefore, popSpace_concat]
    rw [hbefore] at htidy
    refine ⟨tidy_of_append htidy, fun hlast => ?_⟩
    obtain ⟨front, rfl⟩ := List.getLast?_eq_some_iff.mp hlast
    rw [List.append_assoc, List.singleton_append, not_tidy_spaces] at htidy
    cases htidy
  · rw [popSpace_eq_self h]
    exact ⟨htidy, h⟩

theorem Neat.collapse_eq (h : Neat l) : collapse l = l := by
  rw [collapse, loop_of_tidy h.tidy, popSpace_eq_self h.last]

theorem Neat.needsNothing (h : Neat l) : needsDigitReplacement l = false ∧ needsWhitespaceNormalization l = false := by
  refine ⟨List.any_eq_false.mpr fun c hc => by rw [(tidy_mem h.tidy hc).1]; exact Bool.false_ne_true, ?_⟩
  simp only [needsWhitespaceNormalization, Bool.or_eq_false_iff, containsText, startsText, endsText,
    decide_eq_false_iff_not]
  refine ⟨⟨⟨List.any_eq_false.mpr fun c hc hcontrol => ?_, ?_⟩, ?_⟩, ?_⟩
  · have hspace := (tidy_mem h.tidy hc).2
    simp only [Bool.or_eq_true, decide_eq_true_eq] at hcontrol
    rcases hcontrol with (rfl | rfl) | rfl <;> exact absurd (hspace (by decide)) (by decide)
  · rintro ⟨before, after, rfl⟩
    have htidy := h.tidy
    rw [List.append_assoc] at htidy
    exact Bool.false_ne_true ((not_tidy_spaces (l := before) (r := after)).symm.trans htidy)
  · rintro ⟨after, rfl⟩
    exact Bool.false_ne_true h.tidy
  · rintro ⟨before, rfl⟩
    exact h.last List.getLast?_concat

theorem Neat.isFast (h : Neat l) : isFast l = !needsMessageReplacement l := by
  obtain ⟨hdigits, hspaces⟩ := h.needsNothing
  rw [Watch.isFast, hdigits, hspaces]
  rfl

end Reiver.Watch
