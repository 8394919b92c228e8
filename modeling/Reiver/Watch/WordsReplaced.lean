import Reiver.Watch.PlainForm

/-! # Words that are replaced

Replacing words keeps a text neat and makes it shorter. Of two words that share a space the second one is left. -/

namespace Reiver.Watch

variable {l r : List Char} {w : Bool} {c : Char}

/-! ### Replacing words -/

theorem replacer_ne_nil : ∀ replacement ∈ messageReplacer, replacement.1 ≠ [] := by decide

theorem replaceFrom_drop (skip : Nat) (l : List Char) : replaceFrom skip l = replaceAll (l.drop skip) := by
  induction skip generalizing l with
  | zero => rfl
  | succ skip ih =>
    cases l with
    | nil => rfl
    | cons c l => exact ih l

theorem replaceAll_cases (c : Char) (l : List Char) :
    ((∀ replacement ∈ messageReplacer, ¬replacement.1 <+: c :: l) ∧ replaceAll (c :: l) = c :: replaceAll l) ∨
      ∃ replacement ∈ messageReplacer, ∃ r, c :: l = replacement.1 ++ r ∧
        replaceAll (c :: l) = replacement.2 ++ replaceAll r := by
  cases hfind : messageReplacer.find? (·.1 <+: c :: l) with
  | none =>
    refine Or.inl ⟨fun replacement hmem => ?_, ?_⟩
    · simpa using List.find?_eq_none.mp hfind replacement hmem
    · rw [replaceAll, replaceFrom, hfind]
      rfl
  | some replacement =>
    have hmem := List.mem_of_find?_eq_some hfind
    have hprefix : replacement.1 <+: c :: l := by simpa using List.find?_some hfind
    obtain ⟨r, hr⟩ := hprefix
    refine Or.inr ⟨replacement, hmem, r, hr.symm, ?_⟩
    rw [replaceAll, replaceFrom, hfind]
    dsimp only
    obtain ⟨x, p, hp⟩ := List.exists_cons_of_ne_nil (replacer_ne_nil replacement hmem)
    rw [hp, List.cons_append, List.cons.injEq] at hr
    rw [replaceFrom_drop, hp, ← hr.2, List.length_cons, Nat.add_sub_cancel, List.drop_left]

theorem needs_iff :
    needsMessageReplacement l = true ↔ ∃ s, s <:+ l ∧ ∃ replacement ∈ messageReplacer, replacement.1 <+: s := by
  simp only [needsMessageReplacement, containsText, Bool.or_eq_true, decide_eq_true_eq, List.infix_iff_prefix_suffix,
    messageReplacer, List.mem_cons, List.not_mem_nil, or_false, exists_eq_or_imp, exists_eq_left]
  constructor
  · rintro ((⟨s, hp, hs⟩ | ⟨s, hp, hs⟩) | ⟨s, hp, hs⟩)
    · exact ⟨s, hs, Or.inl hp⟩
    · exact ⟨s, hs, Or.inr (Or.inl hp)⟩
    · exact ⟨s, hs, Or.inr (Or.inr hp)⟩
  · rintro ⟨s, hs, hp | hp | hp⟩
    · exact Or.inl (Or.inl ⟨s, hp, hs⟩)
    · exact Or.inl (Or.inr ⟨s, hp, hs⟩)
    · exact Or.inr ⟨s, hp, hs⟩

theorem needs_cons : needsMessageReplacement (c :: l) = true ↔
    (∃ replacement ∈ messageReplacer, replacement.1 <+: c :: l) ∨ needsMessageReplacement l = true := by
  rw [needs_iff, needs_iff]
  constructor
  · rintro ⟨s, hs, h⟩
    rcases List.suffix_cons_iff.mp hs with rfl | hs
    · exact Or.inl h
    · exact Or.inr ⟨s, hs, h⟩
  · rintro (h | ⟨s, hs, h⟩)
    · exact ⟨_, List.suffix_refl _, h⟩
    · exact ⟨s, hs.trans (List.suffix_cons _ _), h⟩

/-- A text that begins the result was there before, unless it takes part in what words are replaced with. -/
def Unmade (q : List Char) : Prop :=
  ∀ s ∈ q.tails, s ≠ [] → ∀ replacement ∈ messageReplacer,
    ¬replacement.2 <+: s ∧ (s <+: replacement.2 → s <+: replacement.1)

instance (q : List Char) : Decidable (Unmade q) := inferInstanceAs (Decidable (∀ s ∈ q.tails, _))

theorem prefix_of_replaceAll {q : List Char} (hq : Unmade q) (h : q <+: replaceAll l) : q <+: l := by
  induction q generalizing l with
  | nil => exact List.nil_prefix
  | cons x q ih =>
    cases l with
    | nil => exact absurd (List.prefix_nil.mp h) (List.cons_ne_nil _ _)
    | cons c l =>
      rcases replaceAll_cases c l with ⟨-, hkeep⟩ | ⟨replacement, hmem, r, hsplit, hreplace⟩
      · rw [hkeep, List.cons_prefix_cons] at h
        refine List.cons_prefix_cons.mpr ⟨h.1, ih (fun s hs => hq s ?_) h.2⟩
        exact (List.mem_tails ..).mpr (((List.mem_tails ..).mp hs).trans (List.suffix_cons _ _))
      · obtain ⟨hnot, hsame⟩ := hq (x :: q) ((List.mem_tails ..).mpr (List.suffix_refl _)) (List.cons_ne_nil _ _)
          replacement hmem
        rw [hreplace] at h
        rw [hsplit]
        rcases List.prefix_or_prefix_of_prefix h (List.prefix_append _ _) with hle | hle
        · exact (hsame hle).trans (List.prefix_append _ _)
        · exact absurd hle hnot

theorem unmade_patterns : ∀ replacement ∈ messageReplacer, Unmade replacement.1 := by decide

theorem replaceAll_induct {motive : List Char → List Char → Prop} (nil : motive [] [])
    (keep : ∀ c l, (∀ replacement ∈ messageReplacer, ¬replacement.1 <+: c :: l) →
      replaceAll (c :: l) = c :: replaceAll l → motive l (replaceAll l) → motive (c :: l) (c :: replaceAll l))
    (replace : ∀ replacement ∈ messageReplacer, ∀ r, motive r (replaceAll r) →
      motive (replacement.1 ++ r) (replacement.2 ++ replaceAll r)) (l : List Char) : motive l (replaceAll l) := by
  induction hn : l.length using Nat.strong_induction_on generalizing l with
  | _ n ih =>
  cases l with
  | nil => exact nil
  | cons c l =>
    rcases replaceAll_cases c l with ⟨hnone, hkeep⟩ | ⟨replacement, hmem, r, hsplit, hreplace⟩
    · exact hkeep ▸ keep c l hnone hkeep (ih l.length (hn ▸ Nat.lt_succ_self _) l rfl)
    · have hpos := List.length_pos_of_ne_nil (replacer_ne_nil replacement hmem)
      have hlen := congrArg List.length hsplit
      rw [hn, List.length_append] at hlen
      rw [hreplace, hsplit]
      exact replace replacement hmem r (ih r.length (by omega) r rfl)

theorem tidy_replaceAll (h : tidy w l = true) : tidy w (replaceAll l) = true := by
  have hsame : ∀ replacement ∈ messageReplacer, ∀ w r, tidy w (replacement.1 ++ r) = true →
      (∀ w, tidy w r = true → tidy w (replaceAll r) = true) → tidy w (replacement.2 ++ replaceAll r) = true := by
    simp only [messageReplacer, List.mem_cons, List.not_mem_nil, or_false, forall_eq_or_imp, forall_eq]
    refine ⟨fun w r h hr => ?_, fun w r h hr => ?_, fun w r h hr => ?_⟩
    · cases w
      · exact hr true h
      · cases h
    · exact hr false h
    · cases w
      · exact hr false h
      · cases h
  revert w
  refine replaceAll_induct (motive := fun l R => ∀ {w}, tidy w l = true → tidy w R = true) (fun _ => rfl) ?_ ?_ l
  · intro c l _ _ ih w h
    rw [tidy] at h ⊢
    split_ifs at h ⊢
    · rw [Bool.and_eq_true, Bool.and_eq_true] at h ⊢
      exact ⟨h.1, h.2.1, ih h.2.2⟩
    · rw [Bool.and_eq_true] at h ⊢
      exact ⟨h.1, ih h.2⟩
  · intro replacement hmem r ih w h
    exact hsame replacement hmem w r h fun w => ih

theorem getLast?_replaceAll (l : List Char) : (replaceAll l).getLast? = l.getLast? := by
  have hlast : ∀ replacement ∈ messageReplacer, replacement.2.getLast? = replacement.1.getLast? := by decide
  refine replaceAll_induct (motive := fun l R => R.getLast? = l.getLast?) rfl ?_ ?_ l
  · intro c l _ _ ih
    rw [List.getLast?_cons, List.getLast?_cons, ih]
  · intro replacement hmem r ih
    rw [List.getLast?_append, List.getLast?_append, ih, hlast replacement hmem]

theorem Neat.replaceAll (h : Neat l) : Neat (replaceAll l) :=
  ⟨tidy_replaceAll h.tidy, getLast?_replaceAll l ▸ h.last⟩

theorem length_replaceAll (l : List Char) :
    (replaceAll l).length ≤ l.length ∧ (needsMessageReplacement l = true → (replaceAll l).length < l.length) := by
  have hlen : ∀ replacement ∈ messageReplacer, replacement.2.length < replacement.1.length := by decide
  refine replaceAll_induct
    (motive := fun l R => R.length ≤ l.length ∧ (needsMessageReplacement l = true → R.length < l.length))
    ⟨Nat.le_refl _, fun h => by cases h⟩ ?_ ?_ l
  · rintro c l hnone _ ⟨hle, hlt⟩
    refine ⟨Nat.succ_le_succ hle, fun h => Nat.succ_lt_succ (hlt ((needs_cons.mp h).resolve_left ?_))⟩
    rintro ⟨replacement, hmem, hp⟩
    exact hnone replacement hmem hp
  · rintro replacement hmem r ⟨hle, -⟩
    have hshorter : (replacement.2 ++ replaceAll r).length < (replacement.1 ++ r).length := by
      rw [List.length_append, List.length_append]
      exact Nat.add_lt_add_of_lt_of_le (hlen replacement hmem) hle
    exact ⟨hshorter.le, fun _ => hshorter⟩

theorem replaceAll_ne (h : needsMessageReplacement l = true) : replaceAll l ≠ l := by
  intro heq
  have hlt := (length_replaceAll l).2 h
  rw [heq] at hlt
  exact Nat.lt_irrefl _ hlt

/-! ### Words that are left -/

/-- The second of two words is left where it would be replaced but for the space that goes with the first one. -/
def KeepsSecond (s : List Char) : Prop :=
  " message message#".toList <+: s ∨ " message message ".toList <+: s ∧ ¬" message message #".toList <+: s

def Repeats (l : List Char) : Prop := ∃ s, s <:+ l ∧ KeepsSecond s

theorem repeats_cons : Repeats (c :: l) ↔ KeepsSecond (c :: l) ∨ Repeats l := by
  constructor
  · rintro ⟨s, hs, h⟩
    rcases List.suffix_cons_iff.mp hs with rfl | hs
    · exact Or.inl h
    · exact Or.inr ⟨s, hs, h⟩
  · rintro (h | ⟨s, hs, h⟩)
    · exact ⟨_, List.suffix_refl _, h⟩
    · exact ⟨s, hs.trans (List.suffix_cons _ _), h⟩

/-- No text `p` begins in `q`, whatever comes behind `q`. -/
def Apart (p q : List Char) : Prop := ∀ s ∈ q.tails, s ≠ [] → ¬p <+: s ∧ ¬s <+: p

instance (p q : List Char) : Decidable (Apart p q) := inferInstanceAs (Decidable (∀ s ∈ q.tails, _))

theorem Apart.tail {p q : List Char} {x : Char} (h : Apart p (x :: q)) : Apart p q := fun s hs =>
  h s ((List.mem_tails ..).mpr (((List.mem_tails ..).mp hs).trans (List.suffix_cons _ _)))

theorem Apart.not_begins {p q : List Char} {x : Char} (h : Apart p (x :: q)) (r : List Char) :
    ¬p <+: x :: (q ++ r) := by
  intro hp
  obtain ⟨hnot, hnot'⟩ := h (x :: q) ((List.mem_tails ..).mpr (List.suffix_refl _)) (List.cons_ne_nil _ _)
  exact (List.prefix_or_prefix_of_prefix hp (List.prefix_append (x :: q) r)).elim hnot hnot'

theorem needs_append {q : List Char} (hq : ∀ replacement ∈ messageReplacer, Apart replacement.1 q) :
    needsMessageReplacement (q ++ r) = needsMessageReplacement r := by
  induction q with
  | nil => rfl
  | cons x q ih =>
    rw [← ih fun replacement hmem => (hq replacement hmem).tail, List.cons_append, Bool.eq_iff_iff, needs_cons]
    refine or_iff_right ?_
    rintro ⟨replacement, hmem, hp⟩
    exact (hq replacement hmem).not_begins r hp

theorem replaceAll_append {q : List Char} (hq : ∀ replacement ∈ messageReplacer, Apart replacement.1 q) :
    replaceAll (q ++ r) = q ++ replaceAll r := by
  induction q with
  | nil => rfl
  | cons x q ih =>
    rw [List.cons_append, List.cons_append, ← ih fun replacement hmem => (hq replacement hmem).tail]
    rcases replaceAll_cases x (q ++ r) with ⟨-, hkeep⟩ | ⟨replacement, hmem, rest, hsplit, -⟩
    · exact hkeep
    · exact absurd ⟨rest, hsplit.symm⟩ ((hq replacement hmem).not_begins r)

theorem KeepsSecond.words {s : List Char} (h : KeepsSecond s) : " message message".toList <+: s := by
  have hshort : ∀ p ∈ [" message message#".toList, " message message ".toList], " message message".toList <+: p := by
    decide
  rcases h with h | ⟨h, -⟩
  · exact (hshort _ (by simp)).trans h
  · exact (hshort _ (by simp)).trans h

theorem repeats_append {q : List Char} (hq : Apart " message message".toList q) : Repeats (q ++ r) ↔ Repeats r := by
  induction q with
  | nil => exact Iff.rfl
  | cons x q ih =>
    rw [List.cons_append, repeats_cons, ← ih hq.tail]
    exact or_iff_right fun h => hq.not_begins r h.words

theorem keepsSecond_iff : KeepsSecond (" message ".toList ++ r) ↔
    "message#".toList <+: r ∨ "message ".toList <+: r ∧ ¬"message #".toList <+: r := by
  have happend : ∀ q : List Char, " message ".toList ++ q <+: " message ".toList ++ r ↔ q <+: r := fun q =>
    List.prefix_append_right_inj _
  exact or_congr (happend "message#".toList)
    (and_congr (happend "message ".toList) (not_congr (happend "message #".toList)))

theorem second_hash : "message#".toList <+: replaceAll r ↔ "message#".toList <+: r := by
  refine ⟨prefix_of_replaceAll (by decide), ?_⟩
  rintro ⟨t, rfl⟩
  rw [replaceAll_append (by decide)]
  exact List.prefix_append _ _

theorem head_replaceAll_space (t : List Char) : [' '] <+: replaceAll (' ' :: t) := by
  have hspace : ∀ replacement ∈ messageReplacer, replacement.1.head? = some ' ' → [' '] <+: replacement.2 := by decide
  rcases replaceAll_cases ' ' t with ⟨-, hkeep⟩ | ⟨replacement, hmem, rest, hsplit, hreplace⟩
  · rw [hkeep]
    exact List.prefix_append [' '] _
  · rw [hreplace]
    refine (hspace replacement hmem ?_).trans (List.prefix_append _ _)
    obtain ⟨x, p, hp⟩ := List.exists_cons_of_ne_nil (replacer_ne_nil replacement hmem)
    rw [hp, List.cons_append, List.cons.injEq] at hsplit
    rw [hp, hsplit.1]
    rfl

theorem second_space : "message ".toList <+: replaceAll r ↔ "message ".toList <+: r ∧ ¬"message #".toList <+: r := by
  have hother : ∀ replacement ∈ messageReplacer,
      ¬"message ".toList <+: replacement.2 ∧ ¬replacement.2 <+: "message ".toList := by decide
  have hfirst :
    ∀ replacement ∈ messageReplacer, replacement.1.head? = some 'm' → replacement.1 = "message #".toList := by
    decide
  constructor
  · refine fun h => ⟨prefix_of_replaceAll (by decide) h, ?_⟩
    rintro ⟨t, rfl⟩
    rcases replaceAll_cases 'm' ("essage #".toList ++ t) with ⟨hnone, -⟩ | ⟨replacement, hmem, rest, -, hreplace⟩
    · exact hnone ("message #".toList, "error #".toList) (by decide) (List.prefix_append "message #".toList t)
    · have h : "message ".toList <+: replaceAll ('m' :: ("essage #".toList ++ t)) := h
      rw [hreplace] at h
      obtain ⟨hnot, hnot'⟩ := hother replacement hmem
      exact (List.prefix_or_prefix_of_prefix h (List.prefix_append _ _)).elim hnot hnot'
  · rintro ⟨⟨t, rfl⟩, hnot⟩
    show "message ".toList <+: replaceAll ('m' :: ("essage".toList ++ ' ' :: t))
    rcases replaceAll_cases 'm' ("essage".toList ++ ' ' :: t) with ⟨-, hkeep⟩ | ⟨replacement, hmem, rest, hsplit, -⟩
    · rw [hkeep, replaceAll_append (by decide), ← List.cons_append]
      exact (List.prefix_append_right_inj ("message".toList)).mpr (head_replaceAll_space t)
    · refine absurd ?_ hnot
      obtain ⟨x, p, hp⟩ := List.exists_cons_of_ne_nil (replacer_ne_nil replacement hmem)
      have hm : replacement.1.head? = some 'm' := by
        rw [hp, List.cons_append, List.cons.injEq] at hsplit
        rw [hp, hsplit.1]
        rfl
      rw [← hfirst replacement hmem hm]
      exact ⟨rest, hsplit.symm⟩

theorem needs_space : (∃ replacement ∈ messageReplacer, replacement.1 <+: ' ' :: r) ↔
    "message ".toList <+: r ∨ "message#".toList <+: r := by
  have hspace : ∀ q : List Char, ' ' :: q <+: ' ' :: r ↔ q <+: r := fun q =>
    List.cons_prefix_cons.trans (and_iff_right rfl)
  have hother : ¬"message #".toList <+: ' ' :: r := fun h => absurd (List.cons_prefix_cons.mp h).1 (by decide)
  simp only [messageReplacer, List.mem_cons, List.not_mem_nil, or_false, exists_eq_or_imp, exists_eq_left]
  rw [or_iff_right hother]
  exact or_congr (hspace _) (hspace _)

theorem repeats_word : Repeats (" message ".toList ++ r) ↔
    ("message ".toList <+: replaceAll r ∨ "message#".toList <+: replaceAll r) ∨ Repeats r := by
  have hsecond : KeepsSecond (' ' :: r) → "message ".toList <+: r ∧ ¬"message #".toList <+: r := by
    intro h
    obtain ⟨-, hwords⟩ := List.cons_prefix_cons.mp h.words
    obtain ⟨t, rfl⟩ := hwords
    refine ⟨(show "message ".toList <+: "message message".toList by decide).trans (List.prefix_append _ _),
      fun hhash => ?_⟩
    exact (List.prefix_or_prefix_of_prefix hhash (List.prefix_append _ _)).elim (by decide) (by decide)
  have hunfold : Repeats (" message ".toList ++ r) ↔ KeepsSecond (" message ".toList ++ r) ∨ Repeats (' ' :: r) := by
    refine repeats_cons.trans (or_congr Iff.rfl ?_)
    exact repeats_append (q := "message".toList) (by decide)
  rw [hunfold, repeats_cons, keepsSecond_iff, second_space, second_hash, or_comm (a := "message#".toList <+: r)]
  constructor
  · rintro (h | h | h)
    · exact Or.inl h
    · exact Or.inl (Or.inl (hsecond h))
    · exact Or.inr h
  · rintro (h | h)
    · exact Or.inl h
    · exact Or.inr (Or.inr h)

theorem needs_replaceAll (l : List Char) : needsMessageReplacement (replaceAll l) = true ↔ Repeats l := by
  refine replaceAll_induct (motive := fun l R => needsMessageReplacement R = true ↔ Repeats l) ?_ ?_ ?_ l
  · refine iff_of_false (by decide) ?_
    rintro ⟨s, hs, h⟩
    exact absurd (List.prefix_nil.mp (List.suffix_nil.mp hs ▸ h.words)) (by decide)
  · intro c l hnone hkeep ih
    rw [needs_cons, repeats_cons, ih]
    refine or_congr (iff_of_false ?_ ?_) Iff.rfl
    · rintro ⟨replacement, hmem, hp⟩
      exact hnone replacement hmem (prefix_of_replaceAll (unmade_patterns replacement hmem) (hkeep ▸ hp))
    · intro h
      have hword : " message ".toList <+: c :: l := (show " message ".toList <+: _ by decide).trans h.words
      exact hnone (" message ".toList, " error ".toList) (by decide) hword
  · simp only [messageReplacer, List.mem_cons, List.not_mem_nil, or_false, forall_eq_or_imp, forall_eq]
    refine ⟨fun r ih => ?_, fun r ih => ?_, fun r ih => ?_⟩
    · rw [repeats_word, ← ih, ← needs_space, ← needs_cons]
      exact Bool.eq_iff_iff.mp (needs_append (q := " error".toList) (by decide))
    · rw [needs_append (by decide), repeats_append (by decide), ih]
    · rw [needs_append (by decide), repeats_append (by decide), ih]

theorem replaceAll_eq_self (h : needsMessageReplacement l = false) : replaceAll l = l := by
  refine replaceAll_induct (motive := fun l R => needsMessageReplacement l = false → R = l) (fun _ => rfl) ?_ ?_ l h
  · intro c l _ _ ih h
    rw [ih (eq_false_of_ne_true fun hl => ne_true_of_eq_false h (needs_cons.mpr (Or.inr hl)))]
  · intro replacement hmem r _ h
    refine absurd (needs_iff.mpr ⟨_, List.suffix_refl _, replacement, hmem, List.prefix_append _ _⟩)
      (ne_true_of_eq_false h)

end Reiver.Watch

/-! # Normalized messages

Whether the words of a message are replaced, and whether the message is touched at all, is decided on the message as it
came. What follows for messages that are normalized twice, and for messages of one shape. -/

namespace Reiver.Watch

variable {l l' : List Char} {w : Bool}

/-! ### Messages that are returned as they are -/

/-- The fast path leaves whitespace in a message that it does not look for. -/
def Kept (message : List Char) : Prop :=
  isFast message = true ∧ ∃ c ∈ message, isWhitespace c = true ∧ c ≠ ' '

theorem isFast_iff : isFast l = true ↔
    needsDigitReplacement l = false ∧ needsWhitespaceNormalization l = false ∧ needsMessageReplacement l = false := by
  simp only [isFast, Bool.and_eq_true, Bool.not_eq_true', and_assoc]

theorem tidy_of (hdigit : ∀ c ∈ l, c.isDigit = false) (hspace : ∀ c ∈ l, isWhitespace c = true → c = ' ')
    (hdouble : ¬[' ', ' '] <:+: l) (hstart : w = true → ¬[' '] <+: l) : tidy w l = true := by
  induction l generalizing w with
  | nil => rfl
  | cons c l ih =>
    have hrest : (w' : Bool) → (w' = true → ¬[' '] <+: l) → tidy w' l = true := fun w' =>
      ih (fun x hx => hdigit x (List.mem_cons_of_mem _ hx)) (fun x hx => hspace x (List.mem_cons_of_mem _ hx))
        fun h => hdouble (h.trans (List.infix_cons (List.infix_refl _)))
    rw [tidy, hdigit c List.mem_cons_self, Bool.not_false, Bool.true_and]
    split_ifs with hblank
    · obtain rfl := hspace c List.mem_cons_self hblank
      have hw : w = false := eq_false_of_ne_true fun hw => hstart hw (List.prefix_append [' '] l)
      have htail : ¬[' '] <+: l := by
        rintro ⟨t, rfl⟩
        exact hdouble (List.prefix_append [' ', ' '] t).isInfix
      rw [hw, hrest true fun _ => htail]
      rfl
    · exact hrest false fun h => absurd h Bool.false_ne_true

theorem neat_of_isFast (h : isFast l = true) (hspace : ∀ c ∈ l, isWhitespace c = true → c = ' ') : Neat l := by
  obtain ⟨hdigits, hspaces, -⟩ := isFast_iff.mp h
  simp only [needsWhitespaceNormalization, Bool.or_eq_false_iff, containsText, startsText, endsText,
    decide_eq_false_iff_not] at hspaces
  obtain ⟨⟨⟨-, hdouble⟩, hstart⟩, hlast⟩ := hspaces
  refine ⟨tidy_of (fun c hc => ?_) hspace hdouble fun _ => hstart, fun h => hlast ?_⟩
  · exact eq_false_of_ne_true fun hdigit => ne_true_of_eq_false hdigits (List.any_eq_true.mpr ⟨c, hc, hdigit⟩)
  · obtain ⟨before, rfl⟩ := List.getLast?_eq_some_iff.mp h
    exact ⟨before, rfl⟩

theorem normalizeChars_eq (h : ¬Kept l) :
    normalizeChars l = if needsMessageReplacement l then replaceAll (plainForm l) else plainForm l := by
  rw [normalizeChars, collapse_eq_plainForm]
  by_cases hfast : isFast l = true
  · have hneat : Neat l := neat_of_isFast hfast fun c hc hblank => by
      by_contra hne
      exact h ⟨hfast, c, hc, hblank, hne⟩
    rw [if_pos hfast, (isFast_iff.mp hfast).2.2, if_neg Bool.false_ne_true, ← collapse_eq_plainForm, hneat.collapse_eq]
  · rw [if_neg hfast]

theorem Kept.normalizeChars_eq (h : Kept l) : normalizeChars l = l := if_pos h.1

theorem neat_plainForm (message : List Char) : Neat (plainForm message) :=
  collapse_eq_plainForm message ▸ neat_collapse message

theorem Neat.normalizeChars_iff (h : Neat l) : normalizeChars l = l ↔ needsMessageReplacement l = false := by
  by_cases hneeds : needsMessageReplacement l = true
  · rw [normalizeChars, h.isFast, hneeds, if_neg (by simp), if_pos rfl, h.collapse_eq]
    exact iff_of_false (replaceAll_ne hneeds) (by simp)
  · have hneeds := eq_false_of_ne_true hneeds
    rw [normalizeChars, h.isFast, hneeds]
    exact iff_of_true rfl rfl

/-! ### Stable messages -/

/-- A message is normalized for good when nothing is to be done, or when its plain form has no words to replace that are
    overlooked: not for a decision taken on the message as it came, and not for sharing a space with a word before. -/
def Settles (message : List Char) : Prop :=
  isFast message = true ∨
    if needsMessageReplacement message then ¬Repeats (plainForm message)
    else needsMessageReplacement (plainForm message) = false

theorem normalizeChars_twice_iff (message : List Char) :
    normalizeChars (normalizeChars message) = normalizeChars message ↔ Settles message := by
  by_cases hfast : isFast message = true
  · have hsame : normalizeChars message = message := if_pos hfast
    exact iff_of_true (by rw [hsame, hsame]) (Or.inl hfast)
  · rw [Settles, or_iff_right hfast, normalizeChars_eq fun h => hfast h.1]
    split_ifs with hneeds
    · rw [(neat_plainForm message).replaceAll.normalizeChars_iff, ← needs_replaceAll, Bool.not_eq_true]
    · exact (neat_plainForm message).normalizeChars_iff

/-- Two messages of one shape: both kept as they are and equal, or none kept and both decided alike, unless there is
    nothing to replace. -/
def Agree (message message' : List Char) : Prop :=
  Kept message ∧ Kept message' ∧ message = message' ∨
    ¬Kept message ∧ ¬Kept message' ∧
      (needsMessageReplacement message = needsMessageReplacement message' ∨
        needsMessageReplacement (plainForm message) = false)

theorem Kept.ne_neat (h : Kept l) (hneat : Neat l') : l ≠ l' := by
  rintro rfl
  obtain ⟨-, c, hc, hblank, hne⟩ := h
  exact hne ((tidy_mem hneat.tidy hc).2 hblank)

theorem neat_normalizeChars (h : ¬Kept l) : Neat (normalizeChars l) := by
  rw [normalizeChars_eq h]
  split
  · exact (neat_plainForm l).replaceAll
  · exact neat_plainForm l

theorem normalizeChars_eq_iff (h : SameShape (trim l) (trim l')) :
    normalizeChars l = normalizeChars l' ↔ Agree l l' := by
  have hform := plainForm_sameShape h
  by_cases hkept : Kept l
  · rw [Agree, hkept.normalizeChars_eq]
    by_cases hkept' : Kept l'
    · rw [hkept'.normalizeChars_eq]
      exact ⟨fun heq => Or.inl ⟨hkept, hkept', heq⟩, fun h => h.elim (·.2.2) fun h => absurd hkept h.1⟩
    · refine iff_of_false (hkept.ne_neat (neat_normalizeChars hkept')) ?_
      rintro (h | h)
      · exact hkept' h.2.1
      · exact h.1 hkept
  · by_cases hkept' : Kept l'
    · rw [Agree, hkept'.normalizeChars_eq]
      refine iff_of_false (hkept'.ne_neat (neat_normalizeChars hkept)).symm ?_
      rintro (h | h)
      · exact hkept h.1
      · exact h.2.1 hkept'
    · rw [Agree, or_iff_right fun h => hkept h.1, and_iff_right hkept, and_iff_right hkept', normalizeChars_eq hkept,
        normalizeChars_eq hkept', ← hform]
      by_cases hneeds : needsMessageReplacement (plainForm l) = true
      · have hne := replaceAll_ne hneeds
        cases needsMessageReplacement l <;> cases needsMessageReplacement l' <;> simp [hneeds, hne, hne.symm]
      · have hneeds := eq_false_of_ne_true hneeds
        rw [replaceAll_eq_self hneeds, ite_self, ite_self]
        exact iff_of_true rfl (Or.inr hneeds)

/-- Exactly when normalizing a message again changes nothing, and exactly when two messages of one shape come to the
    same text, and with it errors to the same fingerprint. -/
theorem normalizeMessage_stable_iff (blake3 : String → String) (message : String) :
    (normalizeMessage (normalizeMessage message) = normalizeMessage message ↔ Settles message.toList) ∧
      ∀ message' : String, SameShape (trim message.toList) (trim message'.toList) →
        (normalizeMessage message = normalizeMessage message' ∧ (∀ payload : ExceptionPayload,
            generateFingerprint blake3 { payload with message := message } =
              generateFingerprint blake3 { payload with message := message' }) ↔
          Agree message.toList message'.toList) := by
  have hinj : ∀ l l' : List Char, String.ofList l = String.ofList l' ↔ l = l' := fun l l' =>
    ⟨fun h => by simpa using congrArg String.toList h, fun h => h ▸ rfl⟩
  refine ⟨?_, fun message' h => ?_⟩
  · rw [normalizeMessage, normalizeMessage, String.toList_ofList, hinj, normalizeChars_twice_iff]
  · rw [← normalizeChars_eq_iff h, ← hinj]
    refine and_iff_left_of_imp fun heq payload => ?_
    have hparts : fingerprintParts { payload with message := message } =
        fingerprintParts { payload with message := message' } := by
      simp only [fingerprintParts, heq]
    rw [generateFingerprint, generateFingerprint, hparts]

/-- A tab hides a word from the decision, and a space that the fast path does not know hides a message from
    everything. -/
theorem tab_hides_word :
    normalizeMessage "a\tmessage b" = "a message b" ∧ normalizeMessage (normalizeMessage "a\tmessage b") = "a error b" ∧
      SameShape (trim "a\tb".toList) (trim "a\u00a0b".toList) ∧
        normalizeMessage "a\tb" ≠ normalizeMessage "a\u00a0b" := by
  refine ⟨by decide +kernel, by decide +kernel, ?_, by decide +kernel⟩
  have hword : SameShape ['b'] ['b'] := .char (by decide) (by decide) .nil
  have hblank : SameShape (['\t'] ++ ['b']) (['\u00a0'] ++ ['b']) := .blanks (by decide) (List.all_eq_true.mp rfl) hword
  exact SameShape.char (c := 'a') (by decide) (by decide) hblank

end Reiver.Watch
