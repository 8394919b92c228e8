import Mathlib.Tactic.Order
import Mathlib.Tactic.Tauto
import Reiver.Pond.Query.SkipExtraction

/-! # Rows that satisfy skip predicates

Adding an atom adds what the atom says, whatever was there before: contradictions are recorded exactly when no text
meets both (`satisfied_addTo`). So the predicates of a condition say what the parts say that were read. -/

namespace Reiver.Pond

/-! ### Rows that satisfy predicates -/

def SkipAtom.Meets (s : String) : SkipAtom → Prop
  | .equals value => s = value
  | .startsWith pfx => pfx.toList <+: s.toList
  | .oneOf values => s ∈ values
  | .gte value => value ≤ s
  | .gt value => value < s
  | .lte value => s ≤ value
  | .lt value => s < value
  | .contains substring => substring.toList <:+: s.toList
  | .token tok => hasToken s tok = true

def RangePredicate.Contains (r : RangePredicate) (s : String) : Prop :=
  aboveMin r.minValue r.minExclusive s = true ∧ belowMax r.maxValue r.maxExclusive s = true

section Satisfied
variable (texts : String → Option String)

/-- The column has a text, and the text is as asked. -/
def OnText (column : String) (Q : String → Prop) : Prop := ∃ s, texts column = some s ∧ Q s

/-- Every predicate holds of the texts of the columns. -/
structure SkipPredicates.Satisfied (p : SkipPredicates) : Prop where
  consistent : p.contradicted = false
  equality : ∀ column value, p.equality.lookup column = some value → OnText texts column (· = value)
  prefixes : ∀ column pfx, p.prefixes.lookup column = some pfx → OnText texts column (pfx.toList <+: ·.toList)
  inLists : ∀ column values, p.inLists.lookup column = some values → OnText texts column (· ∈ values)
  ranges : ∀ column r, p.ranges.lookup column = some r → OnText texts column r.Contains
  substring : ∀ column subs, p.substring.lookup column = some subs →
    ∀ sub ∈ subs, OnText texts column (sub.toList <:+: ·.toList)
  tokenSearch : ∀ column tokens, p.tokenSearch.lookup column = some tokens →
    ∀ tok ∈ tokens, OnText texts column (hasToken · tok = true)

variable {texts} {column : String} {Q R : String → Prop}

theorem onText_and : OnText texts column Q ∧ OnText texts column R ↔ OnText texts column fun s => Q s ∧ R s := by
  constructor
  · rintro ⟨⟨s, hs, hQ⟩, s', hs', hR⟩
    obtain rfl : s = s' := Option.some.inj (hs.symm.trans hs')
    exact ⟨s, hs, hQ, hR⟩
  · rintro ⟨s, hs, hQ, hR⟩
    exact ⟨⟨s, hs, hQ⟩, s, hs, hR⟩

theorem onText_congr (h : ∀ s, Q s ↔ R s) : OnText texts column Q ↔ OnText texts column R :=
  exists_congr fun s => and_congr_right fun _ => h s

theorem onText_false (h : ∀ s, ¬Q s) : ¬OnText texts column Q := fun ⟨s, _, hs⟩ => h s hs

namespace SkipPredicates
variable {p : SkipPredicates}

theorem satisfied_iff : p.Satisfied texts ↔ p.contradicted = false ∧
    (∀ column value, p.equality.lookup column = some value → OnText texts column (· = value)) ∧
    (∀ column pfx, p.prefixes.lookup column = some pfx → OnText texts column (pfx.toList <+: ·.toList)) ∧
    (∀ column values, p.inLists.lookup column = some values → OnText texts column (· ∈ values)) ∧
    (∀ column r, p.ranges.lookup column = some r → OnText texts column r.Contains) ∧
    (∀ column subs, p.substring.lookup column = some subs →
      ∀ sub ∈ subs, OnText texts column (sub.toList <:+: ·.toList)) ∧
    ∀ column tokens, p.tokenSearch.lookup column = some tokens →
      ∀ tok ∈ tokens, OnText texts column (hasToken · tok = true) :=
  ⟨fun ⟨a, b, c, d, e, f, g⟩ => ⟨a, b, c, d, e, f, g⟩, fun ⟨a, b, c, d, e, f, g⟩ => ⟨a, b, c, d, e, f, g⟩⟩

theorem not_satisfied_of_contradicted (h : p.contradicted = true) : ¬p.Satisfied texts := fun hsat =>
  absurd (h.symm.trans hsat.consistent) (by decide)

theorem satisfied_addSubstring {substring : String} : (p.addSubstring column substring).Satisfied texts ↔
    p.Satisfied texts ∧ OnText texts column (substring.toList <:+: ·.toList) := by
  rw [satisfied_iff, satisfied_iff]
  dsimp only [addSubstring]
  rw [Dict.forall_insert (R := OnText texts column (substring.toList <:+: ·.toList))]
  · tauto
  · rw [List.forall_mem_append, List.forall_mem_singleton]
    refine and_congr_left fun _ => ?_
    cases p.substring.lookup column with
    | none => simp
    | some subs => simp

theorem satisfied_addToken {tok : String} : (p.addToken column tok).Satisfied texts ↔
    p.Satisfied texts ∧ OnText texts column (hasToken · tok = true) := by
  rw [satisfied_iff, satisfied_iff]
  dsimp only [addToken]
  rw [Dict.forall_insert (R := OnText texts column (hasToken · tok = true))]
  · tauto
  · rw [List.forall_mem_append, List.forall_mem_singleton]
    refine and_congr_left fun _ => ?_
    cases p.tokenSearch.lookup column with
    | none => simp
    | some tokens => simp

theorem satisfied_addEquals {value : String} : (p.addEquals column value).Satisfied texts ↔
    p.Satisfied texts ∧ OnText texts column (· = value) := by
  have hinsert (hnone : p.equality.lookup column = none) :
      ({ p with equality := p.equality.insert column value } : SkipPredicates).Satisfied texts ↔
        p.Satisfied texts ∧ OnText texts column (· = value) := by
    rw [satisfied_iff, satisfied_iff]
    dsimp only
    rw [Dict.forall_insert (R := OnText texts column (· = value))]
    · tauto
    · simp [hnone]
  rw [addEquals]
  cases hlook : p.equality.lookup column with
  | some existing =>
    dsimp only
    split_ifs with hne
    · refine iff_of_false (not_satisfied_of_contradicted rfl) fun ⟨hsat, hvalue⟩ => ?_
      have hboth := onText_and.mp ⟨hsat.equality column existing hlook, hvalue⟩
      exact onText_false (fun s hs => hne (hs.1.symm.trans hs.2)) hboth
    · rw [not_not] at hne
      exact (and_iff_left_of_imp fun hsat => hne ▸ hsat.equality column existing hlook).symm
  | none =>
    dsimp only
    cases hlist : p.inLists.lookup column with
    | none => exact hinsert hlook
    | some inList =>
      dsimp only
      split_ifs with hmem
      · exact hinsert hlook
      · refine iff_of_false (not_satisfied_of_contradicted rfl) fun ⟨hsat, hvalue⟩ => ?_
        have hboth := onText_and.mp ⟨hsat.inLists column inList hlist, hvalue⟩
        exact onText_false (fun s ⟨hin, heq⟩ => hmem (heq ▸ hin)) hboth

theorem satisfied_addPrefix {pfx : String} : (p.addPrefix column pfx).Satisfied texts ↔
    p.Satisfied texts ∧ OnText texts column (pfx.toList <+: ·.toList) := by
  have hinsert (h : OnText texts column (pfx.toList <+: ·.toList) ↔
      (∀ old, p.prefixes.lookup column = some old → OnText texts column (old.toList <+: ·.toList)) ∧
        OnText texts column (pfx.toList <+: ·.toList)) :
      ({ p with prefixes := p.prefixes.insert column pfx } : SkipPredicates).Satisfied texts ↔
        p.Satisfied texts ∧ OnText texts column (pfx.toList <+: ·.toList) := by
    rw [satisfied_iff, satisfied_iff]
    dsimp only
    rw [Dict.forall_insert h]
    tauto
  rw [addPrefix]
  cases hlook : p.prefixes.lookup column with
  | some existing =>
    dsimp only
    split_ifs with hlonger hshorter
    · refine hinsert (Iff.symm (and_iff_right_of_imp fun ⟨s, hs, hpfx⟩ old hold => ⟨s, hs, ?_⟩))
      cases hlook.symm.trans hold
      exact hlonger.trans hpfx
    · exact (and_iff_left_of_imp fun hsat => (hsat.prefixes column existing hlook).imp fun s hs =>
        ⟨hs.1, hshorter.trans hs.2⟩).symm
    · refine iff_of_false (not_satisfied_of_contradicted rfl) fun ⟨hsat, hpfx⟩ => ?_
      have hboth := onText_and.mp ⟨hsat.prefixes column existing hlook, hpfx⟩
      exact onText_false (fun s hs => (List.prefix_or_prefix_of_prefix hs.1 hs.2).elim hlonger hshorter) hboth
  | none => exact hinsert (by simp [hlook])

theorem satisfied_addIn {values : List String} : (p.addIn column values).Satisfied texts ↔
    p.Satisfied texts ∧ OnText texts column (· ∈ values) := by
  rw [addIn]
  split_ifs with hnil heq
  · refine iff_of_false (not_satisfied_of_contradicted rfl) fun ⟨_, hvalue⟩ => ?_
    exact onText_false (fun s hs => List.not_mem_nil (hnil ▸ hs)) hvalue
  · obtain ⟨value, hlook, hmem⟩ := (Option.any_eq_true _ _).mp heq
    refine iff_of_false (not_satisfied_of_contradicted rfl) fun ⟨hsat, hvalue⟩ => ?_
    have hboth := onText_and.mp ⟨hsat.equality column value hlook, hvalue⟩
    exact onText_false (fun s ⟨heq, hin⟩ => of_decide_eq_true hmem (heq ▸ hin)) hboth
  · cases hlook : p.inLists.lookup column with
    | none =>
      dsimp only
      rw [satisfied_iff, satisfied_iff]
      dsimp only
      rw [Dict.forall_insert (R := OnText texts column (· ∈ values))]
      · tauto
      · simp [hlook]
    | some existing =>
      dsimp only
      have hkept : OnText texts column (· ∈ existing.filter (· ∈ values)) ↔
          (∀ old, p.inLists.lookup column = some old → OnText texts column (· ∈ old)) ∧
            OnText texts column (· ∈ values) := by
        simp only [hlook, Option.some.injEq, forall_eq', onText_and]
        exact onText_congr fun s => by simp
      by_cases hempty : (existing.filter (· ∈ values)).isEmpty = true
      · rw [hempty, Bool.or_true]
        refine iff_of_false (not_satisfied_of_contradicted rfl) fun ⟨hsat, hvalue⟩ => ?_
        have hboth := hkept.mpr ⟨hsat.inLists column, hvalue⟩
        exact onText_false (fun s hs => List.not_mem_nil (List.isEmpty_iff.mp hempty ▸ hs)) hboth
      · rw [Bool.eq_false_of_not_eq_true hempty, Bool.or_false, satisfied_iff, satisfied_iff]
        dsimp only
        rw [Dict.forall_insert hkept]
        tauto

end SkipPredicates

@[simp] theorem aboveMin_false {a s : String} : aboveMin (some a) false s = true ↔ a ≤ s := decide_eq_true_iff

@[simp] theorem aboveMin_true {a s : String} : aboveMin (some a) true s = true ↔ a < s := decide_eq_true_iff

@[simp] theorem belowMax_false {a s : String} : belowMax (some a) false s = true ↔ s ≤ a := decide_eq_true_iff

@[simp] theorem belowMax_true {a s : String} : belowMax (some a) true s = true ↔ s < a := decide_eq_true_iff

theorem aboveMin_of_aboveMin {a b s : String} {exA exB : Bool} (h : a < b ∨ b = a ∧ (exA = true → exB = true))
    (habove : aboveMin (some b) exB s = true) : aboveMin (some a) exA s = true := by
  have hle : b ≤ s := by cases exB <;> simp only [aboveMin_false, aboveMin_true] at habove <;> order
  rcases h with hlt | ⟨rfl, himp⟩
  · have hlt : a < s := lt_of_lt_of_le hlt hle
    cases exA
    · exact aboveMin_false.mpr hlt.le
    · exact aboveMin_true.mpr hlt
  · cases exA
    · exact aboveMin_false.mpr hle
    · exact himp rfl ▸ habove

theorem belowMax_of_belowMax {a b s : String} {exA exB : Bool} (h : b < a ∨ b = a ∧ (exA = true → exB = true))
    (hbelow : belowMax (some b) exB s = true) : belowMax (some a) exA s = true := by
  have hle : s ≤ b := by cases exB <;> simp only [belowMax_false, belowMax_true] at hbelow <;> order
  rcases h with hlt | ⟨rfl, himp⟩
  · have hlt : s < a := lt_of_le_of_lt hle hlt
    cases exA
    · exact belowMax_false.mpr hlt.le
    · exact belowMax_true.mpr hlt
  · cases exA
    · exact belowMax_false.mpr hle
    · exact himp rfl ▸ hbelow

namespace RangePredicate
variable {r : RangePredicate} {v s : String} {ex : Bool}

theorem contains_tightenMin : (r.tightenMin v ex).Contains s ↔ r.Contains s ∧ aboveMin (some v) ex s = true := by
  obtain ⟨minValue, maxValue, minExclusive, maxExclusive⟩ := r
  unfold Contains tightenMin
  cases minValue with
  | none => exact and_comm.trans (and_congr_left fun _ => (and_iff_right rfl).symm)
  | some existing =>
    dsimp only
    split_ifs with hdom
    · simp only [Bool.or_eq_true, Bool.and_eq_true, decide_eq_true_eq, Bool.not_eq_true'] at hdom
      have himp : aboveMin (some v) ex s = true → aboveMin (some existing) minExclusive s = true :=
        aboveMin_of_aboveMin (by tauto)
      tauto
    · simp only [Bool.or_eq_true, Bool.and_eq_true, decide_eq_true_eq, Bool.not_eq_true'] at hdom
      have himp : aboveMin (some existing) minExclusive s = true → aboveMin (some v) ex s = true :=
        aboveMin_of_aboveMin (by
        rcases lt_trichotomy existing v with h | h | h
        · tauto
        · refine Or.inr ⟨h, fun hex => ?_⟩
          by_contra hne
          exact hdom (Or.inr ⟨⟨h.symm, hex⟩, Bool.eq_false_of_not_eq_true hne⟩)
        · exact Or.inl h)
      tauto

theorem contains_tightenMax : (r.tightenMax v ex).Contains s ↔ r.Contains s ∧ belowMax (some v) ex s = true := by
  obtain ⟨minValue, maxValue, minExclusive, maxExclusive⟩ := r
  unfold Contains tightenMax
  cases maxValue with
  | none => exact and_congr_left fun _ => (and_iff_left rfl).symm
  | some existing =>
    dsimp only
    split_ifs with hdom
    · simp only [Bool.or_eq_true, Bool.and_eq_true, decide_eq_true_eq, Bool.not_eq_true'] at hdom
      have himp : belowMax (some v) ex s = true → belowMax (some existing) maxExclusive s = true :=
        belowMax_of_belowMax (by tauto)
      tauto
    · simp only [Bool.or_eq_true, Bool.and_eq_true, decide_eq_true_eq, Bool.not_eq_true'] at hdom
      have himp : belowMax (some existing) maxExclusive s = true → belowMax (some v) ex s = true :=
        belowMax_of_belowMax (by
        rcases lt_trichotomy existing v with h | h | h
        · exact Or.inl h
        · refine Or.inr ⟨h, fun hex => ?_⟩
          by_contra hne
          exact hdom (Or.inr ⟨⟨h.symm, hex⟩, Bool.eq_false_of_not_eq_true hne⟩)
        · tauto)
      tauto

end RangePredicate

namespace SkipPredicates
variable {p : SkipPredicates}

theorem satisfied_modifyRange {modify : RangePredicate → RangePredicate} {new : RangePredicate}
    (hmodify : ∀ r s, (modify r).Contains s ↔ r.Contains s ∧ Q s) (hnew : ∀ s, new.Contains s ↔ Q s) :
    (p.modifyRange column modify new).Satisfied texts ↔ p.Satisfied texts ∧ OnText texts column Q := by
  rw [satisfied_iff, satisfied_iff]
  dsimp only [modifyRange]
  rw [Dict.forall_insert (R := OnText texts column Q)]
  · tauto
  · cases hlook : p.ranges.lookup column with
    | none => simp [onText_congr hnew]
    | some r =>
      simp only [Option.some.injEq, forall_eq', onText_and]
      exact onText_congr (hmodify r)

theorem satisfied_addTo (a : SkipAtom) :
    (a.addTo column p).Satisfied texts ↔ p.Satisfied texts ∧ OnText texts column (SkipAtom.Meets · a) := by
  cases a with
  | equals value => exact satisfied_addEquals
  | startsWith pfx => exact satisfied_addPrefix
  | oneOf values => exact satisfied_addIn
  | gte value =>
    exact satisfied_modifyRange (fun r s => by rw [RangePredicate.contains_tightenMin, aboveMin_false, SkipAtom.Meets])
      fun s => (and_iff_left rfl).trans aboveMin_false
  | gt value =>
    exact satisfied_modifyRange (fun r s => by rw [RangePredicate.contains_tightenMin, aboveMin_true, SkipAtom.Meets])
      fun s => (and_iff_left rfl).trans aboveMin_true
  | lte value =>
    exact satisfied_modifyRange (fun r s => by rw [RangePredicate.contains_tightenMax, belowMax_false, SkipAtom.Meets])
      fun s => (and_iff_right rfl).trans belowMax_false
  | lt value =>
    exact satisfied_modifyRange (fun r s => by rw [RangePredicate.contains_tightenMax, belowMax_true, SkipAtom.Meets])
      fun s => (and_iff_right rfl).trans belowMax_true
  | contains substring => exact satisfied_addSubstring
  | token tok => exact satisfied_addToken

theorem satisfied_foldl (atoms : List SkipAtom) : (atoms.foldl (SkipAtom.addTo column) p).Satisfied texts ↔
    p.Satisfied texts ∧ ∀ a ∈ atoms, OnText texts column (SkipAtom.Meets · a) := by
  induction atoms generalizing p with
  | nil => simp
  | cons a atoms ih => rw [List.foldl_cons, ih, satisfied_addTo, List.forall_mem_cons, and_assoc]

theorem satisfied_empty : SkipPredicates.Satisfied texts {} where
  consistent := rfl
  equality _ _ h := by cases h
  prefixes _ _ h := by cases h
  inLists _ _ h := by cases h
  ranges _ _ h := by cases h
  substring _ _ h := by cases h
  tokenSearch _ _ h := by cases h

end SkipPredicates

/-! ### Sequences of calls -/

/-- A call of one of the `add_*` operations. -/
inductive SkipCall where
  | add (column : String) (a : SkipAtom)
  | addRange (column min max : String)

def SkipCall.apply (p : SkipPredicates) : SkipCall → SkipPredicates
  | .add column a => a.addTo column p
  | .addRange column min max => p.addRange column min max

/-- The row satisfies the predicate of a call. -/
def SkipCall.Asks (texts : String → Option String) : SkipCall → Prop
  | .add column a => OnText texts column (SkipAtom.Meets · a)
  | .addRange column min max => OnText texts column fun s => min ≤ s ∧ s ≤ max

theorem satisfied_apply (p : SkipPredicates) (c : SkipCall) :
    (c.apply p).Satisfied texts ↔ p.Satisfied texts ∧ c.Asks texts := by
  cases c with
  | add column a => exact SkipPredicates.satisfied_addTo a
  | addRange column min max =>
    have hlte : ((p.addGte column min).addLte column max).Satisfied texts ↔
        (p.addGte column min).Satisfied texts ∧ OnText texts column (· ≤ max) :=
          SkipPredicates.satisfied_addTo (.lte max)
    have hgte : (p.addGte column min).Satisfied texts ↔ p.Satisfied texts ∧ OnText texts column (min ≤ ·) :=
      SkipPredicates.satisfied_addTo (.gte min)
    exact hlte.trans ((and_congr_left fun _ => hgte).trans (and_assoc.trans (and_congr_right fun _ => onText_and)))

theorem satisfied_calls (calls : List SkipCall) (p : SkipPredicates) :
    (calls.foldl SkipCall.apply p).Satisfied texts ↔ p.Satisfied texts ∧ ∀ c ∈ calls, c.Asks texts := by
  induction calls generalizing p with
  | nil => simp
  | cons c calls ih => rw [List.foldl_cons, ih, satisfied_apply, List.forall_mem_cons, and_assoc]

/-- A row satisfies what the calls accumulate exactly if it satisfies the predicate of each; so their order does not
    matter. -/
theorem accumulated_iff (calls : List SkipCall) :
    (∀ texts, (calls.foldl SkipCall.apply {}).Satisfied texts ↔ ∀ c ∈ calls, c.Asks texts) ∧
      ∀ calls', calls.Perm calls' → ∀ texts,
        (calls.foldl SkipCall.apply {}).Satisfied texts ↔ (calls'.foldl SkipCall.apply {}).Satisfied texts := by
  have hall : ∀ calls : List SkipCall, ∀ texts,
      (calls.foldl SkipCall.apply {}).Satisfied texts ↔ ∀ c ∈ calls, c.Asks texts := fun calls texts =>
    (satisfied_calls calls {}).trans (and_iff_right SkipPredicates.satisfied_empty)
  refine ⟨hall calls, fun calls' hperm texts => ?_⟩
  rw [hall calls, hall calls']
  exact forall_congr' fun c => imp_congr_left hperm.mem_iff

theorem accumulated_iff_swapped : ∀ texts,
    ([.add "x" (.equals "a"), .add "x" (.oneOf ["a", "b"])].foldl SkipCall.apply {}).Satisfied texts ↔
      ([.add "x" (.oneOf ["a", "b"]), .add "x" (.equals "a")].foldl SkipCall.apply {}).Satisfied texts :=
  (accumulated_iff [.add "x" (.equals "a"), .add "x" (.oneOf ["a", "b"])]).2 _ (.swap _ _ [])

section Extraction
variable {U : Unicode} {P : SqlParser}

theorem satisfied_readParts (parts : List WhereExpr) (x : SkipExtraction) :
    (parts.foldl (SkipExtraction.readPart U P) x).predicates.Satisfied texts ↔ x.predicates.Satisfied texts ∧
      ∀ part ∈ takenParts U P x.qualifiers parts, ∀ a ∈ part.2.2, OnText texts part.2.1.2 (SkipAtom.Meets · a) := by
  induction parts generalizing x with
  | nil => simp [takenParts]
  | cons e parts ih =>
    rw [List.foldl_cons, ih, takenParts, SkipExtraction.readPart]
    cases skipReading U P e with
    | none => rfl
    | some reading =>
      dsimp only [SkipExtraction.record]
      by_cases hconflict : (x.qualifiers.isConflicted reading.1.2 reading.1.1).1 = true
      · rw [if_pos hconflict, if_pos hconflict]
      · rw [if_neg hconflict, if_neg hconflict, SkipPredicates.satisfied_foldl, List.forall_mem_cons, and_assoc]

end Extraction
end Satisfied
end Reiver.Pond
