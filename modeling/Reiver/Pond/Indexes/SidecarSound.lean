import Reiver.Pond.Indexes.SidecarStats

/-! # What sidecar statistics drop

Comparing with true bounds drops no file for a row that satisfies the predicates as they were asked, but for two
things: values are intersected by their spelling, and an excluded bound is compared after rounding. -/

namespace Reiver.Pond

/-! ### The condition -/

def SkipAtom.isSpelled : SkipAtom → Bool
  | .equals _ => true
  | .oneOf _ => true
  | _ => false

section Condition
variable (calls : List SkipCall) (stats : FileColumnStats)

/-- The text is a value that everything asked of the column spells. -/
def SpelledByAll (column s : String) : Prop := ∀ a, SkipCall.add column a ∈ calls → a.isSpelled = true → a.Meets s

/-- The values asked of a column have a common spelling, which is one that the file may hold where a list is asked; and
    no excluded bound that is kept rounds to the double of the column's own bound. -/
structure PrunedRight : Prop where
  spelled : ∀ column, ∃ s, SpelledByAll calls column s
  listed : ∀ column values c, SkipCall.add column (.oneOf values) ∈ calls → stats.column column = some c →
    ∃ s, SpelledByAll calls column s ∧ c.Spans s
  excluded :
    ∀ column r c, (calls.foldl SkipCall.apply {}).ranges.lookup column = some r → stats.column column = some c →
    (r.minExclusive = true → ∀ v ∈ r.minValue, ∀ m ∈ c.max, ¬SameDouble v m) ∧
      (r.maxExclusive = true → ∀ v ∈ r.maxValue, ∀ m ∈ c.min, ¬SameDouble v m)

end Condition

/-! ### What the calls leave -/

def SkipPredicates.Allows (p : SkipPredicates) (column s : String) : Prop :=
  (∀ v, p.equality.lookup column = some v → s = v) ∧ ∀ l, p.inLists.lookup column = some l → s ∈ l

def SkipCall.Spells (c : SkipCall) (column s : String) : Prop :=
  ∀ a, c = .add column a → a.isSpelled = true → a.Meets s

structure RangePredicate.HeldBy (R : NumberReading) (row : String → StatCell) (column : String) (r : RangePredicate) :
    Prop where
  min : ∀ v, r.minValue = some v → (SkipAtom.gte v).HoldsOf R row column ∧
    (r.minExclusive = true → (SkipAtom.gt v).HoldsOf R row column)
  max : ∀ v, r.maxValue = some v → (SkipAtom.lte v).HoldsOf R row column ∧
    (r.maxExclusive = true → (SkipAtom.lt v).HoldsOf R row column)

/-- The row has the values, prefixes and bounds that are kept. -/
structure SkipPredicates.HeldBy (R : NumberReading) (row : String → StatCell) (p : SkipPredicates) : Prop where
  equality : ∀ column v, p.equality.lookup column = some v → (SkipAtom.equals v).HoldsOf R row column
  prefixes : ∀ column pfx, p.prefixes.lookup column = some pfx → pfx.toList <+: (row column).printed.toList
  ranges : ∀ column r, p.ranges.lookup column = some r → r.HeldBy R row column

section Calls
variable {R : NumberReading} {row : String → StatCell} {column v : String} {p : SkipPredicates} {r : RangePredicate}
  {c : SkipCall} {calls : List SkipCall}

theorem holdsOf_gte_of_gt (h : (SkipAtom.gt v).HoldsOf R row column) : (SkipAtom.gte v).HoldsOf R row column := by
  rw [SkipAtom.HoldsOf] at h
  unfold SkipAtom.HoldsOf
  cases hcell : row column with
  | null => rw [hcell] at h; exact h
  | text t => rw [hcell] at h; exact le_of_lt (show v < t from h)
  | number w printed =>
    rw [hcell] at h
    obtain ⟨x, hx, hlt⟩ : ∃ x, R.numberOf column v = some x ∧ x < w := h
    exact ⟨x, hx, hlt.le⟩

theorem holdsOf_lte_of_lt (h : (SkipAtom.lt v).HoldsOf R row column) : (SkipAtom.lte v).HoldsOf R row column := by
  rw [SkipAtom.HoldsOf] at h
  unfold SkipAtom.HoldsOf
  cases hcell : row column with
  | null => rw [hcell] at h; exact h
  | text t => rw [hcell] at h; exact le_of_lt (show t < v from h)
  | number w printed =>
    rw [hcell] at h
    obtain ⟨x, hx, hlt⟩ : ∃ x, R.numberOf column v = some x ∧ w < x := h
    exact ⟨x, hx, hlt.le⟩

theorem printed_of_startsWith (h : (SkipAtom.startsWith v).HoldsOf R row column) :
    v.toList <+: (row column).printed.toList := by
  rw [SkipAtom.HoldsOf] at h
  cases hcell : row column with
  | null => rw [hcell] at h; exact h.elim
  | text t => rw [hcell] at h; exact h
  | number w printed => rw [hcell] at h; exact h

/-! #### The row meets what is kept -/

theorem heldBy_tightenMin {ex : Bool} (hr : r.HeldBy R row column) (hgte : (SkipAtom.gte v).HoldsOf R row column)
    (hgt : ex = true → (SkipAtom.gt v).HoldsOf R row column) : (r.tightenMin v ex).HeldBy R row column := by
  have hnew : ({ r with minValue := some v, minExclusive := ex } : RangePredicate).HeldBy R row column :=
    ⟨fun v' hv' => by cases hv'; exact ⟨hgte, hgt⟩, hr.max⟩
  rw [RangePredicate.tightenMin]
  split
  · exact hnew
  · split
    · exact hnew
    · exact hr

theorem heldBy_tightenMax {ex : Bool} (hr : r.HeldBy R row column) (hlte : (SkipAtom.lte v).HoldsOf R row column)
    (hlt : ex = true → (SkipAtom.lt v).HoldsOf R row column) : (r.tightenMax v ex).HeldBy R row column := by
  have hnew : ({ r with maxValue := some v, maxExclusive := ex } : RangePredicate).HeldBy R row column :=
    ⟨hr.min, fun v' hv' => by cases hv'; exact ⟨hlte, hlt⟩⟩
  rw [RangePredicate.tightenMax]
  split
  · exact hnew
  · split
    · exact hnew
    · exact hr

theorem heldBy_modifyRange {modify : RangePredicate → RangePredicate} {new : RangePredicate} (hp : p.HeldBy R row)
    (hmodify : ∀ r : RangePredicate, r.HeldBy R row column → (modify r).HeldBy R row column)
    (hnew : new.HeldBy R row column) : (p.modifyRange column modify new).HeldBy R row := by
  refine ⟨hp.equality, hp.prefixes, fun column' r' hlook => ?_⟩
  rw [SkipPredicates.modifyRange, Dict.lookup_insert'] at hlook
  split at hlook
  · next hcolumn =>
    cases hlook
    rw [hcolumn]
    split
    · next r hr => exact hmodify r (hp.ranges column r hr)
    · exact hnew
  · exact hp.ranges column' r' hlook

theorem heldBy_addEquals (hp : p.HeldBy R row) (h : (SkipAtom.equals v).HoldsOf R row column) :
    (p.addEquals column v).HeldBy R row := by
  have hinsert : ({ p with equality := p.equality.insert column v } : SkipPredicates).HeldBy R row := by
    refine ⟨fun column' v' hlook => ?_, hp.prefixes, hp.ranges⟩
    rw [Dict.lookup_insert'] at hlook
    split at hlook
    · next hcolumn =>
      cases hlook
      exact hcolumn ▸ h
    · exact hp.equality column' v' hlook
  have hmarked : ({ p with contradicted := true } : SkipPredicates).HeldBy R row :=
    ⟨hp.equality, hp.prefixes, hp.ranges⟩
  rw [SkipPredicates.addEquals]
  split
  · split
    · exact hmarked
    · exact hp
  · split
    · split
      · exact hmarked
      · exact hinsert
    · exact hinsert

theorem heldBy_addPrefix (hp : p.HeldBy R row) (h : v.toList <+: (row column).printed.toList) :
    (p.addPrefix column v).HeldBy R row ∧ (p.addPrefix column v).contradicted = p.contradicted := by
  have hinsert : ({ p with prefixes := p.prefixes.insert column v } : SkipPredicates).HeldBy R row := by
    refine ⟨hp.equality, fun column' v' hlook => ?_, hp.ranges⟩
    rw [Dict.lookup_insert'] at hlook
    split at hlook
    · next hcolumn =>
      cases hlook
      exact hcolumn ▸ h
    · exact hp.prefixes column' v' hlook
  rw [SkipPredicates.addPrefix]
  split
  · next existing hlook =>
    split
    · exact ⟨hinsert, rfl⟩
    · next hlonger =>
      rw [if_neg
        (not_not.mpr ((List.prefix_or_prefix_of_prefix (hp.prefixes column existing hlook) h).resolve_left hlonger))]
      exact ⟨hp, rfl⟩
  · exact ⟨hinsert, rfl⟩

theorem heldBy_addIn {values : List String} (hp : p.HeldBy R row) : (p.addIn column values).HeldBy R row := by
  rw [SkipPredicates.addIn]
  split
  · exact ⟨hp.equality, hp.prefixes, hp.ranges⟩
  · split
    · exact ⟨hp.equality, hp.prefixes, hp.ranges⟩
    · split
      · exact ⟨hp.equality, hp.prefixes, hp.ranges⟩
      · exact ⟨hp.equality, hp.prefixes, hp.ranges⟩

theorem heldBy_addTo (hp : p.HeldBy R row) (a : SkipAtom) (h : a.HoldsOf R row column) :
    (a.addTo column p).HeldBy R row := by
  cases a with
  | equals value => exact heldBy_addEquals hp h
  | startsWith pfx => exact (heldBy_addPrefix hp (printed_of_startsWith h)).1
  | oneOf values => exact heldBy_addIn hp
  | gte value =>
    exact heldBy_modifyRange hp (fun r hr => heldBy_tightenMin hr h nofun)
      ⟨fun v hv => by cases hv; exact ⟨h, nofun⟩, nofun⟩
  | gt value =>
    exact heldBy_modifyRange hp (fun r hr => heldBy_tightenMin hr (holdsOf_gte_of_gt h) fun _ => h)
      ⟨fun v hv => by cases hv; exact ⟨holdsOf_gte_of_gt h, fun _ => h⟩, nofun⟩
  | lte value =>
    exact heldBy_modifyRange hp (fun r hr => heldBy_tightenMax hr h nofun)
      ⟨nofun, fun v hv => by cases hv; exact ⟨h, nofun⟩⟩
  | lt value =>
    exact heldBy_modifyRange hp (fun r hr => heldBy_tightenMax hr (holdsOf_lte_of_lt h) fun _ => h)
      ⟨nofun, fun v hv => by cases hv; exact ⟨holdsOf_lte_of_lt h, fun _ => h⟩⟩
  | contains substring => exact ⟨hp.equality, hp.prefixes, hp.ranges⟩
  | token tok => exact ⟨hp.equality, hp.prefixes, hp.ranges⟩

theorem heldBy_apply (hp : p.HeldBy R row) (h : c.HoldsOf R row) : (c.apply p).HeldBy R row := by
  cases c with
  | add column a => exact heldBy_addTo hp a h
  | addRange column min max =>
    exact heldBy_addTo (a := .lte max) (heldBy_addTo (a := .gte min) hp h.1) h.2

theorem heldBy_calls (hp : p.HeldBy R row) (hcalls : ∀ c ∈ calls, c.HoldsOf R row) :
    (calls.foldl SkipCall.apply p).HeldBy R row := by
  induction calls generalizing p with
  | nil => exact hp
  | cons c calls ih =>
    exact ih (heldBy_apply hp (hcalls c List.mem_cons_self)) fun c' hc' => hcalls c' (List.mem_cons_of_mem _ hc')

/-! #### The values that are kept -/

theorem contradicted_apply (h : p.contradicted = true) : (c.apply p).contradicted = true := by
  have hadd :
    ∀ (p : SkipPredicates) column a, p.contradicted = true → (SkipAtom.addTo column p a).contradicted = true := by
    intro p column a h
    cases a with
    | equals value =>
      rw [SkipAtom.addTo, SkipPredicates.addEquals]
      split
      · split <;> first | rfl | exact h
      · split
        · split <;> first | rfl | exact h
        · exact h
    | startsWith pfx =>
      rw [SkipAtom.addTo, SkipPredicates.addPrefix]
      split
      · split
        · exact h
        · split <;> first | rfl | exact h
      · exact h
    | oneOf values =>
      rw [SkipAtom.addTo, SkipPredicates.addIn]
      split
      · rfl
      · split
        · rfl
        · split
          · exact Bool.or_eq_true_iff.mpr (Or.inl h)
          · exact h
    | _ => exact h
  cases c with
  | add column a => exact hadd p column a h
  | addRange column min max => exact hadd _ column (.lte max) (hadd p column (.gte min) h)

theorem contradicted_calls (h : p.contradicted = true) : (calls.foldl SkipCall.apply p).contradicted = true := by
  induction calls generalizing p with
  | nil => exact h
  | cons c calls ih => exact ih (contradicted_apply h)

/-- What a call does to the values kept, if they allow some text for each column. -/
structure CallSpec (p : SkipPredicates) (c : SkipCall) : Prop where
  contradicted : (c.apply p).contradicted = false ↔
    p.contradicted = false ∧ ∀ column, ∃ s, p.Allows column s ∧ c.Spells column s
  allows : (c.apply p).contradicted = false → ∀ column s, (c.apply p).Allows column s ↔
    p.Allows column s ∧ c.Spells column s
  listed : (c.apply p).contradicted = false → ∀ column, ((c.apply p).inLists.lookup column).isSome ↔
    (p.inLists.lookup column).isSome ∨ ∃ values, c = .add column (.oneOf values)

theorem callSpec_of_kept (hcoherent : ∀ column, ∃ s, p.Allows column s) (hspells : ∀ column s, c.Spells column s)
    (hequality : (c.apply p).equality = p.equality) (hlists : (c.apply p).inLists = p.inLists)
    (hcontradicted : (c.apply p).contradicted = p.contradicted)
    (hlisted : ∀ column values, c ≠ .add column (.oneOf values)) : CallSpec p c where
  contradicted := by
    rw [hcontradicted]
    refine (and_iff_left fun column => ?_).symm
    obtain ⟨s, hs⟩ := hcoherent column
    exact ⟨s, hs, hspells column s⟩
  allows _ column s := by
    rw [SkipPredicates.Allows, hequality, hlists]
    exact (and_iff_left (hspells column s)).symm
  listed _ column := by
    rw [hlists]
    exact (or_iff_left fun ⟨values, hc⟩ => hlisted column values hc).symm

theorem spells_add {a : SkipAtom} (ha : a.isSpelled = true) {column' s : String} :
    (SkipCall.add column a).Spells column' s ↔ (column' = column → a.Meets s) := by
  constructor
  · rintro h rfl
    exact h a rfl ha
  · intro h a' hadd _
    cases hadd
    exact h rfl

theorem spells_of_unspelled {a : SkipAtom} (ha : a.isSpelled = false) (column' s : String) :
    (SkipCall.add column a).Spells column' s := by
  intro a' hadd ha'
  cases hadd
  exact absurd (ha.symm.trans ha') Bool.false_ne_true

theorem callSpec_of_marked {a : SkipAtom} (ha : a.isSpelled = true)
    (hmarked : (SkipCall.apply p (.add column a)).contradicted = true) (hno : ¬∃ s, p.Allows column s ∧ a.Meets s) :
    CallSpec p (.add column a) where
  contradicted := by
    refine iff_of_false (fun h => Bool.false_ne_true (h.symm.trans hmarked)) fun ⟨_, h⟩ => hno ?_
    obtain ⟨s, hs, hspells⟩ := h column
    exact ⟨s, hs, (spells_add ha).mp hspells rfl⟩
  allows h := absurd (h.symm.trans hmarked) Bool.false_ne_true
  listed h := absurd (h.symm.trans hmarked) Bool.false_ne_true

theorem callSpec_addEquals (hcoherent : ∀ column, ∃ s, p.Allows column s) : CallSpec p (.add column (.equals v)) := by
  have hmarked : (SkipCall.apply p (.add column (.equals v))).contradicted = true → ¬p.Allows column v →
      CallSpec p (.add column (.equals v)) := fun h hno =>
    callSpec_of_marked rfl h fun ⟨s, hs, hmeets⟩ => by
      have heq : s = v := hmeets
      exact hno (heq ▸ hs)
  have hspelled : ∀ {column' : String}, p.Allows column v →
      ∃ s, p.Allows column' s ∧ (SkipCall.add column (.equals v)).Spells column' s := fun {column'} hv => by
    by_cases hcolumn : column' = column
    · exact ⟨v, hcolumn ▸ hv, (spells_add rfl).mpr fun _ => rfl⟩
    · obtain ⟨s, hs⟩ := hcoherent column'
      exact ⟨s, hs, (spells_add rfl).mpr fun h => absurd h hcolumn⟩
  have hinsert : p.equality.lookup column = none → p.Allows column v →
      SkipCall.apply p (.add column (.equals v)) = { p with equality := p.equality.insert column v } →
      CallSpec p (.add column (.equals v)) := by
    intro hnone hv heq
    refine ⟨?_, fun _ column' s => ?_, fun _ column' => ?_⟩
    · rw [heq]
      exact (and_iff_left fun column' => hspelled hv).symm
    · rw [heq, spells_add rfl, SkipPredicates.Allows, SkipPredicates.Allows, Dict.lookup_insert']
      split
      · next hcolumn =>
        rw [hcolumn, hnone]
        constructor
        · exact fun h => ⟨⟨nofun, h.2⟩, fun _ => h.1 v rfl⟩
        · exact fun h => ⟨fun v' hv' => (Option.some.inj hv') ▸ h.2 rfl, h.1.2⟩
      · next hcolumn => exact (and_iff_left fun h => absurd h hcolumn).symm
    · rw [heq]
      exact (or_iff_left fun ⟨values, hc⟩ => nomatch hc).symm
  cases hlook : p.equality.lookup column with
  | some existing =>
    by_cases hne : existing = v
    · have heq : SkipCall.apply p (.add column (.equals v)) = p := by
        rw [SkipCall.apply, SkipAtom.addTo, SkipPredicates.addEquals, hlook]
        exact if_neg (not_not.mpr hne)
      have hspells : ∀ column' s, p.Allows column' s → (SkipCall.add column (.equals v)).Spells column' s := by
        intro column' s hs
        refine (spells_add rfl).mpr fun hcolumn => ?_
        rw [hcolumn] at hs
        exact (hs.1 existing hlook).trans hne
      refine ⟨?_, fun _ column' s => ?_, fun _ column' => ?_⟩
      · rw [heq]
        refine (and_iff_left fun column' => ?_).symm
        obtain ⟨s, hs⟩ := hcoherent column'
        exact ⟨s, hs, hspells column' s hs⟩
      · rw [heq]
        exact (and_iff_left_of_imp (hspells column' s)).symm
      · rw [heq]
        exact (or_iff_left fun ⟨values, hc⟩ => nomatch hc).symm
    · refine hmarked ?_ fun hv => hne (hv.1 existing hlook).symm
      rw [SkipCall.apply, SkipAtom.addTo, SkipPredicates.addEquals, hlook]
      dsimp only
      rw [if_pos hne]
  | none =>
    cases hlist : p.inLists.lookup column with
    | some l =>
      by_cases hmem : v ∈ l
      · refine hinsert hlook ⟨fun v' hv' => ?_, fun l' hl' => ?_⟩ ?_
        · cases hlook.symm.trans hv'
        · exact Option.some.inj (hlist.symm.trans hl') ▸ hmem
        · rw [SkipCall.apply, SkipAtom.addTo, SkipPredicates.addEquals, hlook, hlist]
          dsimp only
          rw [if_neg (not_not.mpr hmem)]
      · refine hmarked ?_ fun hv => hmem (hv.2 l hlist)
        rw [SkipCall.apply, SkipAtom.addTo, SkipPredicates.addEquals, hlook, hlist]
        dsimp only
        rw [if_pos hmem]
    | none =>
      refine hinsert hlook ⟨fun v' hv' => ?_, fun l' hl' => ?_⟩ ?_
      · cases hlook.symm.trans hv'
      · cases hlist.symm.trans hl'
      · rw [SkipCall.apply, SkipAtom.addTo, SkipPredicates.addEquals, hlook, hlist]

theorem callSpec_addIn {values : List String} (hcoherent : ∀ column, ∃ s, p.Allows column s) :
    CallSpec p (.add column (.oneOf values)) := by
  -- `K` is what the list of the column becomes.
  have hinsert : ∀ K : List String, (SkipCall.apply p (.add column (.oneOf values))).equality = p.equality →
      (SkipCall.apply p (.add column (.oneOf values))).inLists = p.inLists.insert column K →
      (SkipCall.apply p (.add column (.oneOf values))).contradicted = p.contradicted →
      (∀ s, s ∈ K ↔ (∀ l, p.inLists.lookup column = some l → s ∈ l) ∧ s ∈ values) →
      (∃ s, p.Allows column s ∧ s ∈ values) → CallSpec p (.add column (.oneOf values)) := by
    rintro K hequality hlists hcontradicted hK ⟨s₀, hs₀, hmem₀⟩
    refine ⟨?_, fun _ column' s => ?_, fun _ column' => ?_⟩
    · rw [hcontradicted]
      refine (and_iff_left fun column' => ?_).symm
      by_cases hcolumn : column' = column
      · exact ⟨s₀, hcolumn ▸ hs₀, (spells_add rfl).mpr fun _ => hmem₀⟩
      · obtain ⟨s, hs⟩ := hcoherent column'
        exact ⟨s, hs, (spells_add rfl).mpr fun h => absurd h hcolumn⟩
    · rw [spells_add rfl, SkipPredicates.Allows, SkipPredicates.Allows, hequality, hlists, Dict.lookup_insert']
      split
      · next hcolumn =>
        rw [hcolumn, forall_prop_of_true rfl, and_assoc]
        refine and_congr_right fun _ => ?_
        rw [SkipAtom.Meets, ← hK]
        exact ⟨fun h => h K rfl, fun h l hl => (Option.some.inj hl) ▸ h⟩
      · next hcolumn => exact (and_iff_left fun h => absurd h hcolumn).symm
    · rw [hlists, Dict.lookup_insert']
      split
      · next hcolumn =>
        exact iff_of_true rfl (Or.inr ⟨values, by rw [hcolumn]⟩)
      · next hcolumn =>
        refine (or_iff_left ?_).symm
        rintro ⟨values', hc⟩
        cases hc
        exact hcolumn rfl
  have hmarked : (SkipCall.apply p (.add column (.oneOf values))).contradicted = true →
      (¬∃ s, p.Allows column s ∧ s ∈ values) → CallSpec p (.add column (.oneOf values)) := callSpec_of_marked rfl
  by_cases hnil : values = []
  · refine hmarked ?_ ?_
    · rw [SkipCall.apply, SkipAtom.addTo, SkipPredicates.addIn, if_pos hnil]
    · rintro ⟨s, _, hs⟩
      exact List.not_mem_nil (hnil ▸ hs)
  by_cases heq : (p.equality.lookup column).any (· ∉ values) = true
  · obtain ⟨v, hlook, hmem⟩ := (Option.any_eq_true _ _).mp heq
    refine hmarked ?_ ?_
    · rw [SkipCall.apply, SkipAtom.addTo, SkipPredicates.addIn, if_neg hnil, if_pos heq]
    · rintro ⟨s, hs, hin⟩
      exact of_decide_eq_true hmem (hs.1 v hlook ▸ hin)
  -- Where the column has a value, it is in the list and allowed; else any value of `K` is.
  have hallowed : ∀ K : List String, K ≠ [] →
      (∀ s, s ∈ K ↔ (∀ l, p.inLists.lookup column = some l → s ∈ l) ∧ s ∈ values) →
      ∃ s, p.Allows column s ∧ s ∈ values := by
    intro K hne hK
    cases hlook : p.equality.lookup column with
    | some v =>
      obtain ⟨s, hs⟩ := hcoherent column
      have hin : v ∈ values := by
        by_contra hno
        exact heq ((Option.any_eq_true _ _).mpr ⟨v, hlook, decide_eq_true hno⟩)
      exact ⟨s, hs, hs.1 v hlook ▸ hin⟩
    | none =>
      obtain ⟨s, hs⟩ := List.exists_mem_of_ne_nil K hne
      obtain ⟨hlists, hin⟩ := (hK s).mp hs
      exact ⟨s, ⟨fun v hv => (by cases hlook.symm.trans hv), hlists⟩, hin⟩
  cases hlist : p.inLists.lookup column with
  | none =>
    have happly :
      SkipCall.apply p (.add column (.oneOf values)) = { p with inLists := p.inLists.insert column values } := by
      rw [SkipCall.apply, SkipAtom.addTo, SkipPredicates.addIn, if_neg hnil, if_neg heq, hlist]
    have hK : ∀ s, s ∈ values ↔ (∀ l, p.inLists.lookup column = some l → s ∈ l) ∧ s ∈ values := fun s =>
      (and_iff_right fun l hl => by cases hlist.symm.trans hl).symm
    exact hinsert values (by rw [happly]) (by rw [happly]) (by rw [happly]) hK (hallowed values hnil hK)
  | some existing =>
    have happly : SkipCall.apply p (.add column (.oneOf values)) =
        { p with inLists := p.inLists.insert column (existing.filter (· ∈ values)),
                 contradicted := p.contradicted || (existing.filter (· ∈ values)).isEmpty } := by
      rw [SkipCall.apply, SkipAtom.addTo, SkipPredicates.addIn, if_neg hnil, if_neg heq, hlist]
    have hK : ∀ s, s ∈ existing.filter (· ∈ values) ↔
        (∀ l, p.inLists.lookup column = some l → s ∈ l) ∧ s ∈ values := fun s => by
      rw [hlist, List.mem_filter, decide_eq_true_eq]
      exact and_congr_left fun _ => ⟨fun h l hl => (Option.some.inj hl) ▸ h, fun h => h existing rfl⟩
    by_cases hempty : existing.filter (· ∈ values) = []
    · refine hmarked ?_ ?_
      · rw [happly, hempty]
        exact Bool.or_true _
      · rintro ⟨s, hs, hin⟩
        have hs := (hK s).mpr ⟨hs.2, hin⟩
        rw [hempty] at hs
        exact List.not_mem_nil hs
    · refine hinsert _ (by rw [happly]) (by rw [happly]) ?_ hK (hallowed _ hempty hK)
      rw [happly]
      dsimp only
      rw [Bool.eq_false_of_not_eq_true fun h => hempty (List.isEmpty_iff.mp h), Bool.or_false]

theorem callSpec_of_holds (hcoherent : ∀ column, ∃ s, p.Allows column s) (hp : p.HeldBy R row)
    (h : c.HoldsOf R row) : CallSpec p c := by
  have hkept : ∀ column a, a.isSpelled = false → (SkipAtom.addTo column p a).equality = p.equality →
      (SkipAtom.addTo column p a).inLists = p.inLists → (SkipAtom.addTo column p a).contradicted = p.contradicted →
      CallSpec p (.add column a) := fun column a ha hequality hlists hcontradicted =>
    callSpec_of_kept hcoherent (spells_of_unspelled ha) hequality hlists hcontradicted fun _ _ hc => by
      cases hc
      cases ha
  cases c with
  | addRange column min max => exact callSpec_of_kept hcoherent (fun _ _ _ hc => nomatch hc) rfl rfl rfl nofun
  | add column a =>
    cases a with
    | equals value => exact callSpec_addEquals hcoherent
    | oneOf values => exact callSpec_addIn hcoherent
    | startsWith pfx =>
      have hfields : (p.addPrefix column pfx).equality = p.equality ∧ (p.addPrefix column pfx).inLists = p.inLists := by
        rw [SkipPredicates.addPrefix]
        split
        · split
          · exact ⟨rfl, rfl⟩
          · split <;> exact ⟨rfl, rfl⟩
        · exact ⟨rfl, rfl⟩
      exact hkept column _ rfl hfields.1 hfields.2 (heldBy_addPrefix hp (printed_of_startsWith h)).2
    | _ => exact hkept column _ rfl rfl rfl rfl

theorem spelledByAll_cons {s : String} :
    SpelledByAll (c :: calls) column s ↔ c.Spells column s ∧ SpelledByAll calls column s := by
  constructor
  · exact fun h => ⟨fun a ha => h a (ha ▸ List.mem_cons_self), fun a ha => h a (List.mem_cons_of_mem _ ha)⟩
  · rintro ⟨hc, hcalls⟩ a ha
    rcases List.mem_cons.mp ha with ha | ha
    · exact hc a ha.symm
    · exact hcalls a ha

structure CallsSpec (p : SkipPredicates) (calls : List SkipCall) : Prop where
  contradicted : (calls.foldl SkipCall.apply p).contradicted = false ↔
    ∀ column, ∃ s, p.Allows column s ∧ SpelledByAll calls column s
  allows : (calls.foldl SkipCall.apply p).contradicted = false → ∀ column s,
    (calls.foldl SkipCall.apply p).Allows column s ↔ p.Allows column s ∧ SpelledByAll calls column s
  listed : (calls.foldl SkipCall.apply p).contradicted = false → ∀ column,
    ((calls.foldl SkipCall.apply p).inLists.lookup column).isSome ↔
      (p.inLists.lookup column).isSome ∨ ∃ values, SkipCall.add column (.oneOf values) ∈ calls

theorem calls_spec (hcalls : ∀ c ∈ calls, c.HoldsOf R row) (hp : p.HeldBy R row)
    (hcoherent : ∀ column, ∃ s, p.Allows column s) (hfresh : p.contradicted = false) : CallsSpec p calls := by
  induction calls generalizing p with
  | nil =>
    have hnone : ∀ column s, SpelledByAll [] column s := fun column s a ha => nomatch ha
    refine ⟨iff_of_true hfresh fun column => ?_, fun _ column s => (and_iff_left (hnone column s)).symm,
      fun _ column => (or_iff_left fun ⟨values, h⟩ => nomatch h).symm⟩
    obtain ⟨s, hs⟩ := hcoherent column
    exact ⟨s, hs, hnone column s⟩
  | cons c calls ih =>
    obtain ⟨hcontradicted, hallows, hlisted⟩ := callSpec_of_holds hcoherent hp (hcalls c List.mem_cons_self)
    have hheld := heldBy_apply hp (hcalls c List.mem_cons_self)
    cases hmark : (c.apply p).contradicted with
    | false =>
      have hallows := hallows hmark
      have hspec := ih (fun c' hc' => hcalls c' (List.mem_cons_of_mem _ hc')) hheld
        (fun column => by
          obtain ⟨s, hs⟩ := (hcontradicted.mp hmark).2 column
          exact ⟨s, (hallows column s).mpr hs⟩) hmark
      have hboth : ∀ column s, (c.apply p).Allows column s ∧ SpelledByAll calls column s ↔
          p.Allows column s ∧ SpelledByAll (c :: calls) column s := fun column s => by
        rw [hallows, spelledByAll_cons, and_assoc]
      refine ⟨hspec.contradicted.trans (forall_congr' fun column => exists_congr fun s => hboth column s),
        fun h column s => (hspec.allows h column s).trans (hboth column s), fun h column => ?_⟩
      rw [List.foldl_cons, hspec.listed h, hlisted hmark, or_assoc]
      refine or_congr_right ⟨?_, ?_⟩
      · rintro (⟨values, rfl⟩ | ⟨values, hmem⟩)
        · exact ⟨values, List.mem_cons_self⟩
        · exact ⟨values, List.mem_cons_of_mem _ hmem⟩
      · rintro ⟨values, hmem⟩
        rcases List.mem_cons.mp hmem with heq | hmem
        · exact Or.inl ⟨values, heq.symm⟩
        · exact Or.inr ⟨values, hmem⟩
    | true =>
      have hmarked : ((c :: calls).foldl SkipCall.apply p).contradicted = true := by
        rw [List.foldl_cons]
        exact contradicted_calls hmark
      have hno : ¬(((c :: calls).foldl SkipCall.apply p).contradicted = false) := fun h =>
        Bool.false_ne_true (h.symm.trans hmarked)
      refine ⟨iff_of_false hno fun h => ?_, fun h => absurd h hno, fun h => absurd h hno⟩
      refine Bool.false_ne_true ((hcontradicted.mpr ⟨hfresh, fun column => ?_⟩).symm.trans hmark)
      obtain ⟨s, hs, hspelled⟩ := h column
      exact ⟨s, hs, (spelledByAll_cons.mp hspelled).1⟩

end Calls

/-! ### Files -/

/-- The file passes the predicates and stays in every list that has it. -/
def FileColumnStats.Kept (stats : FileColumnStats) (p : SkipPredicates) : Prop :=
  fileMatchesPredicates stats p = true ∧ ∀ files getCached path, path ∈ files → getCached path = some stats →
    path ∈ filterFilesByCachedStats files p getCached

section Files
variable {R : NumberReading} {row : String → StatCell} {stats : FileColumnStats} {p : SkipPredicates}

theorem kept_iff : stats.Kept p ↔ p.contradicted = false ∧ fileMatchesPredicates stats p = true := by
  constructor
  · rintro ⟨hmatches, hkept⟩
    refine ⟨?_, hmatches⟩
    have hmem := hkept ["file"] (fun _ => some stats) "file" (List.mem_singleton_self _) rfl
    rw [filterFilesByCachedStats] at hmem
    split at hmem
    · cases hmem
    · next hfresh => exact Bool.eq_false_of_not_eq_true hfresh
  · rintro ⟨hfresh, hmatches⟩
    refine ⟨hmatches, fun files getCached path hpath hcached => ?_⟩
    rw [filterFilesByCachedStats, hfresh, if_neg Bool.false_ne_true]
    split
    · exact hpath
    · exact List.mem_filter.mpr ⟨hpath, by rw [hcached]; exact hmatches⟩

theorem column_eq_some {column : String} {c : ColumnSidecarStats} (h : stats.column column = some c) :
    c ∈ stats.columns ∧ c.name = column :=
  ⟨List.mem_of_find?_eq_some h, of_decide_eq_true (List.find?_some h :)⟩

/-- Of a file with a row that meets what is kept, the lists and the excluded bounds decide. -/
theorem fileMatchesPredicates_iff (hbounds : stats.Bounds row) (hheld : p.HeldBy R row) :
    fileMatchesPredicates stats p = true ↔
      (∀ column r c, p.ranges.lookup column = some r → stats.column column = some c →
        (r.minExclusive = true → ∀ v ∈ r.minValue, ∀ m ∈ c.max, ¬SameDouble v m) ∧
          (r.maxExclusive = true → ∀ v ∈ r.maxValue, ∀ m ∈ c.min, ¬SameDouble v m)) ∧
      ∀ column l c, p.inLists.lookup column = some l → stats.column column = some c → ∃ s ∈ l, c.Spans s := by
  have hequality : p.equality.pairs.all (fun e => (stats.column e.1).all (columnMatchesEquality · e.2)) = true := by
    refine List.all_eq_true.mpr fun e he => (Option.all_eq_true _ _).mpr fun c hc => ?_
    obtain ⟨hmem, hname⟩ := column_eq_some hc
    have hvalue := hheld.equality e.1 e.2 (Dict.mem_pairs.mp he)
    rw [← hname] at hvalue
    exact columnMatchesEquality_of_holds (hbounds c hmem).1 (hbounds c hmem).2 hvalue
  have hrange : ∀ column r c, p.ranges.lookup column = some r → stats.column column = some c →
      (columnMatchesRange c r = true ↔ (r.minExclusive = true → ∀ v ∈ r.minValue, ∀ m ∈ c.max, ¬SameDouble v m) ∧
        (r.maxExclusive = true → ∀ v ∈ r.maxValue, ∀ m ∈ c.min, ¬SameDouble v m)) := by
    intro column r c hr hc
    obtain ⟨hmem, rfl⟩ := column_eq_some hc
    obtain ⟨hmin, hmax⟩ := hheld.ranges c.name r hr
    exact columnMatchesRange_iff (hbounds c hmem).1 (hbounds c hmem).2 hmin hmax
  rw [fileMatchesPredicates, hequality, Bool.true_and, Bool.and_eq_true, List.all_eq_true, List.all_eq_true]
  refine and_congr ⟨fun h column r c hr hc => ?_, fun h e he => ?_⟩ ⟨fun h column l c hl hc => ?_, fun h e he => ?_⟩
  · exact (hrange column r c hr hc).mp ((Option.all_eq_true _ _).mp (h (column, r) (Dict.mem_pairs.mpr hr)) c hc)
  · exact (Option.all_eq_true _ _).mpr fun c hc =>
      (hrange e.1 e.2 c (Dict.mem_pairs.mp he) hc).mpr (h e.1 e.2 c (Dict.mem_pairs.mp he) hc)
  · obtain ⟨s, hs, hspans⟩ :=
      List.any_eq_true.mp ((Option.all_eq_true _ _).mp (h (column, l) (Dict.mem_pairs.mpr hl)) c hc)
    exact ⟨s, hs, columnMatchesEquality_iff.mp hspans⟩
  · refine (Option.all_eq_true _ _).mpr fun c hc => List.any_eq_true.mpr ?_
    obtain ⟨s, hs, hspans⟩ := h e.1 e.2 c (Dict.mem_pairs.mp he) hc
    exact ⟨s, hs, columnMatchesEquality_iff.mpr hspans⟩

/-- A file with a row that satisfies the calls is kept exactly if they have a common spelling and no rounded bound. -/
theorem kept_iff_prunedRight {calls : List SkipCall} (hbounds : stats.Bounds row)
    (hcalls : ∀ c ∈ calls, c.HoldsOf R row) :
    stats.Kept (calls.foldl SkipCall.apply {}) ↔ PrunedRight calls stats := by
  have hempty : ∀ column s, SkipPredicates.Allows {} column s := fun column s => ⟨nofun, nofun⟩
  have hheld : SkipPredicates.HeldBy R row (calls.foldl SkipCall.apply {}) := heldBy_calls ⟨nofun, nofun, nofun⟩ hcalls
  have hspec : CallsSpec {} calls := calls_spec hcalls ⟨nofun, nofun, nofun⟩ (fun column => ⟨"", hempty column ""⟩) rfl
  have hcommon : (calls.foldl SkipCall.apply {}).contradicted = false ↔ ∀ column, ∃ s, SpelledByAll calls column s :=
    hspec.contradicted.trans (forall_congr' fun column => exists_congr fun s => and_iff_right (hempty column s))
  rw [kept_iff, fileMatchesPredicates_iff hbounds hheld]
  constructor
  · rintro ⟨hfresh, hexcluded, hlists⟩
    have hallows : ∀ column s, (calls.foldl SkipCall.apply {}).Allows column s ↔ SpelledByAll calls column s :=
      fun column s => (hspec.allows hfresh column s).trans (and_iff_right (hempty column s))
    refine ⟨hcommon.mp hfresh, fun column values c hasked hc => ?_, hexcluded⟩
    obtain ⟨l, hl⟩ := Option.isSome_iff_exists.mp ((hspec.listed hfresh column).mpr (Or.inr ⟨values, hasked⟩))
    obtain ⟨hmem, hname⟩ := column_eq_some hc
    cases hlook : (calls.foldl SkipCall.apply {}).equality.lookup column with
    | some v =>
      obtain ⟨s, hs⟩ := hcommon.mp hfresh column
      have hvalue := hheld.equality column v hlook
      rw [← hname] at hvalue
      have hspans := columnMatchesEquality_iff.mp
        (columnMatchesEquality_of_holds (hbounds c hmem).1 (hbounds c hmem).2 hvalue)
      exact ⟨s, hs, ((hallows column s).mpr hs).1 v hlook ▸ hspans⟩
    | none =>
      obtain ⟨s, hs, hspans⟩ := hlists column l c hl hc
      refine ⟨s, (hallows column s).mp ⟨fun v hv => ?_, fun l' hl' => ?_⟩, hspans⟩
      · cases hlook.symm.trans hv
      · exact Option.some.inj (hl.symm.trans hl') ▸ hs
  · rintro ⟨hspelled, hlisted, hexcluded⟩
    have hfresh := hcommon.mpr hspelled
    refine ⟨hfresh, hexcluded, fun column l c hl hc => ?_⟩
    obtain ⟨values, hasked⟩ := ((hspec.listed hfresh column).mp (by rw [hl]; rfl)).resolve_left (fun h => nomatch h)
    obtain ⟨s, hs, hspans⟩ := hlisted column values c hasked hc
    exact ⟨s, ((hspec.allows hfresh column s).mpr ⟨hempty column s, hs⟩).2 l hl, hspans⟩

end Files

/-- The statistics of a file drop no row that satisfies the predicates, exactly under the condition. -/
theorem sidecarPruning_sound_iff (R : NumberReading) (calls : List SkipCall) (stats : FileColumnStats)
    (rows : List (String → StatCell)) :
    ((∀ row ∈ rows, stats.Bounds row) → (∃ row ∈ rows, ∀ c ∈ calls, c.HoldsOf R row) →
        stats.Kept (calls.foldl SkipCall.apply {})) ↔
      ((∀ row ∈ rows, stats.Bounds row) → (∃ row ∈ rows, ∀ c ∈ calls, c.HoldsOf R row) → PrunedRight calls stats) := by
  refine imp_congr_right fun hbounds => imp_congr_right ?_
  rintro ⟨row, hrow, hcalls⟩
  exact kept_iff_prunedRight (hbounds row hrow) hcalls

/-- The literals of the parser of floats, read exactly. -/
def exactReading : NumberReading where
  numberOf _ text := (floatLiteral text).getD none
  rounds column text x h := by
    obtain ⟨value, hvalue, hround⟩ := Option.map_eq_some_iff.mp h
    obtain ⟨y, rfl, rfl⟩ := Option.map_eq_some_iff.mp hround
    exact ⟨y, by rw [hvalue]; rfl, rfl⟩

/-- `x = 1 AND x = 1.0` is true of a row with the number one, and its file is dropped. -/
theorem equalSpellings_dropped :
    ¬∀ (R : NumberReading) (calls : List SkipCall) (stats : FileColumnStats) (rows : List (String → StatCell)),
      (∀ row ∈ rows, stats.Bounds row) → (∃ row ∈ rows, ∀ c ∈ calls, c.HoldsOf R row) →
        stats.Kept (calls.foldl SkipCall.apply {}) := by
  intro h
  have hkept := h exactReading [.add "x" (.equals "1"), .add "x" (.equals "1.0")]
    ⟨[⟨"x", some (.int 1), some (.int 1)⟩]⟩ [fun _ => .number (((1 : ℚ) : WithTop ℚ) : ExtRat) "1"] ?_ ?_
  · have hfresh := (kept_iff.mp hkept).1
    exact absurd hfresh (by decide)
  · intro row hrow c hc
    cases List.mem_singleton.mp hrow
    cases List.mem_singleton.mp hc
    constructor
    · rintro m hm
      cases hm
      rintro x hx
      cases hx
      rw [Int.cast_one]
    · rintro m hm
      cases hm
      rintro x hx
      cases hx
      rw [Int.cast_one]
  · refine ⟨_, List.mem_singleton_self _, fun c hc => ?_⟩
    have hone : floatLiteral "1" = some (some (((1 : ℚ) : WithTop ℚ) : ExtRat)) := by decide +kernel
    have hone' : floatLiteral "1.0" = some (some (((1 : ℚ) : WithTop ℚ) : ExtRat)) := by decide +kernel
    rcases List.mem_cons.mp hc with rfl | hc
    · show (floatLiteral "1").getD none = _
      rw [hone]
      rfl
    · cases List.mem_singleton.mp hc
      show (floatLiteral "1.0").getD none = _
      rw [hone']
      rfl

end Reiver.Pond
