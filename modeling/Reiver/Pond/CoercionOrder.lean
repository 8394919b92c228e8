import Reiver.Pond.CoercionRules

/-! # When the order of two types matters

`common_supertype` of two types against that of the same types the other way round. -/

namespace Reiver.Pond

/-- Types that meet in one type, whichever stands on the left: joined ones, timestamps of one zone or of one that is
not known, and lists of such. -/
inductive Unites : ArrowType → ArrowType → Prop where
  | joins {l r : ArrowType} (h : Joins l r) : Unites l r
  | naive (u v : TimeUnit) (tz : String) : Unites (.timestamp u none) (.timestamp v (some tz))
  | naive' (u v : TimeUnit) (tz : String) : Unites (.timestamp v (some tz)) (.timestamp u none)
  | units {u v : TimeUnit} (tz : Option String) (h : u ≠ v) : Unites (.timestamp u tz) (.timestamp v tz)
  | list {e e' : ArrowType} (n n' : String) (b b' : Bool) (h : Unites e e') :
    Unites (.list (.new n e b)) (.list (.new n' e' b'))
  | largeList {e e' : ArrowType} (n n' : String) (b b' : Bool) (h : Unites e e') :
    Unites (.largeList (.new n e b)) (.largeList (.new n' e' b'))

/-- Types whose order matters: one is only wider, the zones differ, a decimal meets a float, or, in lists, the elements
are of this kind, the names of items that are united differ, or items of one type differ otherwise. -/
inductive OrderMatters : ArrowType → ArrowType → Prop where
  | quietly {l r : ArrowType} (h : widensQuietly l r) : OrderMatters l r
  | quietly' {l r : ArrowType} (h : widensQuietly l r) : OrderMatters r l
  | loudly {l r : ArrowType} (h : widensLoudly l r) : OrderMatters l r
  | loudly' {l r : ArrowType} (h : widensLoudly l r) : OrderMatters r l
  | zones (u v : TimeUnit) {tz tz' : String} (h : tz ≠ tz') :
    OrderMatters (.timestamp u (some tz)) (.timestamp v (some tz'))
  | decimalFloat (p : UInt8) (s : Int8) : OrderMatters (.decimal128 p s) .float64
  | floatDecimal (p : UInt8) (s : Int8) : OrderMatters .float64 (.decimal128 p s)
  | list {e e' : ArrowType} (n n' : String) (b b' : Bool) (h : OrderMatters e e') :
    OrderMatters (.list (.new n e b)) (.list (.new n' e' b'))
  | largeList {e e' : ArrowType} (n n' : String) (b b' : Bool) (h : OrderMatters e e') :
    OrderMatters (.largeList (.new n e b)) (.largeList (.new n' e' b'))
  | listNames {e e' : ArrowType} {n n' : String} (b b' : Bool) (h : Unites e e') (hn : n ≠ n') :
    OrderMatters (.list (.new n e b)) (.list (.new n' e' b'))
  | largeListNames {e e' : ArrowType} {n n' : String} (b b' : Bool) (h : Unites e e') (hn : n ≠ n') :
    OrderMatters (.largeList (.new n e b)) (.largeList (.new n' e' b'))
  | listItems (e : ArrowType) {n n' : String} {b b' : Bool} (h : ¬(n = n' ∧ b = b')) :
    OrderMatters (.list (.new n e b)) (.list (.new n' e b'))
  | largeListItems (e : ArrowType) {n n' : String} {b b' : Bool} (h : ¬(n = n' ∧ b = b')) :
    OrderMatters (.largeList (.new n e b)) (.largeList (.new n' e b'))

theorem TimeUnit.finer_comm (u v : TimeUnit) : u.finer v = v.finer u := by
  cases u <;> cases v <;> rfl

theorem toNat_max (p q : UInt8) : (max p q).toNat = max p.toNat q.toNat := by
  change (if p ≤ q then q else p).toNat = _
  split
  · next h => exact (Nat.max_eq_right (UInt8.le_iff_toNat_le.mp h)).symm
  · next h =>
    rw [UInt8.le_iff_toNat_le] at h
    omega

theorem toInt_max (s t : Int8) : (max s t).toInt = max s.toInt t.toInt := by
  change (if s ≤ t then t else s).toInt = _
  split
  · next h => exact (Int.max_eq_right (Int8.le_iff_toInt_le.mp h)).symm
  · next h =>
    rw [Int8.le_iff_toInt_le] at h
    omega

theorem precision_max_comm (p q : UInt8) : max p q = max q p :=
  UInt8.toNat_inj.mp (by rw [toNat_max, toNat_max, Nat.max_comm])

theorem scale_max_comm (s t : Int8) : max s t = max t s :=
  Int8.toInt_inj.mp (by rw [toInt_max, toInt_max, Int.max_comm])

theorem Joins.swap {l r : ArrowType} (h : Joins l r) :
    Joins r l ∧ joined r l = joined l r ∧ isDecimal r = isDecimal l := by
  cases h with
  | @decimals p p' s s' h =>
    refine ⟨.decimals fun heq => h ⟨heq.1.symm, heq.2.symm⟩, ?_, rfl⟩
    rw [joined, joined, precision_max_comm p' p, scale_max_comm s' s]
  | texts => exact ⟨.texts', rfl, rfl⟩
  | texts' => exact ⟨.texts, rfl, rfl⟩
  | binaries => exact ⟨.binaries', rfl, rfl⟩
  | binaries' => exact ⟨.binaries, rfl, rfl⟩
  | times u v => exact ⟨.times' u v, rfl, rfl⟩
  | times' u v => exact ⟨.times u v, rfl, rfl⟩
  | @durations u v h =>
    refine ⟨.durations h.symm, ?_, rfl⟩
    rw [joined, joined, TimeUnit.finer_comm]

theorem Coerces.swap {l r t : ArrowType} {quiet : Bool} (h : Coerces l r t quiet) :
    OrderMatters l r ∨ Unites l r ∧ Coerces r l t quiet := by
  induction h with
  | quietly h => exact Or.inl (.quietly h)
  | loudly h => exact Or.inl (.loudly h)
  | naive u v tz => exact Or.inr ⟨.naive u v tz, .naive' u v tz⟩
  | naive' u v tz => exact Or.inr ⟨.naive' u v tz, .naive u v tz⟩
  | @units u v tz h =>
    rw [TimeUnit.finer_comm]
    exact Or.inr ⟨.units tz h, .units tz h.symm⟩
  | zones u v h => exact Or.inl (.zones u v h)
  | decimalFloat p s => exact Or.inl (.decimalFloat p s)
  | floatDecimal p s => exact Or.inl (.floatDecimal p s)
  | joins h =>
    obtain ⟨hswap, htarget, hquiet⟩ := h.swap
    rw [← htarget, ← hquiet]
    exact Or.inr ⟨.joins h, .joins hswap⟩
  | @list e e' t quiet n n' b b' _ ih =>
    rcases ih with hmatters | ⟨hunites, hswap⟩
    · exact Or.inl (.list n n' b b' hmatters)
    · by_cases hn : n = n'
      · subst hn
        rw [Bool.or_comm]
        exact Or.inr ⟨.list n n b b' hunites, .list n n b' b hswap⟩
      · exact Or.inl (.listNames b b' hunites hn)
  | @largeList e e' t quiet n n' b b' _ ih =>
    rcases ih with hmatters | ⟨hunites, hswap⟩
    · exact Or.inl (.largeList n n' b b' hmatters)
    · by_cases hn : n = n'
      · subst hn
        rw [Bool.or_comm]
        exact Or.inr ⟨.largeList n n b b' hunites, .largeList n n b' b hswap⟩
      · exact Or.inl (.largeListNames b b' hunites hn)

theorem Alike.swap {l r : ArrowType} (h : Alike l r) : l = r ∨ OrderMatters l r := by
  induction h with
  | refl t => exact Or.inl rfl
  | @list e e' n n' b b' _ ih =>
    rcases ih with rfl | hmatters
    · by_cases heq : n = n' ∧ b = b'
      · exact Or.inl (by rw [heq.1, heq.2])
      · exact Or.inr (.listItems e heq)
    · exact Or.inr (.list n n' b b' hmatters)
  | @largeList e e' n n' b b' _ ih =>
    rcases ih with rfl | hmatters
    · by_cases heq : n = n' ∧ b = b'
      · exact Or.inl (by rw [heq.1, heq.2])
      · exact Or.inr (.largeListItems e heq)
    · exact Or.inr (.largeList n n' b b' hmatters)

theorem Unites.symm {l r : ArrowType} (h : Unites l r) : Unites r l := by
  induction h with
  | joins h => exact .joins h.swap.1
  | naive u v tz => exact .naive' u v tz
  | naive' u v tz => exact .naive u v tz
  | units tz h => exact .units tz h.symm
  | list n n' b b' _ ih => exact .list n' n b' b ih
  | largeList n n' b b' _ ih => exact .largeList n' n b' b ih

theorem OrderMatters.symm {l r : ArrowType} (h : OrderMatters l r) : OrderMatters r l := by
  induction h with
  | quietly h => exact .quietly' h
  | quietly' h => exact .quietly h
  | loudly h => exact .loudly' h
  | loudly' h => exact .loudly h
  | zones u v h => exact .zones v u h.symm
  | decimalFloat p s => exact .floatDecimal p s
  | floatDecimal p s => exact .decimalFloat p s
  | list n n' b b' _ ih => exact .list n' n b' b ih
  | largeList n n' b b' _ ih => exact .largeList n' n b' b ih
  | listNames b b' h hn => exact .listNames b' b h.symm hn.symm
  | largeListNames b b' h hn => exact .largeListNames b' b h.symm hn.symm
  | listItems e h => exact .listItems e fun heq => h ⟨heq.1.symm, heq.2.symm⟩
  | largeListItems e h => exact .largeListItems e fun heq => h ⟨heq.1.symm, heq.2.symm⟩

/-! ### The common supertype -/

variable (debug : ArrowType → String)

theorem commonSupertype_eq_some_iff {l r t : ArrowType} :
    commonSupertype debug l r = some t ↔ (Alike l r ∧ l = t) ∨ ∃ quiet, Coerces l r t quiet := by
  rw [← coerceArrowTypes_eq_same_iff debug]
  simp only [← coerceArrowTypes_gives_iff debug]
  unfold commonSupertype
  cases coerceArrowTypes debug l r <;> simp [CoercionResult.Gives]

theorem commonSupertype_swap {l r t : ArrowType} (hmatters : ¬OrderMatters l r)
    (h : commonSupertype debug l r = some t) : commonSupertype debug r l = some t := by
  rcases (commonSupertype_eq_some_iff debug).mp h with ⟨halike, rfl⟩ | ⟨quiet, hcoerces⟩
  · rcases halike.swap with rfl | hm
    · exact h
    · exact absurd hm hmatters
  · rcases hcoerces.swap with hm | ⟨-, hswap⟩
    · exact absurd hm hmatters
    · exact (commonSupertype_eq_some_iff debug).mpr (Or.inr ⟨quiet, hswap⟩)

theorem commonSupertype_comm_of_not {l r : ArrowType} (h : ¬OrderMatters l r) :
    commonSupertype debug l r = commonSupertype debug r l := by
  apply Option.ext
  intro t
  exact ⟨commonSupertype_swap debug h, commonSupertype_swap debug fun hm => h hm.symm⟩

theorem commonSupertype_quietly {l r : ArrowType} (h : widensQuietly l r) :
    commonSupertype debug l r = some r ∧ commonSupertype debug r l = none := by
  unfold widensQuietly at h
  split at h
  all_goals first | exact ⟨rfl, rfl⟩ | cases h

theorem commonSupertype_date (unit : TimeUnit) (tz : Option String) {date : ArrowType}
    (h : date = .date32 ∨ date = .date64) :
    commonSupertype debug date (.timestamp unit tz) = some (.timestamp unit tz) ∧
      commonSupertype debug (.timestamp unit tz) date = none := by
  rcases h with rfl | rfl <;> constructor <;> simp [commonSupertype, coerceArrowTypes]

theorem commonSupertype_loudly {l r : ArrowType} (h : widensLoudly l r) :
    commonSupertype debug l r = some r ∧ commonSupertype debug r l = none := by
  unfold widensLoudly at h
  split at h
  case h_3 => exact commonSupertype_date debug _ _ (Or.inl rfl)
  case h_4 => exact commonSupertype_date debug _ _ (Or.inr rfl)
  all_goals first | exact ⟨rfl, rfl⟩ | cases h

theorem Unites.coerces {l r : ArrowType} (h : Unites l r) : ∃ t quiet, Coerces l r t quiet := by
  induction h with
  | joins h => exact ⟨_, _, .joins h⟩
  | naive u v tz => exact ⟨_, _, .naive u v tz⟩
  | naive' u v tz => exact ⟨_, _, .naive' u v tz⟩
  | units tz h => exact ⟨_, _, .units tz h⟩
  | list n n' b b' _ ih =>
    obtain ⟨t, quiet, h⟩ := ih
    exact ⟨_, _, .list n n' b b' h⟩
  | largeList n n' b b' _ ih =>
    obtain ⟨t, quiet, h⟩ := ih
    exact ⟨_, _, .largeList n n' b b' h⟩

theorem coerceArrowTypes_same_comm {l r : ArrowType} :
    coerceArrowTypes debug l r = .same ↔ coerceArrowTypes debug r l = .same := by
  rw [coerceArrowTypes_eq_same_iff, coerceArrowTypes_eq_same_iff]
  exact ⟨Alike.symm, Alike.symm⟩

def CoercionResult.supertype (left : ArrowType) : CoercionResult → Option ArrowType
  | .same => some left
  | .autoCoerce target _ => some target
  | _ => none

theorem commonSupertype_eq (l r : ArrowType) :
    commonSupertype debug l r = (coerceArrowTypes debug l r).supertype l := by
  unfold commonSupertype CoercionResult.supertype
  rfl

section

variable {l r : ArrowType} {n n' : String} {b b' : Bool} {f g : CoercionResult}

theorem supertype_of_lists {e e' : ArrowType} (hlr : l ≠ r) (hsame : f = .same ↔ g = .same)
    (h : (f.ofElements n b b').supertype l = (g.ofElements n' b' b).supertype r) :
    f.supertype e = g.supertype e' := by
  cases f <;> cases g <;> simp_all [CoercionResult.ofElements, CoercionResult.supertype]

theorem names_of_lists (hsame : f = .same ↔ g = .same)
    (h : (f.ofElements n b b').supertype l = (g.ofElements n' b' b).supertype r)
    (hcoerces : ∃ t w, f = .autoCoerce t w) : n = n' := by
  cases f <;> cases g <;> simp_all [CoercionResult.ofElements, CoercionResult.supertype]

end

theorem commonSupertype_ne_of_matters {l r : ArrowType} (h : OrderMatters l r) :
    commonSupertype debug l r ≠ commonSupertype debug r l := by
  induction h with
  | quietly h =>
    obtain ⟨hlr, hrl⟩ := commonSupertype_quietly debug h
    simp [hlr, hrl]
  | quietly' h =>
    obtain ⟨hlr, hrl⟩ := commonSupertype_quietly debug h
    simp [hlr, hrl]
  | loudly h =>
    obtain ⟨hlr, hrl⟩ := commonSupertype_loudly debug h
    simp [hlr, hrl]
  | loudly' h =>
    obtain ⟨hlr, hrl⟩ := commonSupertype_loudly debug h
    simp [hlr, hrl]
  | @zones u v tz tz' h =>
    rw [(commonSupertype_eq_some_iff debug).mpr (Or.inr ⟨_, .zones u v h⟩),
      (commonSupertype_eq_some_iff debug).mpr (Or.inr ⟨_, .zones v u h.symm⟩)]
    simp [h]
  | decimalFloat p s =>
    rw [(commonSupertype_eq_some_iff debug).mpr (Or.inr ⟨_, .decimalFloat p s⟩),
      (commonSupertype_eq_some_iff debug).mpr (Or.inr ⟨_, .floatDecimal p s⟩)]
    simp
  | floatDecimal p s =>
    rw [(commonSupertype_eq_some_iff debug).mpr (Or.inr ⟨_, .decimalFloat p s⟩),
      (commonSupertype_eq_some_iff debug).mpr (Or.inr ⟨_, .floatDecimal p s⟩)]
    simp
  | @list e e' n n' b b' _ ih =>
    intro heq
    have hne : e ≠ e' := fun h => ih (by rw [h])
    simp only [commonSupertype_eq, coerceArrowTypes_list debug fun h => hne h.2.1,
      coerceArrowTypes_list debug fun h => hne h.2.1.symm] at heq ih
    exact ih (supertype_of_lists (by simp [hne]) (coerceArrowTypes_same_comm debug) heq)
  | @largeList e e' n n' b b' _ ih =>
    intro heq
    have hne : e ≠ e' := fun h => ih (by rw [h])
    simp only [commonSupertype_eq, coerceArrowTypes_largeList debug fun h => hne h.2.1,
      coerceArrowTypes_largeList debug fun h => hne h.2.1.symm] at heq ih
    exact ih (supertype_of_lists (by simp [hne]) (coerceArrowTypes_same_comm debug) heq)
  | @listNames e e' n n' b b' h hn =>
    intro heq
    obtain ⟨t, quiet, hcoerces⟩ := h.coerces
    obtain ⟨w, hw, -⟩ := gives_of_coerces debug hcoerces
    simp only [commonSupertype_eq, coerceArrowTypes_list debug fun h => hn h.1,
      coerceArrowTypes_list debug fun h => hn h.1.symm] at heq
    exact hn (names_of_lists (coerceArrowTypes_same_comm debug) heq ⟨t, w, hw⟩)
  | @largeListNames e e' n n' b b' h hn =>
    intro heq
    obtain ⟨t, quiet, hcoerces⟩ := h.coerces
    obtain ⟨w, hw, -⟩ := gives_of_coerces debug hcoerces
    simp only [commonSupertype_eq, coerceArrowTypes_largeList debug fun h => hn h.1,
      coerceArrowTypes_largeList debug fun h => hn h.1.symm] at heq
    exact hn (names_of_lists (coerceArrowTypes_same_comm debug) heq ⟨t, w, hw⟩)
  | listItems e h =>
    rw [(commonSupertype_eq_some_iff debug).mpr (Or.inl ⟨.list _ _ _ _ (.refl e), rfl⟩),
      (commonSupertype_eq_some_iff debug).mpr (Or.inl ⟨.list _ _ _ _ (.refl e), rfl⟩)]
    simpa using h
  | largeListItems e h =>
    rw [(commonSupertype_eq_some_iff debug).mpr (Or.inl ⟨.largeList _ _ _ _ (.refl e), rfl⟩),
      (commonSupertype_eq_some_iff debug).mpr (Or.inl ⟨.largeList _ _ _ _ (.refl e), rfl⟩)]
    simpa using h

theorem commonSupertype_comm_iff {l r : ArrowType} :
    commonSupertype debug l r = commonSupertype debug r l ↔ ¬OrderMatters l r :=
  ⟨fun h hmatters => commonSupertype_ne_of_matters debug hmatters h, commonSupertype_comm_of_not debug⟩

end Reiver.Pond
