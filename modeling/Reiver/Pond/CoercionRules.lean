import Reiver.Pond.Coercion

/-! # What is coerced to what

The pairs of types that are coerced, by rules, and the pairs whose common supertype depends on which of them stands on
the left. -/

namespace Reiver.Pond

/-- Every value of the left type is one of the right type, and no warning is given. -/
def widensQuietly : ArrowType → ArrowType → Bool
  | .int8, .int16 | .int8, .int32 | .int8, .int64 | .int16, .int32 | .int16, .int64 | .int32, .int64
  | .uint8, .int16 | .uint8, .int32 | .uint8, .int64 | .uint16, .int32 | .uint16, .int64 | .uint32, .int64
  | .uint8, .uint16 | .uint8, .uint32 | .uint8, .uint64 | .uint16, .uint32 | .uint16, .uint64 | .uint32, .uint64
  | .float32, .float64 => true
  | _, _ => false

/-- The left type is read as the right one, with a warning. -/
def widensLoudly : ArrowType → ArrowType → Bool
  | .int32, .float64 | .int64, .float64 | .date32, .timestamp .. | .date64, .timestamp ..
  | .boolean, .int8 | .boolean, .int16 | .boolean, .int32 | .boolean, .int64 => true
  | _, _ => false

/-- Different types with a third one, or one of them, for both, in either order. -/
inductive Joins : ArrowType → ArrowType → Prop where
  | decimals {p p' : UInt8} {s s' : Int8} (h : ¬(p = p' ∧ s = s')) : Joins (.decimal128 p s) (.decimal128 p' s')
  | texts : Joins .utf8 .largeUtf8
  | texts' : Joins .largeUtf8 .utf8
  | binaries : Joins .binary .largeBinary
  | binaries' : Joins .largeBinary .binary
  | times (u v : TimeUnit) : Joins (.time32 u) (.time64 v)
  | times' (u v : TimeUnit) : Joins (.time64 v) (.time32 u)
  | durations {u v : TimeUnit} (h : u ≠ v) : Joins (.duration u) (.duration v)

/-- The type that `Joins` gives. -/
def joined : ArrowType → ArrowType → ArrowType
  | .decimal128 p s, .decimal128 p' s' => .decimal128 (max p p') (max s s')
  | .utf8, _ | .largeUtf8, _ => .largeUtf8
  | .binary, _ | .largeBinary, _ => .largeBinary
  | .time32 u, .time64 v | .time64 v, .time32 u => .time64 (u.finer v)
  | .duration u, .duration v => .duration (u.finer v)
  | left, _ => left

def isDecimal : ArrowType → Bool
  | .decimal128 .. => true
  | _ => false

/-- The rules; the flag says that no warning is given. -/
inductive Coerces : ArrowType → ArrowType → ArrowType → Bool → Prop where
  | quietly {l r : ArrowType} (h : widensQuietly l r) : Coerces l r r true
  | loudly {l r : ArrowType} (h : widensLoudly l r) : Coerces l r r false
  | naive (u v : TimeUnit) (tz : String) :
    Coerces (.timestamp u none) (.timestamp v (some tz)) (.timestamp (u.finer v) (some tz)) false
  | naive' (u v : TimeUnit) (tz : String) :
    Coerces (.timestamp v (some tz)) (.timestamp u none) (.timestamp (u.finer v) (some tz)) false
  | units {u v : TimeUnit} (tz : Option String) (h : u ≠ v) :
    Coerces (.timestamp u tz) (.timestamp v tz) (.timestamp (u.finer v) tz) false
  | zones (u v : TimeUnit) {tz tz' : String} (h : tz ≠ tz') :
    Coerces (.timestamp u (some tz)) (.timestamp v (some tz')) (.timestamp (u.finer v) (some tz)) (u = v)
  | decimalFloat (p : UInt8) (s : Int8) : Coerces (.decimal128 p s) .float64 .float64 false
  | floatDecimal (p : UInt8) (s : Int8) : Coerces .float64 (.decimal128 p s) (.decimal128 p s) false
  | joins {l r : ArrowType} (h : Joins l r) : Coerces l r (joined l r) (!isDecimal l)
  | list {e e' t : ArrowType} {quiet : Bool} (n n' : String) (b b' : Bool) (h : Coerces e e' t quiet) :
    Coerces (.list (.new n e b)) (.list (.new n' e' b')) (.list (.new n t (b || b'))) quiet
  | largeList {e e' t : ArrowType} {quiet : Bool} (n n' : String) (b b' : Bool) (h : Coerces e e' t quiet) :
    Coerces (.largeList (.new n e b)) (.largeList (.new n' e' b')) (.list (.new n t (b || b'))) quiet

/-- Equal but for the items of lists, whose names and nullability may differ. -/
inductive Alike : ArrowType → ArrowType → Prop where
  | refl (t : ArrowType) : Alike t t
  | list {e e' : ArrowType} (n n' : String) (b b' : Bool) (h : Alike e e') :
    Alike (.list (.new n e b)) (.list (.new n' e' b'))
  | largeList {e e' : ArrowType} (n n' : String) (b b' : Bool) (h : Alike e e') :
    Alike (.largeList (.new n e b)) (.largeList (.new n' e' b'))

theorem Alike.symm {l r : ArrowType} (h : Alike l r) : Alike r l := by
  induction h with
  | refl t => exact .refl t
  | list n n' b b' _ ih => exact .list n' n b' b ih
  | largeList n n' b b' _ ih => exact .largeList n' n b' b ih

variable (debug : ArrowType → String)

/-- The result coerces to a type, without a warning or with one. -/
def CoercionResult.Gives (result : CoercionResult) (target : ArrowType) (quiet : Bool) : Prop :=
  ∃ warning, result = .autoCoerce target warning ∧ warning.isNone = quiet

namespace CoercionResult

theorem gives_autoCoerce {t t' : ArrowType} {w : Option String} {quiet : Bool} :
    (autoCoerce t w).Gives t' quiet ↔ t = t' ∧ w.isNone = quiet := by
  simp [Gives]

theorem not_gives_same {t : ArrowType} {quiet : Bool} : ¬same.Gives t quiet := by simp [Gives]

theorem ofElements_eq_same {name : String} {b b' : Bool} {result : CoercionResult} :
    result.ofElements name b b' = same ↔ result = same := by
  cases result <;> simp [ofElements]

theorem ofElements_gives {name : String} {b b' : Bool} {result : CoercionResult} {t : ArrowType} {quiet : Bool} :
    (result.ofElements name b b').Gives t quiet ↔
      ∃ element, result.Gives element quiet ∧ .list (.new name element (b || b')) = t := by
  cases result <;> simp [ofElements, Gives, and_comm]

end CoercionResult

theorem isNone_precisionWarning {u v : TimeUnit} : (precisionWarning u v).isNone = decide (u = v) := by
  cases u <;> cases v <;> rfl

theorem isNone_decimalWarning {p p' : UInt8} {s s' : Int8} (h : ¬(p = p' ∧ s = s')) :
    (decimalWarning p p' s s').isNone = false := by
  rw [decimalWarning, if_pos (by tauto)]
  rfl

theorem timestamps_rule {u v : TimeUnit} {tz tz' : Option String} (hne : ArrowType.timestamp u tz ≠ .timestamp v tz')
    (hleft : ∀ zone, tz = none → tz' = some zone → False) (hright : ∀ zone, tz = some zone → tz' = none → False) :
    Coerces (.timestamp u tz) (.timestamp v tz') (.timestamp (u.finer v) (tz.or tz'))
      (precisionWarning u v).isNone := by
  rw [isNone_precisionWarning]
  cases tz with
  | none =>
    cases tz' with
    | none =>
      have huv : u ≠ v := fun h => hne (by rw [h])
      simpa [huv] using Coerces.units none huv
    | some zone => exact (hleft zone rfl rfl).elim
  | some zone =>
    cases tz' with
    | none => exact (hright zone rfl rfl).elim
    | some zone' =>
      by_cases hzone : zone = zone'
      · have huv : u ≠ v := fun h => hne (by rw [h, hzone])
        simpa [huv, hzone] using Coerces.units (some zone) huv
      · exact Coerces.zones u v hzone

theorem coerceArrowTypes_rules (l r : ArrowType) :
    (coerceArrowTypes debug l r = .same → Alike l r) ∧
    ∀ t quiet, (coerceArrowTypes debug l r).Gives t quiet → Coerces l r t quiet := by
  fun_induction coerceArrowTypes debug l r with
  | case1 l => exact ⟨fun _ => .refl l, fun t quiet h => (CoercionResult.not_gives_same h).elim⟩
  | case36 u tz v tz' hleft hright hne =>
    refine ⟨fun h => (by cases h), ?_⟩
    rintro t quiet h
    obtain ⟨rfl, rfl⟩ := CoercionResult.gives_autoCoerce.mp h
    exact timestamps_rule hne hleft hright
  | case41 p s p' s' hne =>
    have hdiff : ¬(p = p' ∧ s = s') := fun h => hne (by rw [h.1, h.2])
    refine ⟨fun h => (by cases h), ?_⟩
    rintro t quiet h
    obtain ⟨rfl, rfl⟩ := CoercionResult.gives_autoCoerce.mp h
    rw [isNone_decimalWarning hdiff]
    exact .joins (.decimals hdiff)
  | case62 u v hne =>
    refine ⟨fun h => (by cases h), ?_⟩
    rintro t quiet h
    obtain ⟨rfl, rfl⟩ := CoercionResult.gives_autoCoerce.mp h
    exact .joins (.durations fun h => hne (by rw [h]))
  | case63 n e b n' e' b' hne ih =>
    refine ⟨fun h => .list n n' b b' (ih.1 (CoercionResult.ofElements_eq_same.mp h)), ?_⟩
    rintro t quiet h
    obtain ⟨t', hgives, rfl⟩ := CoercionResult.ofElements_gives.mp h
    exact .list n n' b b' (ih.2 t' quiet hgives)
  | case64 n e b n' e' b' hne ih =>
    refine ⟨fun h => .largeList n n' b b' (ih.1 (CoercionResult.ofElements_eq_same.mp h)), ?_⟩
    rintro t quiet h
    obtain ⟨t', hgives, rfl⟩ := CoercionResult.ofElements_gives.mp h
    exact .largeList n n' b b' (ih.2 t' quiet hgives)
  | _ =>
    refine ⟨fun h => (by cases h), ?_⟩
    rintro t quiet ⟨w, hw, rfl⟩
    cases hw <;> first
      | exact .quietly rfl
      | exact .loudly rfl
      | exact .naive ..
      | exact .naive' ..
      | exact .decimalFloat ..
      | exact .floatDecimal ..
      | exact .joins (by constructor)

/-! ### What the rules give -/

theorem coerceArrowTypes_list {n n' : String} {e e' : ArrowType} {b b' : Bool} (h : ¬(n = n' ∧ e = e' ∧ b = b')) :
    coerceArrowTypes debug (.list (.new n e b)) (.list (.new n' e' b')) =
      (coerceArrowTypes debug e e').ofElements n b b' := by
  rw [coerceArrowTypes.eq_def, if_neg (by simpa using h)]

theorem coerceArrowTypes_largeList {n n' : String} {e e' : ArrowType} {b b' : Bool}
    (h : ¬(n = n' ∧ e = e' ∧ b = b')) :
    coerceArrowTypes debug (.largeList (.new n e b)) (.largeList (.new n' e' b')) =
      (coerceArrowTypes debug e e').ofElements n b b' := by
  rw [coerceArrowTypes.eq_def, if_neg (by simpa using h)]

theorem coerceArrowTypes_self (t : ArrowType) : coerceArrowTypes debug t t = .same := by
  rw [coerceArrowTypes.eq_def]
  exact if_pos rfl

theorem coerceArrowTypes_same {l r : ArrowType} (h : Alike l r) : coerceArrowTypes debug l r = .same := by
  induction h with
  | refl t => exact coerceArrowTypes_self debug t
  | @list e e' n n' b b' _ ih =>
    by_cases heq : n = n' ∧ e = e' ∧ b = b'
    · obtain ⟨rfl, rfl, rfl⟩ := heq
      exact coerceArrowTypes_self debug _
    · rw [coerceArrowTypes_list debug heq, ih]
      rfl
  | @largeList e e' n n' b b' _ ih =>
    by_cases heq : n = n' ∧ e = e' ∧ b = b'
    · obtain ⟨rfl, rfl, rfl⟩ := heq
      exact coerceArrowTypes_self debug _
    · rw [coerceArrowTypes_largeList debug heq, ih]
      rfl

theorem gives_quietly {l r : ArrowType} (h : widensQuietly l r) : (coerceArrowTypes debug l r).Gives r true := by
  refine ⟨none, ?_, rfl⟩
  unfold widensQuietly at h
  split at h
  all_goals first | rfl | cases h

theorem gives_loudly {l r : ArrowType} (h : widensLoudly l r) : (coerceArrowTypes debug l r).Gives r false := by
  unfold widensLoudly at h
  split at h
  all_goals first | exact ⟨_, rfl, rfl⟩ | cases h

theorem gives_joined {l r : ArrowType} (h : Joins l r) :
    (coerceArrowTypes debug l r).Gives (joined l r) (!isDecimal l) := by
  cases h with
  | decimals h =>
    refine ⟨_, ?_, isNone_decimalWarning h⟩
    rw [coerceArrowTypes.eq_def, if_neg (by simpa using h)]
    rfl
  | durations h =>
    refine ⟨none, ?_, rfl⟩
    rw [coerceArrowTypes.eq_def, if_neg (by simpa using h)]
    rfl
  | _ => exact ⟨none, rfl, rfl⟩

theorem gives_timestamp {u v : TimeUnit} {tz tz' : Option String} (hne : ¬(u = v ∧ tz = tz'))
    (hzones : tz.isSome = tz'.isSome) :
    (coerceArrowTypes debug (.timestamp u tz) (.timestamp v tz')).Gives (.timestamp (u.finer v) (tz.or tz'))
      (u = v) := by
  refine ⟨precisionWarning u v, ?_, isNone_precisionWarning⟩
  have hdiff : ¬ArrowType.timestamp u tz = .timestamp v tz' := by simpa using hne
  cases tz with
  | none =>
    cases tz' with
    | none => rw [coerceArrowTypes.eq_def, if_neg hdiff]
    | some zone => simp at hzones
  | some zone =>
    cases tz' with
    | none => simp at hzones
    | some zone' => rw [coerceArrowTypes.eq_def, if_neg hdiff]

theorem gives_naive (u v : TimeUnit) (tz : String) :
    (coerceArrowTypes debug (.timestamp u none) (.timestamp v (some tz))).Gives
        (.timestamp (u.finer v) (some tz)) false ∧
      (coerceArrowTypes debug (.timestamp v (some tz)) (.timestamp u none)).Gives
        (.timestamp (u.finer v) (some tz)) false := by
  constructor
  · refine ⟨some "Timestamp without timezone interpreted as UTC", ?_, rfl⟩
    rw [coerceArrowTypes.eq_def, if_neg (by simp)]
  · refine ⟨some "Timestamp without timezone interpreted as UTC", ?_, rfl⟩
    rw [coerceArrowTypes.eq_def, if_neg (by simp)]

theorem Coerces.ne {l r t : ArrowType} {quiet : Bool} (h : Coerces l r t quiet) : l ≠ r := by
  induction h with
  | quietly h | loudly h =>
    rintro rfl
    revert h
    first | unfold widensQuietly | unfold widensLoudly
    split
    all_goals simp
  | units tz h => simpa using h
  | zones u v h => simp [h]
  | joins h =>
    cases h with
    | decimals h => simpa using h
    | durations h => simpa using h
    | _ => exact ArrowType.noConfusion
  | list n n' b b' _ ih => simp [ih]
  | largeList n n' b b' _ ih => simp [ih]
  | _ => simp

theorem gives_of_coerces {l r t : ArrowType} {quiet : Bool} (h : Coerces l r t quiet) :
    (coerceArrowTypes debug l r).Gives t quiet := by
  induction h with
  | quietly h => exact gives_quietly debug h
  | loudly h => exact gives_loudly debug h
  | naive u v tz => exact (gives_naive debug u v tz).1
  | naive' u v tz => exact (gives_naive debug u v tz).2
  | @units u v tz h =>
    have hgives := gives_timestamp debug (fun heq : u = v ∧ tz = tz => h heq.1) rfl
    rwa [Option.or_self, decide_eq_false h] at hgives
  | zones u v h => exact gives_timestamp debug (fun heq => h (Option.some.inj heq.2)) rfl
  | decimalFloat p s => exact ⟨_, rfl, rfl⟩
  | floatDecimal p s => exact ⟨_, rfl, rfl⟩
  | joins h => exact gives_joined debug h
  | list n n' b b' h ih =>
    rw [coerceArrowTypes_list debug fun heq => h.ne heq.2.1]
    exact CoercionResult.ofElements_gives.mpr ⟨_, ih, rfl⟩
  | largeList n n' b b' h ih =>
    rw [coerceArrowTypes_largeList debug fun heq => h.ne heq.2.1]
    exact CoercionResult.ofElements_gives.mpr ⟨_, ih, rfl⟩

theorem coerceArrowTypes_eq_same_iff {l r : ArrowType} : coerceArrowTypes debug l r = .same ↔ Alike l r :=
  ⟨(coerceArrowTypes_rules debug l r).1, coerceArrowTypes_same debug⟩

theorem coerceArrowTypes_gives_iff {l r t : ArrowType} {quiet : Bool} :
    (coerceArrowTypes debug l r).Gives t quiet ↔ Coerces l r t quiet :=
  ⟨(coerceArrowTypes_rules debug l r).2 t quiet, gives_of_coerces debug⟩

end Reiver.Pond
