import Mathlib.Data.List.Nodup
import Reiver.Pond.Query.DateRange

/-! # The files of a date range

Each kind of pattern is told apart by the dates whose files it matches. A closed range matches each of its files exactly
once (`closedRange_matched_once`). An open range stops where the clock stands (`openRange_iff`). -/

namespace Reiver.Pond

section Files
variable {now start stop d : CalendarDate} {pathPrefix file : String}

/-! ### Paths by component -/

theorem slash_notMem_zeroPad {width n : Nat} : '/' ∉ (zeroPad width n).toList := fun h =>
  absurd (zeroPad_isDigit h) (by decide)

theorem slash_notMem_zeroPadInt {width : Nat} {i : Int} : '/' ∉ (zeroPadInt width i).toList := fun h =>
  absurd (zeroPadInt_char h) (by decide)

theorem plain_of_isDigit {c : Char} (h : c.isDigit = true) : c ∉ ['*', '?', '\x7b', '\x7d', ','] := by
  intro hmem
  simp only [List.mem_cons, List.not_mem_nil, or_false] at hmem
  rcases hmem with rfl | rfl | rfl | rfl | rfl <;> exact absurd h (by decide)

theorem plain_zeroPad {width n : Nat} : Plain (zeroPad width n).toList :=
  fun _ hc => plain_of_isDigit (zeroPad_isDigit hc)

theorem plain_zeroPadInt {width : Nat} {i : Int} : Plain (zeroPadInt width i).toList := by
  intro c hc
  rcases zeroPadInt_char hc with rfl | hdigit
  · decide
  · exact plain_of_isDigit hdigit

/-- What a path has after its prefix, component by component. -/
def fileTail (file : String) : List Char := '/' :: (file.toList ++ ".parquet".toList)

theorem toList_objectPath : (objectPath pathPrefix d file).toList = pathPrefix.toList ++ '/' ::
    ((zeroPadInt 4 d.year).toList ++ '/' :: ((zeroPad 2 d.month).toList ++ '/' ::
      ((zeroPad 2 d.day).toList ++ fileTail file))) := by
  simp only [objectPath, fileTail, String.toList_append, List.append_assoc]
  rfl

theorem plain_append_slash {l : List Char} (hl : Plain l) : Plain (l ++ ['/']) := by
  intro c hc
  rcases List.mem_append.mp hc with hc | hc
  · exact hl c hc
  · rw [List.mem_singleton.mp hc]
    decide

theorem matches_shared {l p s : List Char} (hl : Plain l) :
    GlobMatches (l ++ '/' :: p) (l ++ '/' :: s) ↔ GlobMatches p s := by
  have hsplit : ∀ t : List Char, l ++ '/' :: t = l ++ ['/'] ++ t := fun t => by rw [List.append_assoc]; rfl
  rw [hsplit p, hsplit s, GlobMatches.plain_iff (plain_append_slash hl)]
  constructor
  · rintro ⟨s', heq, h⟩
    rwa [List.append_cancel_left heq]
  · exact fun h => ⟨s, rfl, h⟩

theorem matches_component {l l' p s : List Char} (hl : Plain l) (hslash : '/' ∉ l) (hslash' : '/' ∉ l') :
    GlobMatches (l ++ '/' :: p) (l' ++ '/' :: s) ↔ l = l' ∧ GlobMatches p s := by
  constructor
  · intro h
    have hsplit : l ++ '/' :: p = l ++ ['/'] ++ p := by rw [List.append_assoc]; rfl
    rw [hsplit, GlobMatches.plain_iff (plain_append_slash hl)] at h
    obtain ⟨s', heq, h⟩ := h
    rw [List.append_assoc, List.singleton_append] at heq
    obtain ⟨rfl, rfl⟩ := split_at_first hslash' hslash heq
    exact ⟨rfl, h⟩
  · rintro ⟨rfl, h⟩
    exact (matches_shared hl).mpr h

theorem matches_file (hfile : '/' ∉ file.toList) :
    GlobMatches "*.parquet".toList (file.toList ++ ".parquet".toList) := by
  have hplain : Plain ".parquet".toList := by decide
  exact .star (by decide) hfile ((GlobMatches.self_iff hplain).mpr rfl)

theorem matches_deep (hfile : '/' ∉ file.toList) {t : List Char} :
    GlobMatches "**/*.parquet".toList (t ++ fileTail file) :=
  .deep (.char (by decide) (by decide) (by decide) (matches_file hfile))

theorem matches_star (hfile : '/' ∉ file.toList) {t : List Char} (ht : '/' ∉ t) :
    GlobMatches "*/*.parquet".toList (t ++ fileTail file) :=
  .star (by decide) ht (.char (by decide) (by decide) (by decide) (matches_file hfile))

/-! ### Which dates a pattern matches -/

theorem zeroPad_toList_inj {width n m : Nat} : (zeroPad width n).toList = (zeroPad width m).toList ↔ n = m := by
  rw [String.toList_inj]
  exact zeroPad_injective.eq_iff

theorem zeroPadInt_toList_inj {width : Nat} {i j : Int} :
    (zeroPadInt width i).toList = (zeroPadInt width j).toList ↔ i = j := by
  rw [String.toList_inj]
  exact zeroPadInt_injective.eq_iff

section Patterns
variable (hpre : Plain pathPrefix.toList) (hfile : '/' ∉ file.toList)
include hpre hfile

theorem allPattern_matches : PatternMatches (allPattern pathPrefix) (objectPath pathPrefix d file) := by
  have hpattern : (allPattern pathPrefix).toList = pathPrefix.toList ++ '/' :: "**/*.parquet".toList := by
    rw [allPattern, String.toList_append]
    rfl
  rw [PatternMatches, hpattern, toList_objectPath, matches_shared hpre]
  have htail : (zeroPadInt 4 d.year).toList ++ '/' :: ((zeroPad 2 d.month).toList ++ '/' ::
      ((zeroPad 2 d.day).toList ++ fileTail file)) = ((zeroPadInt 4 d.year).toList ++ '/' ::
        ((zeroPad 2 d.month).toList ++ '/' :: (zeroPad 2 d.day).toList)) ++ fileTail file := by
    simp
  rw [htail]
  exact matches_deep hfile

theorem yearPattern_iff {year : Int} :
    PatternMatches (yearPattern pathPrefix year) (objectPath pathPrefix d file) ↔ year = d.year := by
  have hpattern : (yearPattern pathPrefix year).toList =
      pathPrefix.toList ++ '/' :: ((zeroPadInt 4 year).toList ++ '/' :: "**/*.parquet".toList) := by
    simp only [yearPattern, String.toList_append, List.append_assoc]
    rfl
  rw [PatternMatches, hpattern, toList_objectPath, matches_shared hpre,
    matches_component plain_zeroPadInt slash_notMem_zeroPadInt slash_notMem_zeroPadInt, zeroPadInt_toList_inj,
    and_iff_left]
  have htail : (zeroPad 2 d.month).toList ++ '/' :: ((zeroPad 2 d.day).toList ++ fileTail file) =
      ((zeroPad 2 d.month).toList ++ '/' :: (zeroPad 2 d.day).toList) ++ fileTail file := by
    simp
  rw [htail]
  exact matches_deep hfile

theorem monthPattern_iff {year : Int} {month : Nat} :
    PatternMatches (monthPattern pathPrefix year month) (objectPath pathPrefix d file) ↔
      year = d.year ∧ month = d.month := by
  have hpattern : (monthPattern pathPrefix year month).toList = pathPrefix.toList ++ '/' ::
      ((zeroPadInt 4 year).toList ++ '/' :: ((zeroPad 2 month).toList ++ '/' :: "**/*.parquet".toList)) := by
    simp only [monthPattern, String.toList_append, List.append_assoc]
    rfl
  rw [PatternMatches, hpattern, toList_objectPath, matches_shared hpre,
    matches_component plain_zeroPadInt slash_notMem_zeroPadInt slash_notMem_zeroPadInt, zeroPadInt_toList_inj,
    matches_component plain_zeroPad slash_notMem_zeroPad slash_notMem_zeroPad, zeroPad_toList_inj,
    and_iff_left (matches_deep hfile)]

theorem monthDaysPattern_iff {year : Int} {month : Nat} :
    PatternMatches (monthDaysPattern pathPrefix year month) (objectPath pathPrefix d file) ↔
      year = d.year ∧ month = d.month := by
  have hpattern : (monthDaysPattern pathPrefix year month).toList = pathPrefix.toList ++ '/' ::
      ((zeroPadInt 4 year).toList ++ '/' :: ((zeroPad 2 month).toList ++ '/' :: "*/*.parquet".toList)) := by
    simp only [monthDaysPattern, String.toList_append, List.append_assoc]
    rfl
  rw [PatternMatches, hpattern, toList_objectPath, matches_shared hpre,
    matches_component plain_zeroPadInt slash_notMem_zeroPadInt slash_notMem_zeroPadInt, zeroPadInt_toList_inj,
    matches_component plain_zeroPad slash_notMem_zeroPad slash_notMem_zeroPad, zeroPad_toList_inj,
    and_iff_left (matches_star hfile slash_notMem_zeroPad)]

theorem dayPattern_self : PatternMatches (dayPattern pathPrefix d) (objectPath pathPrefix d file) := by
  have hpattern : (dayPattern pathPrefix d).toList = pathPrefix.toList ++ '/' ::
      ((zeroPadInt 4 d.year).toList ++ '/' :: ((zeroPad 2 d.month).toList ++ '/' ::
        ((zeroPad 2 d.day).toList ++ '/' :: "*.parquet".toList))) := by
    simp only [dayPattern, String.toList_append, List.append_assoc]
    rfl
  rw [PatternMatches, hpattern, toList_objectPath, matches_shared hpre, matches_shared plain_zeroPadInt,
    matches_shared plain_zeroPad, fileTail, matches_shared plain_zeroPad]
  exact matches_file hfile

/-! ### Counting the patterns that match -/

open Classical in
/-- How many of the patterns match a path. -/
noncomputable def matchCount (patterns : List String) (path : String) : Nat :=
  patterns.countP fun pattern => decide (PatternMatches pattern path)

omit hpre hfile in
theorem matchCount_append {l l' : List String} {path : String} :
    matchCount (l ++ l') path = matchCount l path + matchCount l' path := List.countP_append

omit hpre hfile in
theorem matchCount_pos {l : List String} {path : String} :
    0 < matchCount l path ↔ ∃ pattern ∈ l, PatternMatches pattern path := by
  simp only [matchCount, List.countP_pos_iff, decide_eq_true_eq]

omit hpre hfile in
theorem matchCount_map {α κ : Type} [DecidableEq κ] {l : List α} {pattern : α → String} {path : String} {key : α → κ}
    {k : κ} (hnd : (l.map key).Nodup) (h : ∀ a ∈ l, PatternMatches (pattern a) path ↔ key a = k) :
    matchCount (l.map pattern) path = if k ∈ l.map key then 1 else 0 := by
  rw [← hnd.count, List.count, List.countP_map, matchCount, List.countP_map]
  refine List.countP_congr fun a ha => ?_
  simp only [Function.comp_apply, decide_eq_true_eq, beq_iff_eq]
  exact h a ha

omit hpre hfile in
theorem mem_yearsThrough {first last year : Int} : year ∈ yearsThrough first last ↔ first ≤ year ∧ year ≤ last := by
  rw [yearsThrough, List.mem_map]
  constructor
  · rintro ⟨i, hi, rfl⟩
    have hi := List.mem_range.mp hi
    omega
  · rintro ⟨hfirst, hlast⟩
    exact ⟨(year - first).toNat, List.mem_range.mpr (by omega), by omega⟩

theorem matchCount_years {first last : Int} :
    matchCount ((yearsThrough first last).map (yearPattern pathPrefix)) (objectPath pathPrefix d file) =
      if first ≤ d.year ∧ d.year ≤ last then 1 else 0 := by
  have hnd : ((yearsThrough first last).map fun year => year).Nodup := by
    rw [List.map_id', yearsThrough]
    exact List.Nodup.map (fun i j h => by omega) List.nodup_range
  have hkey : ∀ year ∈ yearsThrough first last,
      PatternMatches (yearPattern pathPrefix year) (objectPath pathPrefix d file) ↔ year = d.year :=
    fun year _ => yearPattern_iff hpre hfile
  rw [matchCount_map hnd hkey, List.map_id']
  exact if_congr mem_yearsThrough rfl rfl

theorem matchCount_year {year : Int} : matchCount [yearPattern pathPrefix year] (objectPath pathPrefix d file) =
    if year = d.year then 1 else 0 := by
  have hcount := @matchCount_years d pathPrefix file hpre hfile year year
  have hsingle : yearsThrough year year = [year] := by
    rw [yearsThrough, show (year + 1 - year).toNat = 1 by omega]
    simp
  rw [hsingle] at hcount
  rw [List.map_singleton] at hcount
  rw [hcount]
  exact if_congr (by omega) rfl rfl

theorem matchCount_months {year : Int} {first last : Nat} (hfirst : 1 ≤ first) (hlast : last ≤ 12) :
    matchCount ((monthsThrough first last).map (monthPattern pathPrefix year)) (objectPath pathPrefix d file) =
      if 12 * year + first ≤ d.monthIndex ∧ d.monthIndex ≤ 12 * year + last then 1 else 0 := by
  have hmem : ∀ {m}, m ∈ monthsThrough first last ↔ first ≤ m ∧ m ≤ last := by
    intro m
    rw [monthsThrough, List.mem_range'_1]
    omega
  have hnd : ((monthsThrough first last).map fun m : Nat => 12 * year + m).Nodup :=
    List.Nodup.map (fun i j h => by omega) List.nodup_range'
  have hpos := d.valid.month_pos
  have hle := d.valid.month_le
  have hkey : ∀ m ∈ monthsThrough first last,
      PatternMatches (monthPattern pathPrefix year m) (objectPath pathPrefix d file) ↔
        12 * year + m = d.monthIndex := by
    intro m hm
    have hm := hmem.mp hm
    rw [monthPattern_iff hpre hfile, CalendarDate.monthIndex]
    omega
  rw [matchCount_map hnd hkey]
  refine if_congr ?_ rfl rfl
  rw [List.mem_map]
  constructor
  · rintro ⟨m, hm, hindex⟩
    have hm := hmem.mp hm
    omega
  · intro h
    exact ⟨(d.monthIndex - 12 * year).toNat, hmem.mpr (by omega), by omega⟩

omit hpre hfile in
theorem mem_monthsFrom_index (h : start ≤ stop) {i : Int} :
    i ∈ (start.monthsFrom stop).map (·.monthIndex) ↔ start.monthIndex ≤ i ∧ i ≤ stop.monthIndex := by
  have hmap : (start.monthsFrom stop).map (·.monthIndex) = yearsThrough start.monthIndex stop.monthIndex :=
    CalendarDate.monthsFrom_index h
  rw [hmap, mem_yearsThrough]

omit hpre hfile in
theorem monthsFrom_length (h : start ≤ stop) :
    (start.monthsFrom stop).length = (stop.monthIndex + 1 - start.monthIndex).toNat := by
  have hlength := congrArg List.length (CalendarDate.monthsFrom_index h)
  rwa [List.length_map, List.length_map, List.length_range] at hlength

theorem matchCount_monthsFrom (h : start ≤ stop) :
    matchCount (generateMonthPatterns pathPrefix start stop) (objectPath pathPrefix d file) =
      if start.monthIndex ≤ d.monthIndex ∧ d.monthIndex ≤ stop.monthIndex then 1 else 0 := by
  have hnd : ((start.monthsFrom stop).map (·.monthIndex)).Nodup := by
    have hmap : (start.monthsFrom stop).map (·.monthIndex) = _ := CalendarDate.monthsFrom_index h
    rw [hmap]
    exact List.Nodup.map (fun i j h => by omega) List.nodup_range
  have hkey : ∀ current ∈ start.monthsFrom stop, PatternMatches (monthPattern pathPrefix current.year current.month)
      (objectPath pathPrefix d file) ↔ current.monthIndex = d.monthIndex := by
    intro current _
    have hpos := d.valid.month_pos
    have hle := d.valid.month_le
    have hpos' := current.valid.month_pos
    have hle' := current.valid.month_le
    rw [monthPattern_iff hpre hfile, CalendarDate.monthIndex, CalendarDate.monthIndex]
    omega
  rw [generateMonthPatterns, matchCount_map hnd hkey]
  exact if_congr (mem_monthsFrom_index h) rfl rfl

theorem matchCount_optimized (hstart : start ≤ d) (hstop : d ≤ stop) :
    matchCount (generateOptimizedPatterns pathPrefix start stop) (objectPath pathPrefix d file) = 1 := by
  have hle := hstart.trans hstop
  have hlength := monthsFrom_length hle
  have hstartMonth := CalendarDate.monthIndex_mono hstart
  have hstopMonth := CalendarDate.monthIndex_mono hstop
  have hstartYear := CalendarDate.year_mono hstart
  have hstopYear := CalendarDate.year_mono hstop
  have hindex : ∀ e : CalendarDate, e.monthIndex = 12 * e.year + e.month ∧ 1 ≤ e.month ∧ e.month ≤ 12 := fun e =>
    ⟨rfl, e.valid.month_pos, e.valid.month_le⟩
  obtain ⟨hd, hdPos, hdLe⟩ := hindex d
  obtain ⟨hs, hsPos, hsLe⟩ := hindex start
  obtain ⟨he, hePos, heLe⟩ := hindex stop
  have hfirst := @matchCount_months d pathPrefix file hpre hfile start.year _ _ hsPos (le_refl 12)
  have hlast := @matchCount_months d pathPrefix file hpre hfile stop.year _ _ (le_refl 1) heLe
  rw [generateOptimizedPatterns]
  split_ifs with hmulti hjan hdec hdec
  · rw [matchCount_append, matchCount_append, matchCount_year hpre hfile, matchCount_years hpre hfile,
      matchCount_year hpre hfile]
    split_ifs <;> omega
  · rw [matchCount_append, matchCount_append, matchCount_year hpre hfile, matchCount_years hpre hfile, hlast]
    split_ifs <;> omega
  · rw [matchCount_append, matchCount_append, hfirst, matchCount_years hpre hfile, matchCount_year hpre hfile]
    split_ifs <;> omega
  · rw [matchCount_append, matchCount_append, hfirst, matchCount_years hpre hfile, hlast]
    split_ifs <;> omega
  · -- At most two years: never more than 24 months.
    have hshort : ¬(generateMonthPatterns pathPrefix start stop).length > maxMonthPatterns := by
      rw [generateMonthPatterns, List.length_map, hlength, maxMonthPatterns]
      omega
    dsimp only
    rw [if_neg hshort, matchCount_monthsFrom hpre hfile hle, if_pos ⟨hstartMonth, hstopMonth⟩]

/-! ### Patterns in braces -/

omit hpre hfile in
/-- A pattern that can be an alternative in braces. -/
def Alternative (pattern : String) : Prop :=
  '\x7b' ∉ pattern.toList ∧ '\x7d' ∉ pattern.toList ∧ ',' ∉ pattern.toList

omit hpre hfile in
theorem Alternative.append {a b : String} (ha : Alternative a) (hb : Alternative b) : Alternative (a ++ b) := by
  simp only [Alternative, String.toList_append, List.mem_append, not_or]
  exact ⟨⟨ha.1, hb.1⟩, ⟨ha.2.1, hb.2.1⟩, ha.2.2, hb.2.2⟩

instance (pattern : String) : Decidable (Alternative pattern) := inferInstanceAs (Decidable (_ ∧ _ ∧ _))

omit hpre hfile in
theorem Alternative.of_plain {a : String} (ha : Plain a.toList) : Alternative a :=
  ⟨fun h => absurd (ha _ h) (by decide), fun h => absurd (ha _ h) (by decide), fun h => absurd (ha _ h) (by decide)⟩

omit hfile in
theorem alternative_year {year : Int} : Alternative (yearPattern pathPrefix year) :=
  (((Alternative.of_plain hpre).append (.of_plain (by decide))).append (.of_plain plain_zeroPadInt)).append (by decide)

omit hfile in
theorem alternative_month {year : Int} {month : Nat} : Alternative (monthPattern pathPrefix year month) :=
  (((((Alternative.of_plain hpre).append (.of_plain (by decide))).append (.of_plain plain_zeroPadInt)).append
    (.of_plain (by decide))).append (.of_plain plain_zeroPad)).append (by decide)

omit hfile in
theorem alternative_optimized :
    ∀ pattern ∈ generateOptimizedPatterns pathPrefix start stop, Alternative pattern := by
  have hyears : ∀ l : List Int, ∀ pattern ∈ l.map (yearPattern pathPrefix), Alternative pattern := fun l =>
    List.forall_mem_map.mpr fun _ _ => alternative_year hpre
  have hends : ∀ (c : Prop) [Decidable c] (year : Int) (l : List Nat),
      ∀ pattern ∈ (if c then [yearPattern pathPrefix year] else l.map (monthPattern pathPrefix year)),
        Alternative pattern := by
    intro c _ year l
    split_ifs
    · exact List.forall_mem_singleton.mpr (alternative_year hpre)
    · exact List.forall_mem_map.mpr fun _ _ => alternative_month hpre
  rw [generateOptimizedPatterns]
  by_cases hmulti : stop.year > start.year ∧ stop.year - start.year > 1
  · rw [if_pos hmulti]
    exact List.forall_mem_append.mpr ⟨List.forall_mem_append.mpr ⟨hends _ _ _, hyears _⟩, hends _ _ _⟩
  · rw [if_neg hmulti]
    dsimp only
    split_ifs
    · exact hyears _
    · exact List.forall_mem_map.mpr fun _ _ => alternative_month hpre

omit hpre hfile in
theorem bracePatterns_iff {patterns : List String} {path : String} (hne : patterns ≠ [])
    (halt : ∀ pattern ∈ patterns, Alternative pattern) :
    PatternMatches (DateRange.bracePatterns patterns) path ↔ ∃ pattern ∈ patterns, PatternMatches pattern path := by
  obtain ⟨first, rest, rfl⟩ := List.exists_cons_of_ne_nil hne
  cases rest with
  | nil =>
    exact ⟨fun h => ⟨first, List.mem_singleton_self _, h⟩, fun ⟨_, hmem, h⟩ => List.mem_singleton.mp hmem ▸ h⟩
  | cons second rest =>
    have hchars : (DateRange.bracePatterns (first :: second :: rest)).toList =
        '\x7b' :: ([','].intercalate ((first :: second :: rest).map String.toList) ++ ['\x7d']) := by
      rw [DateRange.bracePatterns, String.toList_append, String.toList_append, String.toList_intercalate]
      · rfl
      · intro _ h
        cases h
    rw [PatternMatches, hchars, GlobMatches.braces_iff (by simp) (List.forall_mem_map.mpr halt)]
    simp only [List.mem_map, exists_exists_and_eq_and, PatternMatches]

/-! ### Closed ranges -/

omit hpre hfile in
theorem matchCount_single {pattern path : String} (h : PatternMatches pattern path) :
    matchCount [pattern] path = 1 := by
  classical
  rw [matchCount, List.countP_singleton]
  exact if_pos (decide_eq_true h)

omit hpre hfile in
theorem isImpossible_closed (h : start ≤ stop) : DateRange.isImpossible ⟨some start, some stop⟩ = false := by
  rw [DateRange.isImpossible]
  exact decide_eq_false (not_lt.mpr h)

/-- A closed range matches each file of its dates with one pattern of the list, and with the single pattern. -/
theorem closedRange_matched_once (hstart : start ≤ d) (hstop : d ≤ stop) :
    matchCount (DateRange.toPatternList now pathPrefix ⟨some start, some stop⟩) (objectPath pathPrefix d file) = 1 ∧
      PatternMatches (DateRange.toGlobPattern now pathPrefix ⟨some start, some stop⟩)
        (objectPath pathPrefix d file) := by
  rw [DateRange.toPatternList, DateRange.toGlobPattern, isImpossible_closed (hstart.trans hstop)]
  simp only [Bool.false_eq_true, if_false]
  by_cases hday : start = stop
  · obtain rfl := hday
    obtain rfl := le_antisymm hstart hstop
    rw [if_pos rfl, if_pos rfl]
    exact ⟨matchCount_single (dayPattern_self hpre hfile), dayPattern_self hpre hfile⟩
  rw [if_neg hday, if_neg hday]
  by_cases hmonth : start.year = stop.year ∧ start.month = stop.month
  · have hpattern :
      PatternMatches (monthDaysPattern pathPrefix start.year start.month) (objectPath pathPrefix d file) := by
      have hyear := CalendarDate.year_mono hstart
      have hyear' := CalendarDate.year_mono hstop
      have hindex := CalendarDate.monthIndex_mono hstart
      have hindex' := CalendarDate.monthIndex_mono hstop
      rw [CalendarDate.monthIndex, CalendarDate.monthIndex] at hindex hindex'
      exact (monthDaysPattern_iff hpre hfile).mpr (by omega)
    rw [if_pos hmonth, if_pos hmonth]
    exact ⟨matchCount_single hpattern, hpattern⟩
  · rw [if_neg hmonth, if_neg hmonth]
    have hcount := matchCount_optimized hpre hfile hstart hstop
    obtain ⟨pattern, hmem, hpattern⟩ := matchCount_pos.mp (hcount ▸ Nat.one_pos)
    exact ⟨hcount,
      (bracePatterns_iff (List.ne_nil_of_mem hmem) (alternative_optimized hpre)).mpr ⟨pattern, hmem, hpattern⟩⟩

/-! ### Open ranges -/

omit hpre hfile in
theorem enumerateMonths_eq {keys : List String} {months : List CalendarDate} : enumerateMonths keys months =
    if months = [] ∨ keys.length + months.length ≤ maxPartitionKeys then keys ++ months.map partitionKey else [] := by
  induction months generalizing keys with
  | nil =>
    rw [if_pos (.inl rfl)]
    exact (List.append_nil _).symm
  | cons current rest ih =>
    rw [enumerateMonths, ih, List.append_assoc, List.singleton_append, List.map_cons, List.length_append,
      List.length_singleton, List.length_cons]
    simp only [List.cons_ne_nil, false_or]
    by_cases hlong : keys.length ≥ maxPartitionKeys
    · rw [if_pos hlong, if_neg (by omega)]
    · rw [if_neg hlong]
      refine if_congr ?_ rfl rfl
      constructor
      · rintro (rfl | h)
        · simp only [List.length_nil]
          omega
        · omega
      · intro h
        right
        omega

omit hpre hfile in
theorem partitionKey_inj {e : CalendarDate} : partitionKey e = partitionKey d ↔ e.monthIndex = d.monthIndex := by
  have hpos := d.valid.month_pos
  have hle := d.valid.month_le
  have hpos' := e.valid.month_pos
  have hle' := e.valid.month_le
  have hchars : ∀ e : CalendarDate, (partitionKey e).toList = (zeroPadInt 4 e.year).toList ++ '/' ::
    (zeroPad 2 e.month).toList := by
    intro e
    simp only [partitionKey, String.toList_append, List.append_assoc]
    rfl
  rw [CalendarDate.monthIndex, CalendarDate.monthIndex]
  constructor
  · intro h
    have hlists := congrArg String.toList h
    rw [hchars, hchars] at hlists
    obtain ⟨hyear, hmonth⟩ := split_at_first slash_notMem_zeroPadInt slash_notMem_zeroPadInt hlists
    rw [zeroPadInt_toList_inj.mp hyear, zeroPad_toList_inj.mp hmonth]
  · intro h
    have hyear : e.year = d.year := by omega
    have hmonth : e.month = d.month := by omega
    rw [partitionKey, partitionKey, hyear, hmonth]

omit hpre hfile in
theorem partitionKeys_iff (hd : start ≤ d) :
    (enumerateMonths [] (start.monthsFrom stop) = [] ∨ partitionKey d ∈ enumerateMonths [] (start.monthsFrom stop)) ↔
      stop < start ∨ stop.monthIndex - start.monthIndex ≥ 24 ∨ d.monthIndex ≤ stop.monthIndex := by
  by_cases hle : start ≤ stop
  · have hlength := monthsFrom_length hle
    have hmono := CalendarDate.monthIndex_mono hle
    have hmono' := CalendarDate.monthIndex_mono hd
    rw [enumerateMonths_eq, List.length_nil, Nat.zero_add, hlength, maxPartitionKeys, or_iff_right (not_lt.mpr hle)]
    have hne : start.monthsFrom stop ≠ [] := fun hnil => by
      rw [hnil, List.length_nil] at hlength
      omega
    simp only [hne, false_or]
    split_ifs with hshort
    · have hmem : partitionKey d ∈ [] ++ (start.monthsFrom stop).map partitionKey ↔ d.monthIndex ≤ stop.monthIndex := by
        rw [List.nil_append, List.mem_map]
        simp only [partitionKey_inj]
        rw [← List.mem_map, mem_monthsFrom_index hle, and_iff_right hmono']
      rw [hmem, List.nil_append, List.map_eq_nil_iff, or_iff_right hne]
      omega
    · exact iff_of_true (.inl rfl) (by omega)
  · rw [CalendarDate.monthsFrom_of_lt hle]
    exact iff_of_true (.inl rfl) (.inl (not_le.mp hle))

/-- What an open range lets a query read of the files from its start on. -/
theorem openRange_iff (hstart : start ≤ d) :
    ((∃ pattern ∈ DateRange.toPatternList now pathPrefix ⟨some start, none⟩,
        PatternMatches pattern (objectPath pathPrefix d file)) ↔ d.year ≤ max start.year now.year) ∧
      (PatternMatches (DateRange.toGlobPattern now pathPrefix ⟨some start, none⟩) (objectPath pathPrefix d file) ↔
        d.year ≤ max start.year now.year ∨ now.year - start.year > 5) ∧
      ((dateRangeToPartitionKeys now ⟨some start, none⟩ = [] ∨
          partitionKey d ∈ dateRangeToPartitionKeys now ⟨some start, none⟩) ↔
        now < start ∨ now.monthIndex - start.monthIndex ≥ 24 ∨ d.monthIndex ≤ now.monthIndex) := by
  have hyear := CalendarDate.year_mono hstart
  have hpossible : DateRange.isImpossible ⟨some start, none⟩ = false := rfl
  have hyears : (∃ pattern ∈ (yearsThrough start.year now.year).map (yearPattern pathPrefix),
      PatternMatches pattern (objectPath pathPrefix d file)) ↔ d.year ≤ now.year := by
    rw [← matchCount_pos, matchCount_years hpre hfile]
    split_ifs <;> omega
  rw [DateRange.toPatternList, DateRange.toGlobPattern, dateRangeToPartitionKeys, hpossible]
  simp only [Bool.false_eq_true, if_false]
  refine ⟨?_, ?_, partitionKeys_iff hstart⟩
  · split_ifs with hfuture
    · simp only [List.mem_singleton, exists_eq_left]
      rw [yearPattern_iff hpre hfile]
      omega
    · rw [hyears]
      omega
  · split_ifs with hfuture hfew
    · rw [yearPattern_iff hpre hfile]
      omega
    · have hne : (yearsThrough start.year now.year).map (yearPattern pathPrefix) ≠ [] := by
        rw [ne_eq, List.map_eq_nil_iff]
        exact List.ne_nil_of_mem (mem_yearsThrough.mpr ⟨le_refl _, by omega⟩)
      rw [bracePatterns_iff hne (List.forall_mem_map.mpr fun _ _ => alternative_year hpre), hyears]
      omega
    · exact iff_of_true (allPattern_matches hpre hfile) (.inr (by omega))

end Patterns

end Files

theorem closedRange_matched_winter : matchCount (DateRange.toPatternList ⟨2025, 2, 20, by decide⟩ "p/stripe/orders"
    ⟨some ⟨2024, 12, 15, by decide⟩, some ⟨2025, 2, 10, by decide⟩⟩)
      (objectPath "p/stripe/orders" ⟨2025, 1, 31, by decide⟩ "f") = 1 :=
  (closedRange_matched_once (by decide) (by decide) (by decide) (by decide)).1

/-- A range that starts this year selects no file of the next one. -/
theorem openRange_misses_next_year : (⟨2026, 1, 1, by decide⟩ : CalendarDate) ≤ ⟨2027, 1, 1, by decide⟩ ∧
    ¬∃ pattern ∈ DateRange.toPatternList ⟨2026, 3, 15, by decide⟩ "p/stripe/orders"
      ⟨some ⟨2026, 1, 1, by decide⟩, none⟩,
      PatternMatches pattern (objectPath "p/stripe/orders" ⟨2027, 1, 1, by decide⟩ "f") := by
  refine ⟨by decide, ?_⟩
  rintro ⟨pattern, hmem, hpattern⟩
  have hlist : DateRange.toPatternList ⟨2026, 3, 15, by decide⟩ "p/stripe/orders" ⟨some ⟨2026, 1, 1, by decide⟩, none⟩ =
      [yearPattern "p/stripe/orders" 2026] := rfl
  rw [hlist] at hmem
  rw [List.mem_singleton.mp hmem, yearPattern_iff (by decide) (by decide)] at hpattern
  exact absurd hpattern (by decide)

theorem openRange_iff_spring : (∃ pattern ∈ DateRange.toPatternList ⟨2026, 3, 15, by decide⟩ "p/stripe/orders"
    ⟨some ⟨2026, 1, 1, by decide⟩, none⟩, PatternMatches pattern
      (objectPath "p/stripe/orders" ⟨2026, 2, 1, by decide⟩ "f")) ↔ (2026 : Int) ≤ max 2026 2026 :=
  (openRange_iff (by decide) (by decide) (by decide)).1

end Reiver.Pond
