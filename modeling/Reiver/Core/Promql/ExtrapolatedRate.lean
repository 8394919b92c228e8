import Mathlib.Algebra.Order.Field.Basic
import Mathlib.Algebra.Order.Field.Rat
import Mathlib.Data.Rat.Cast.Order
import Mathlib.Tactic.Linarith
import Mathlib.Tactic.NormNum
import Mathlib.Tactic.Ring
import Reiver.Core.Promql.Selection

/-! # Extrapolated rates

The model of `ExtrapolatedRate::calc` of `extrapolate_rate.rs`, in exact arithmetic: times are integers of milliseconds,
values are rationals, and nothing overflows. -/

namespace Reiver.Core

abbrev CounterSample := Int × ℚ

def hasDuplicateTimestamps (samples : List CounterSample) : Bool :=
  (samples.zip samples.tail).any fun w => w.1.1 = w.2.1

/-- What becomes of the sample pushed last when another one has its timestamp. -/
def mergeSample (isCounter : Bool) (pushed sample : CounterSample) : CounterSample :=
  if isCounter then if pushed.2 < sample.2 then (pushed.1, sample.2) else pushed else (pushed.1, sample.2)

/-- The loop of `dedupe_window`, from the sample pushed last on. -/
def dedupeLoop (isCounter : Bool) (pushed : CounterSample) : List CounterSample → List CounterSample
  | [] => [pushed]
  | sample :: samples =>
    if sample.1 = pushed.1 then dedupeLoop isCounter (mergeSample isCounter pushed sample) samples
    else pushed :: dedupeLoop isCounter sample samples

def dedupeWindow (isCounter : Bool) (samples : List CounterSample) : List CounterSample :=
  if hasDuplicateTimestamps samples = false then samples
  else samples.head?.elim [] fun first => dedupeLoop isCounter first samples.tail

def counterCorrection (values : List ℚ) : ℚ :=
  (values.zip values.tail).foldl (fun correction pair => if pair.2 < pair.1 then correction + pair.1 else correction) 0

def resultValue (isCounter : Bool) (first last : CounterSample) (deduped : List CounterSample) : ℚ :=
  if isCounter then last.2 - first.2 + counterCorrection (deduped.map (·.2)) else last.2 - first.2

def sampledIntervalMs (first last : CounterSample) : ℚ := ↑(last.1 - first.1)

/-- The time from the start of the range to the first sample, which for a counter ends where the counter would be
    zero. -/
def durationToStartMs (isCounter : Bool) (rangeStart : Int) (result : ℚ) (first last : CounterSample) : ℚ :=
  let durationToStart : ℚ := ↑(first.1 - rangeStart)
  if isCounter ∧ 0 < result ∧ 0 ≤ first.2 then
    let durationToZero := sampledIntervalMs first last * (first.2 / result)
    if durationToZero < durationToStart then durationToZero else durationToStart
  else durationToStart

/-- What an end of the window adds to the sampled interval. -/
def extrapolateEnd (averageIntervalMs durationMs : ℚ) : ℚ :=
  if durationMs < averageIntervalMs * (11 / 10) then durationMs else averageIntervalMs / 2

def extrapolatedIntervalMs (isCounter : Bool) (rangeLength rangeEnd : Int) (first last : CounterSample)
    (deduped : List CounterSample) : ℚ :=
  let averageIntervalMs := sampledIntervalMs first last / (deduped.length - 1 : ℕ)
  sampledIntervalMs first last +
    extrapolateEnd averageIntervalMs
      (durationToStartMs isCounter (rangeEnd - rangeLength) (resultValue isCounter first last deduped) first last) +
    extrapolateEnd averageIntervalMs ↑(rangeEnd - last.1)

/-- The body of the loop of `calc`: the value of a window, or null. The range of a rate is not empty. -/
def calcWindow (isCounter isRate : Bool) (rangeLength rangeEnd : Int) (samples : List CounterSample) : Option ℚ :=
  if samples.length < 2 then none
  else
    let deduped := dedupeWindow isCounter samples
    if deduped.length < 2 then none
    else
      deduped.head?.bind fun first => deduped.getLast?.bind fun last =>
        if sampledIntervalMs first last = 0 then none
        else
          let factor := extrapolatedIntervalMs isCounter rangeLength rangeEnd first last deduped /
            sampledIntervalMs first last
          some (resultValue isCounter first last deduped * if isRate then factor / (rangeLength / 1000) else factor)

/-- `calc` on the columns of the samples, the keys of the windows and the evaluation times, which `extract_range_dict`
    and the checks of the lengths have accepted. -/
def calcRates (littleEndian isCounter isRate : Bool) (rangeLength : Int) (timestamps : List Int) (values : List ℚ)
    (keys : List (BitVec 64)) (evalTs : List Int) : List (Option ℚ) :=
  (keys.zip evalTs).map fun row =>
    let window := unpack littleEndian row.1
    calcWindow isCounter isRate rangeLength row.2
      (((timestamps.zip values).drop window.1.toNat).take window.2.toNat)

/-! ### What a window promises -/

/-- The growth of a counter between consecutive values: after a reset the value itself. -/
def observedIncrease : List ℚ → ℚ
  | a :: b :: values => (if b < a then b else b - a) + observedIncrease (b :: values)
  | _ => 0

/-- The samples of a window of the last milliseconds, in the order of time, with values of a counter. -/
structure CounterWindow (rangeLength rangeEnd : Int) (samples : List CounterSample) : Prop where
  sorted : samples.Pairwise fun a b => a.1 ≤ b.1
  inside : ∀ s ∈ samples, rangeEnd - rangeLength ≤ s.1 ∧ s.1 ≤ rangeEnd
  nonneg : ∀ s ∈ samples, 0 ≤ s.2

structure WindowSound (rangeLength rangeEnd : Int) (samples : List CounterSample) : Prop where
  increasing : ∀ isCounter, (dedupeWindow isCounter samples).Pairwise fun a b => a.1 < b.1
  increase : ∀ first ∈ (dedupeWindow true samples).head?, ∀ last ∈ (dedupeWindow true samples).getLast?,
    resultValue true first last (dedupeWindow true samples) =
      observedIncrease ((dedupeWindow true samples).map (·.2)) ∧
    0 ≤ observedIncrease ((dedupeWindow true samples).map (·.2))
  interval : ∀ isCounter, ∀ first ∈ (dedupeWindow isCounter samples).head?,
    ∀ last ∈ (dedupeWindow isCounter samples).getLast?, 2 ≤ (dedupeWindow isCounter samples).length →
      0 < sampledIntervalMs first last ∧
      sampledIntervalMs first last ≤
        extrapolatedIntervalMs isCounter rangeLength rangeEnd first last (dedupeWindow isCounter samples) ∧
      extrapolatedIntervalMs isCounter rangeLength rangeEnd first last (dedupeWindow isCounter samples) ≤ rangeLength
  answers : 2 ≤ (dedupeWindow true samples).length →
    (calcWindow true false rangeLength rangeEnd samples).isSome = true
  scaled : ∀ x ∈ calcWindow true false rangeLength rangeEnd samples,
    ∀ first ∈ (dedupeWindow true samples).head?, ∀ last ∈ (dedupeWindow true samples).getLast?,
      observedIncrease ((dedupeWindow true samples).map (·.2)) ≤ x ∧
      x ≤ observedIncrease ((dedupeWindow true samples).map (·.2)) * (rangeLength / sampledIntervalMs first last)

variable {isCounter isRate : Bool} {rangeLength rangeEnd : Int} {samples deduped : List CounterSample}
  {pushed sample first last : CounterSample}

/-! ### Deduplication -/

theorem mergeSample_fst : (mergeSample isCounter pushed sample).1 = pushed.1 := by
  unfold mergeSample
  split_ifs <;> rfl

theorem mergeSample_cases (h : sample.1 = pushed.1) :
    mergeSample isCounter pushed sample = sample ∨ mergeSample isCounter pushed sample = pushed := by
  have hsample : (pushed.1, sample.2) = sample := by rw [← h]
  unfold mergeSample
  split_ifs
  · exact .inl hsample
  · exact .inr rfl
  · exact .inl hsample

theorem mem_dedupeLoop {s : CounterSample} (hs : s ∈ dedupeLoop isCounter pushed samples) : s ∈ pushed :: samples := by
  induction samples generalizing pushed with
  | nil => simpa [dedupeLoop] using hs
  | cons sample samples ih =>
    rw [dedupeLoop] at hs
    split_ifs at hs with heq
    · rcases List.mem_cons.mp (ih hs) with hmerged | hs
      · rw [hmerged]
        have hcases : mergeSample isCounter pushed sample = sample ∨ _ := mergeSample_cases heq
        rcases hcases with h | h
        · rw [h]
          exact List.mem_cons_of_mem _ List.mem_cons_self
        · rw [h]
          exact List.mem_cons_self
      · exact List.mem_cons_of_mem _ (List.mem_cons_of_mem _ hs)
    · rcases List.mem_cons.mp hs with rfl | hs
      · exact List.mem_cons_self
      · exact List.mem_cons_of_mem _ (ih hs)

theorem mem_of_mem_dedupeWindow {s : CounterSample} (hs : s ∈ dedupeWindow isCounter samples) : s ∈ samples := by
  unfold dedupeWindow at hs
  split_ifs at hs with hdup
  · exact hs
  · cases samples with
    | nil => exact hs
    | cons first samples => exact mem_dedupeLoop hs

theorem length_dedupeLoop_le : (dedupeLoop isCounter pushed samples).length ≤ samples.length + 1 := by
  induction samples generalizing pushed with
  | nil => exact le_rfl
  | cons sample samples ih =>
    rw [dedupeLoop]
    split_ifs with heq
    · exact ih.trans (Nat.le_succ _)
    · exact Nat.succ_le_succ ih

theorem length_dedupeWindow_le : (dedupeWindow isCounter samples).length ≤ samples.length := by
  unfold dedupeWindow
  split_ifs with hdup
  · exact le_rfl
  · cases samples with
    | nil => exact le_rfl
    | cons first samples => exact length_dedupeLoop_le

theorem dedupeLoop_increasing (h : (pushed :: samples).Pairwise fun a b => a.1 ≤ b.1) :
    (dedupeLoop isCounter pushed samples).Pairwise fun a b => a.1 < b.1 := by
  induction samples generalizing pushed with
  | nil => exact List.pairwise_singleton _ _
  | cons sample samples ih =>
    obtain ⟨hpushed, hrest⟩ := List.pairwise_cons.mp h
    rw [dedupeLoop]
    split_ifs with heq
    · refine ih (List.pairwise_cons.mpr ⟨fun s hs => ?_, (List.pairwise_cons.mp hrest).2⟩)
      rw [mergeSample_fst]
      exact hpushed s (List.mem_cons_of_mem _ hs)
    · have hlt : pushed.1 < sample.1 := lt_of_le_of_ne (hpushed sample List.mem_cons_self) (Ne.symm heq)
      refine List.pairwise_cons.mpr ⟨fun s hs => ?_, ih hrest⟩
      rcases List.mem_cons.mp (mem_dedupeLoop hs) with rfl | hs
      · exact hlt
      · exact hlt.trans_le ((List.pairwise_cons.mp hrest).1 s hs)

theorem increasing_of_no_duplicates (h : samples.Pairwise fun a b => a.1 ≤ b.1)
    (hdup : hasDuplicateTimestamps samples = false) : samples.Pairwise fun a b => a.1 < b.1 := by
  induction samples with
  | nil => exact List.Pairwise.nil
  | cons first samples ih =>
    obtain ⟨hfirst, hrest⟩ := List.pairwise_cons.mp h
    cases samples with
    | nil => exact List.pairwise_singleton _ _
    | cons second samples =>
      obtain ⟨hne, hdup⟩ : first.1 ≠ second.1 ∧ hasDuplicateTimestamps (second :: samples) = false := by
        simpa [hasDuplicateTimestamps] using hdup
      have hlt : first.1 < second.1 := lt_of_le_of_ne (hfirst second List.mem_cons_self) hne
      refine List.pairwise_cons.mpr ⟨fun s hs => ?_, ih hrest hdup⟩
      rcases List.mem_cons.mp hs with rfl | hs
      · exact hlt
      · exact hlt.trans_le ((List.pairwise_cons.mp hrest).1 s hs)

theorem dedupeWindow_increasing (h : samples.Pairwise fun a b => a.1 ≤ b.1) :
    (dedupeWindow isCounter samples).Pairwise fun a b => a.1 < b.1 := by
  unfold dedupeWindow
  split_ifs with hdup
  · exact increasing_of_no_duplicates h hdup
  · cases samples with
    | nil => exact List.Pairwise.nil
    | cons first samples => exact dedupeLoop_increasing h

/-! ### The increase of a counter -/

theorem foldl_correction (values : List (ℚ × ℚ)) (start : ℚ) :
    values.foldl (fun correction pair => if pair.2 < pair.1 then correction + pair.1 else correction) start =
      start + values.foldl (fun correction pair => if pair.2 < pair.1 then correction + pair.1 else correction) 0 := by
  induction values generalizing start with
  | nil => simp
  | cons pair values ih =>
    rw [List.foldl_cons, List.foldl_cons, ih (if pair.2 < pair.1 then start + pair.1 else start),
      ih (if pair.2 < pair.1 then 0 + pair.1 else 0)]
    split_ifs <;> ring

theorem counterCorrection_cons (a b : ℚ) (values : List ℚ) :
    counterCorrection (a :: b :: values) = (if b < a then a else 0) + counterCorrection (b :: values) := by
  have h := foldl_correction ((b :: values).zip values) (if b < a then a else 0)
  simpa [counterCorrection] using h

theorem counterCorrection_eq {a z : ℚ} {values : List ℚ} (hlast : (a :: values).getLast? = some z) :
    z - a + counterCorrection (a :: values) = observedIncrease (a :: values) := by
  induction values generalizing a with
  | nil =>
    obtain rfl : a = z := by simpa using hlast
    simp [counterCorrection, observedIncrease]
  | cons b values ih =>
    have hb := ih (by simpa using hlast)
    rw [counterCorrection_cons, observedIncrease, ← hb]
    split_ifs <;> ring

theorem observedIncrease_nonneg {values : List ℚ} (h : ∀ v ∈ values, 0 ≤ v) : 0 ≤ observedIncrease values := by
  induction values with
  | nil => exact le_rfl
  | cons a values ih =>
    cases values with
    | nil => exact le_rfl
    | cons b values =>
      have hb : 0 ≤ b := h b (by simp)
      have hrest := ih fun v hv => h v (List.mem_cons_of_mem _ hv)
      rw [observedIncrease]
      split_ifs with hreset
      · exact add_nonneg hb hrest
      · exact add_nonneg (sub_nonneg.mpr (not_lt.mp hreset)) hrest

theorem resultValue_counter (hfirst : deduped.head? = some first) (hlast : deduped.getLast? = some last) :
    resultValue true first last deduped = observedIncrease (deduped.map (·.2)) := by
  cases deduped with
  | nil => simp at hfirst
  | cons a deduped =>
    obtain rfl : a = first := by simpa using hfirst
    have hvalues : ((a :: deduped).map (·.2)).getLast? = some last.2 := by
      rw [List.getLast?_map, hlast, Option.map_some]
    rw [resultValue, if_pos rfl]
    exact counterCorrection_eq hvalues

/-! ### The extrapolated interval -/

theorem sampledIntervalMs_pos (hsorted : deduped.Pairwise fun a b => a.1 < b.1) (hlen : 2 ≤ deduped.length)
    (hfirst : deduped.head? = some first) (hlast : deduped.getLast? = some last) :
    0 < sampledIntervalMs first last := by
  cases deduped with
  | nil => simp at hfirst
  | cons a deduped =>
    obtain rfl : a = first := by simpa using hfirst
    cases deduped with
    | nil => simp at hlen
    | cons b deduped =>
      have hmem : last ∈ b :: deduped := List.mem_of_getLast? (by simpa using hlast)
      have hlt := (List.pairwise_cons.mp hsorted).1 last hmem
      exact Int.cast_pos.mpr (sub_pos.mpr hlt)

theorem durationToStartMs_bounds {rangeStart : Int} {result : ℚ} (hsampled : 0 < sampledIntervalMs first last)
    (hstart : rangeStart ≤ first.1) :
    0 ≤ durationToStartMs isCounter rangeStart result first last ∧
      durationToStartMs isCounter rangeStart result first last ≤ ↑(first.1 - rangeStart) := by
  have hduration : (0 : ℚ) ≤ ↑(first.1 - rangeStart) := by exact_mod_cast sub_nonneg.mpr hstart
  simp only [durationToStartMs]
  split_ifs with hcounter hzero
  · exact ⟨mul_nonneg hsampled.le (div_nonneg hcounter.2.2 hcounter.2.1.le), hzero.le⟩
  · exact ⟨hduration, le_rfl⟩
  · exact ⟨hduration, le_rfl⟩

theorem extrapolateEnd_bounds {average duration : ℚ} (haverage : 0 ≤ average) (hduration : 0 ≤ duration) :
    0 ≤ extrapolateEnd average duration ∧ extrapolateEnd average duration ≤ duration := by
  unfold extrapolateEnd
  split_ifs with hlt
  · exact ⟨hduration, le_rfl⟩
  · constructor <;> linarith

theorem extrapolatedIntervalMs_bounds (hsampled : 0 < sampledIntervalMs first last)
    (hstart : rangeEnd - rangeLength ≤ first.1) (hend : last.1 ≤ rangeEnd) :
    sampledIntervalMs first last ≤ extrapolatedIntervalMs isCounter rangeLength rangeEnd first last deduped ∧
      extrapolatedIntervalMs isCounter rangeLength rangeEnd first last deduped ≤ rangeLength := by
  have haverage : 0 ≤ sampledIntervalMs first last / (deduped.length - 1 : ℕ) :=
    div_nonneg hsampled.le (Nat.cast_nonneg _)
  obtain ⟨hzero, hduration⟩ : _ ∧ durationToStartMs isCounter (rangeEnd - rangeLength)
      (resultValue isCounter first last deduped) first last ≤ _ := durationToStartMs_bounds hsampled hstart
  have hends : (0 : ℚ) ≤ ↑(rangeEnd - last.1) := by exact_mod_cast sub_nonneg.mpr hend
  obtain ⟨hlow, hhigh⟩ := extrapolateEnd_bounds haverage hzero
  obtain ⟨hlow', hhigh'⟩ := extrapolateEnd_bounds haverage hends
  have hrange : (↑(first.1 - (rangeEnd - rangeLength)) : ℚ) + sampledIntervalMs first last + ↑(rangeEnd - last.1) =
      rangeLength := by
    simp only [sampledIntervalMs, Int.cast_sub]
    ring
  unfold extrapolatedIntervalMs
  constructor
  · linarith
  · linarith

/-! ### Every window -/

theorem isSome_calcWindow (hsorted : samples.Pairwise fun a b => a.1 ≤ b.1)
    (hlen : 2 ≤ (dedupeWindow isCounter samples).length) :
    (calcWindow isCounter isRate rangeLength rangeEnd samples).isSome = true := by
  have hsorted' : (dedupeWindow isCounter samples).Pairwise fun a b => a.1 < b.1 := dedupeWindow_increasing hsorted
  obtain ⟨first, hfirst⟩ : ∃ first, (dedupeWindow isCounter samples).head? = some first := by
    cases hd : dedupeWindow isCounter samples with
    | nil => simp [hd] at hlen
    | cons first rest => exact ⟨first, rfl⟩
  obtain ⟨last, hlast⟩ : ∃ last, (dedupeWindow isCounter samples).getLast? = some last := by
    cases hd : (dedupeWindow isCounter samples).getLast? with
    | none => simp [List.getLast?_eq_none_iff.mp hd] at hlen
    | some last => exact ⟨last, rfl⟩
  have hsampled := sampledIntervalMs_pos hsorted' hlen hfirst hlast
  simp [calcWindow, (hlen.trans length_dedupeWindow_le).not_gt, hlen.not_gt, hfirst, hlast, hsampled.ne']

theorem calcWindow_some {x : ℚ} (hx : calcWindow isCounter false rangeLength rangeEnd samples = some x)
    (hfirst : (dedupeWindow isCounter samples).head? = some first)
    (hlast : (dedupeWindow isCounter samples).getLast? = some last) :
    2 ≤ (dedupeWindow isCounter samples).length ∧
      x = resultValue isCounter first last (dedupeWindow isCounter samples) *
        (extrapolatedIntervalMs isCounter rangeLength rangeEnd first last (dedupeWindow isCounter samples) /
          sampledIntervalMs first last) := by
  simp only [calcWindow, hfirst, hlast, Option.bind_some] at hx
  split_ifs at hx with hlen hdlen hsampled hrate
  · exact hrate.elim
  · exact ⟨not_lt.mp hdlen, (Option.some.inj hx).symm⟩

/-- On the keys of range selection each row is the value of the samples that its window spans, whatever the order of the
    bytes. -/
theorem calcRates_pack (littleEndian : Bool) (timestamps evalTs : List Int) (values : List ℚ)
    (windows : List (BitVec 32 × BitVec 32)) :
    calcRates littleEndian isCounter isRate rangeLength timestamps values
        (windows.map fun window => pack littleEndian window.1 window.2) evalTs =
      (windows.zip evalTs).map fun row => calcWindow isCounter isRate rangeLength row.2
        (((timestamps.zip values).drop row.1.1.toNat).take row.1.2.toNat) := by
  rw [calcRates, List.zip_map_left, List.map_map]
  refine List.map_congr_left fun row _ => ?_
  show calcWindow _ _ _ row.2 _ = _
  rw [Prod.map_fst, unpack_pack]

/-- Every window of a counter is deduplicated, corrected and extrapolated soundly. -/
theorem extrapolatedRate_sound (h : CounterWindow rangeLength rangeEnd samples) :
    WindowSound rangeLength rangeEnd samples := by
  have hbounds {isCounter : Bool} {first last : CounterSample} (hfirst : first ∈ (dedupeWindow isCounter samples).head?)
      (hlast : last ∈ (dedupeWindow isCounter samples).getLast?) (hlen : 2 ≤ (dedupeWindow isCounter samples).length) :
      0 < sampledIntervalMs first last ∧
        sampledIntervalMs first last ≤
          extrapolatedIntervalMs isCounter rangeLength rangeEnd first last (dedupeWindow isCounter samples) ∧
        extrapolatedIntervalMs isCounter rangeLength rangeEnd first last (dedupeWindow isCounter samples) ≤
          rangeLength := by
    have hsampled := sampledIntervalMs_pos (dedupeWindow_increasing h.sorted) hlen hfirst hlast
    exact ⟨hsampled, extrapolatedIntervalMs_bounds hsampled
      (h.inside first (mem_of_mem_dedupeWindow (List.mem_of_mem_head? hfirst))).1
      (h.inside last (mem_of_mem_dedupeWindow (List.mem_of_getLast? hlast))).2⟩
  have hnonneg : 0 ≤ observedIncrease ((dedupeWindow true samples).map (·.2)) := by
    refine observedIncrease_nonneg fun v hv => ?_
    obtain ⟨s, hs, rfl⟩ := List.mem_map.mp hv
    exact h.nonneg s (mem_of_mem_dedupeWindow hs)
  refine ⟨fun isCounter => dedupeWindow_increasing h.sorted, fun first hfirst last hlast =>
    ⟨resultValue_counter hfirst hlast, hnonneg⟩, fun isCounter first hfirst last hlast hlen =>
    hbounds hfirst hlast hlen, isSome_calcWindow h.sorted, fun x hx first hfirst last hlast => ?_⟩
  obtain ⟨hlen, rfl⟩ := calcWindow_some hx hfirst hlast
  obtain ⟨hsampled, hlow, hhigh⟩ := hbounds hfirst hlast hlen
  rw [resultValue_counter hfirst hlast]
  constructor
  · exact le_mul_of_one_le_right hnonneg ((one_le_div hsampled).mpr hlow)
  · exact mul_le_mul_of_nonneg_left (div_le_div_of_nonneg_right hhigh hsampled.le) hnonneg

/-- A window with a repeated timestamp and a reset. -/
theorem extrapolatedRate_sound_reset :
    WindowSound 60 60 [(0, 4), (10, 7), (10, 6), (20, 2), (50, 5)] :=
  extrapolatedRate_sound ⟨by decide, by decide, by simp⟩

end Reiver.Core
