import Mathlib.Algebra.Order.Field.Rat
import Mathlib.Algebra.Order.Field.Basic
import Mathlib.Algebra.Order.Monoid.Unbundled.WithTop
import Mathlib.Order.WithBot
import Mathlib.Tactic.FieldSimp
import Mathlib.Tactic.Linarith
import Mathlib.Tactic.NormNum
import Mathlib.Tactic.Positivity

/-! # Histogram quantiles

The quantile that `compute_histogram_quantile_from_vecs` reads from cumulative buckets, in exact arithmetic. -/

namespace Reiver.Core

/-- An upper bound and the count of what is not above it. -/
abbrev HistogramBucket := WithTop ℚ × ℚ

inductive Quantile where
  | nan
  /-- A division of floats by zero. -/
  | zeroDivided
  | value (x : WithTop ℚ)
deriving DecidableEq

def parseLe (parse : String → Option (WithTop ℚ)) (le : String) : Option (WithTop ℚ) :=
  if le = "+Inf" then some ⊤ else parse le

/-- The value that is interpolated in the bucket that crosses the rank. -/
def interpolate (rank lowerCount upperCount : ℚ) (lowerBound upperBound : WithTop ℚ) : Quantile :=
  if upperBound = lowerBound then .value lowerBound
  else
    match upperBound, lowerBound with
    | ⊤, _ => .value lowerBound
    | (_ : ℚ), ⊤ => .nan
    | (u : ℚ), (l : ℚ) =>
      if upperCount - lowerCount = 0 then .zeroDivided
      else .value ↑(l + (rank - lowerCount) / (upperCount - lowerCount) * (u - l))

def findBucket (rank : ℚ) (lowerBound : WithTop ℚ) (lowerCount : ℚ) : List HistogramBucket → Option Quantile
  | [] => none
  | (upperBound, upperCount) :: buckets =>
    if rank ≤ upperCount then some (interpolate rank lowerCount upperCount lowerBound upperBound)
    else findBucket rank upperBound upperCount buckets

/-- The buckets in the order of their bounds. -/
def sortBuckets (buckets : List HistogramBucket) : List HistogramBucket :=
  buckets.mergeSort fun a b => a.1 ≤ b.1

/-- The quantile of the texts of the bounds and the counts, which are of one length; `none` is null. -/
def computeHistogramQuantileFromVecs (parse : String → Option (WithTop ℚ)) (q : ℚ) (entries : List (String × ℚ)) :
    Option Quantile :=
  if q < 0 ∨ 1 < q then some .nan
  else
    (entries.mapM fun entry => (parseLe parse entry.1).map fun le => (le, entry.2)).bind fun read =>
      let buckets := sortBuckets read
      buckets.getLast?.bind fun last =>
        if last.1 ≠ ⊤ then none
        else if last.2 = 0 then some .nan
        else some ((findBucket (q * last.2) 0 0 buckets).getD (.value last.1))

/-! ### What a quantile promises -/

def ReadsAs (parse : String → Option (WithTop ℚ)) (entries : List (String × ℚ)) (buckets : List HistogramBucket) :
    Prop :=
  entries.map (fun entry => (parseLe parse entry.1, entry.2)) = buckets.map fun b => (some b.1, b.2)

/-- Cumulative counts of distinct bounds, of which one is infinite, with a positive total. -/
structure Cumulative (buckets : List HistogramBucket) (total : ℚ) : Prop where
  distinct : (buckets.map Prod.fst).Nodup
  infinite : (⊤, total) ∈ buckets
  grows : ∀ a ∈ buckets, ∀ b ∈ buckets, a.1 ≤ b.1 → a.2 ≤ b.2
  positive : 0 < total

/-- The bucket is the lowest whose count reaches the rank. -/
structure FallsIn (rank : ℚ) (buckets : List HistogramBucket) (b : HistogramBucket) : Prop where
  mem : b ∈ buckets
  reached : rank ≤ b.2
  lowest : ∀ a ∈ buckets, a.1 < b.1 → a.2 < rank

/-- A value that lies above the bounds below the bucket and not above its own. -/
structure Inside (buckets : List HistogramBucket) (b : HistogramBucket) (x : ℚ) : Prop where
  below : ↑x ≤ b.1
  above : ∀ a ∈ buckets, a.1 < b.1 → a.1 ≤ x

/-- For positive bounds the value grows with `q` from zero to at most the largest finite bound; and it lies in the
    bucket of its rank whatever the sign of the bounds. -/
structure QuantileSound (parse : String → Option (WithTop ℚ)) (entries : List (String × ℚ))
    (buckets : List HistogramBucket) (total : ℚ) : Prop where
  monotone : (∀ b ∈ buckets, 0 < b.1) → ∀ q₁ q₂, 0 ≤ q₁ → q₁ ≤ q₂ → q₂ ≤ 1 → ∃ x₁ x₂ : ℚ,
    computeHistogramQuantileFromVecs parse q₁ entries = some (.value x₁) ∧
    computeHistogramQuantileFromVecs parse q₂ entries = some (.value x₂) ∧
    0 ≤ x₁ ∧ x₁ ≤ x₂ ∧ (x₂ = 0 ∨ ∃ (u c : ℚ), (↑u, c) ∈ buckets ∧ x₂ ≤ u)
  inside : ∀ q, 0 ≤ q → q ≤ 1 → ∃ x : ℚ, computeHistogramQuantileFromVecs parse q entries = some (.value x) ∧
    ∃ b, FallsIn (q * total) buckets b ∧ Inside buckets b x

/-- The lowest bucket has a positive bound and a positive count. Any bound will do where the count is below zero, and
    any count where the bound is zero or infinite. -/
def LowestFits (buckets : List HistogramBucket) : Prop :=
  ∀ b ∈ buckets, (∀ a ∈ buckets, b.1 ≤ a.1) → b.1 = ⊤ ∨ b.1 = 0 ∨ b.2 < 0 ∨ (0 < b.1 ∧ 0 < b.2)

variable {parse : String → Option (WithTop ℚ)} {entries : List (String × ℚ)} {buckets l : List HistogramBucket}
  {total rank lower lowerCount u c : ℚ}

/-! ### A step of the loop -/

@[simp]
theorem interpolate_top : interpolate rank lowerCount c (lower : ℚ) ⊤ = .value lower := by
  simp [interpolate]

theorem interpolate_eq (hne : ¬(u : WithTop ℚ) = lower) :
    interpolate rank lowerCount c lower u =
      if c - lowerCount = 0 then .zeroDivided
      else .value ↑(lower + (rank - lowerCount) / (c - lowerCount) * (u - lower)) := by
  simp [interpolate, hne]

theorem interpolate_zero (hne : ¬(u : WithTop ℚ) = 0) :
    interpolate 0 0 c 0 u = if c = 0 then .zeroDivided else .value (0 : ℚ) := by
  have h : interpolate 0 0 c (0 : ℚ) u = _ := interpolate_eq hne
  simpa using h

theorem interpolate_coe (hlower : lower < u) (hcount : lowerCount < c) :
    interpolate rank lowerCount c lower u =
      .value ↑(lower + (rank - lowerCount) / (c - lowerCount) * (u - lower)) := by
  rw [interpolate_eq (by exact_mod_cast hlower.ne'), if_neg (sub_ne_zero.mpr hcount.ne')]

theorem interpolation_le (hlower : lower < u) (hcount : lowerCount < c) (hrank : rank ≤ c) :
    lower + (rank - lowerCount) / (c - lowerCount) * (u - lower) ≤ u := by
  have hpart : (rank - lowerCount) / (c - lowerCount) ≤ 1 :=
    (div_le_one (sub_pos.mpr hcount)).mpr (sub_le_sub_right hrank _)
  have := mul_le_mul_of_nonneg_right hpart (sub_pos.mpr hlower).le
  linarith

theorem le_interpolation (hlower : lower < u) (hcount : lowerCount < c) (hrank : lowerCount ≤ rank) :
    lower ≤ lower + (rank - lowerCount) / (c - lowerCount) * (u - lower) :=
  le_add_of_nonneg_right
    (mul_nonneg (div_nonneg (sub_nonneg.mpr hrank) (sub_pos.mpr hcount).le) (sub_pos.mpr hlower).le)

theorem interpolation_mono {rank₁ rank₂ : ℚ} (hlower : lower < u) (hcount : lowerCount < c) (hrank : rank₁ ≤ rank₂) :
    lower + (rank₁ - lowerCount) / (c - lowerCount) * (u - lower) ≤
      lower + (rank₂ - lowerCount) / (c - lowerCount) * (u - lower) :=
  add_le_add_right
    (mul_le_mul_of_nonneg_right
      (div_le_div_of_nonneg_right (sub_le_sub_right hrank _) (sub_pos.mpr hcount).le) (sub_pos.mpr hlower).le) _

/-! ### The loop -/

/-- The loop at a lower bound and count: the buckets that are left lie above both, and the infinite one reaches the
    rank. -/
structure Climbs (rank lower lowerCount : ℚ) (l : List HistogramBucket) : Prop where
  sorted : l.Pairwise fun a b => a.1 < b.1
  bounds : ∀ b ∈ l, (lower : WithTop ℚ) < b.1
  count : lowerCount ≤ rank
  infinite : ∃ b ∈ l, b.1 = ⊤ ∧ rank ≤ b.2
  /-- A bucket that the rank falls in has a count of its own. -/
  counted : ∀ b ∈ l.head?, rank ≤ b.2 → lowerCount < b.2

section Loop
variable {b : WithTop ℚ}

theorem Climbs.lower_lt (h : Climbs rank lower lowerCount ((↑u, c) :: l)) : lower < u :=
  WithTop.coe_lt_coe.mp (h.bounds _ List.mem_cons_self)

theorem Climbs.not_below (h : Climbs rank lower lowerCount ((b, c) :: l)) {a : HistogramBucket}
    (ha : a ∈ (b, c) :: l) : ¬a.1 < b := by
  rcases List.mem_cons.mp ha with rfl | ha
  · exact lt_irrefl _
  · exact ((List.pairwise_cons.mp h.sorted).1 a ha).le.not_gt

theorem climbs_tail (hsort : ((b, c) :: l).Pairwise fun x y => x.1 < y.1)
    (hinfinite : ∃ last ∈ (b, c) :: l, last.1 = ⊤ ∧ rank ≤ last.2) (hnot : c < rank) :
    ∃ u : ℚ, b = u ∧ Climbs rank u c l := by
  obtain ⟨hhead, hsorted⟩ := List.pairwise_cons.mp hsort
  obtain ⟨last, hlast, htop, hrank⟩ := hinfinite
  have hmem : last ∈ l := by
    rcases List.mem_cons.mp hlast with rfl | hlast
    · exact absurd hrank hnot.not_ge
    · exact hlast
  obtain ⟨u, rfl⟩ := WithTop.ne_top_iff_exists.mp (hhead last hmem).ne_top
  exact ⟨u, rfl, hsorted, hhead, hnot.le, ⟨last, hmem, htop, hrank⟩,
    fun _ _ hreached => hnot.trans_le hreached⟩

theorem Climbs.step (h : Climbs rank lower lowerCount ((b, c) :: l)) (hnot : c < rank) :
    ∃ u : ℚ, b = u ∧ Climbs rank u c l :=
  climbs_tail h.sorted h.infinite hnot

theorem Climbs.crosses (h : Climbs rank lower lowerCount ((b, c) :: l)) (hrank : rank ≤ c) : ∃ x : ℚ,
    findBucket rank lower lowerCount ((b, c) :: l) = some (.value x) ∧ lower ≤ x ∧ ↑x ≤ b ∧
      (x = lower ∨ ∃ u : ℚ, b = u) := by
  have hfind : findBucket rank lower lowerCount ((b, c) :: l) = some (interpolate rank lowerCount c lower b) := by
    simp [findBucket, hrank]
  cases b with
  | top => exact ⟨lower, by rw [hfind, interpolate_top], le_rfl, le_top, .inl rfl⟩
  | coe u =>
    have hlower := h.lower_lt
    have hcount : lowerCount < c := h.counted _ rfl hrank
    refine ⟨_, by rw [hfind, interpolate_coe hlower hcount], le_interpolation hlower hcount h.count, ?_, .inr ⟨u, rfl⟩⟩
    exact_mod_cast interpolation_le hlower hcount hrank

theorem FallsIn.cons {d : HistogramBucket} (h : FallsIn rank l d) (hnot : c < rank) :
    FallsIn rank ((b, c) :: l) d where
  mem := List.mem_cons_of_mem _ h.mem
  reached := h.reached
  lowest a ha hlt := by
    rcases List.mem_cons.mp ha with rfl | ha
    · exact hnot
    · exact h.lowest a ha hlt

theorem Inside.cons {d : HistogramBucket} {x : ℚ} (h : Inside l d x) (hu : u ≤ x) : Inside ((↑u, c) :: l) d x where
  below := h.below
  above a ha hlt := by
    rcases List.mem_cons.mp ha with rfl | ha
    · exact WithTop.coe_le_coe.mpr hu
    · exact h.above a ha hlt

theorem findBucket_skip (hnot : c < rank) : findBucket rank lower lowerCount ((b, c) :: l) = findBucket rank b c l := by
  simp [findBucket, hnot.not_ge]

end Loop

theorem findBucket_inside (h : Climbs rank lower lowerCount l) : ∃ x : ℚ,
    findBucket rank lower lowerCount l = some (.value x) ∧ lower ≤ x ∧
      (x = lower ∨ ∃ (u c : ℚ), (↑u, c) ∈ l ∧ x ≤ u) ∧ ∃ b, FallsIn rank l b ∧ Inside l b x := by
  induction l generalizing lower lowerCount with
  | nil =>
    obtain ⟨b, hb, -⟩ := h.infinite
    exact absurd hb List.not_mem_nil
  | cons head l ih =>
    obtain ⟨b, c⟩ := head
    by_cases hrank : rank ≤ c
    · obtain ⟨x, hx, hlower, hbound, hfinite⟩ := h.crosses hrank
      refine ⟨x, hx, hlower, ?_, (b, c), ⟨List.mem_cons_self, hrank, fun a ha hlt => ?_⟩, hbound, fun a ha hlt => ?_⟩
      · refine hfinite.imp id ?_
        rintro ⟨u, rfl⟩
        exact ⟨u, c, List.mem_cons_self, by exact_mod_cast hbound⟩
      · exact absurd hlt (h.not_below ha)
      · exact absurd hlt (h.not_below ha)
    · have hnot : c < rank := not_le.mp hrank
      obtain ⟨u, rfl, hl⟩ := h.step hnot
      obtain ⟨x, hx, hux, hfinite, d, hfalls, hinside⟩ := ih hl
      have hlower := h.lower_lt
      refine ⟨x, by rw [findBucket_skip hnot, hx], hlower.le.trans hux, .inr ?_, d, hfalls.cons hnot, hinside.cons hux⟩
      rcases hfinite with rfl | ⟨v, n, hv, hxv⟩
      · exact ⟨x, c, List.mem_cons_self, le_rfl⟩
      · exact ⟨v, n, List.mem_cons_of_mem _ hv, hxv⟩

theorem findBucket_mono {rank₁ rank₂ : ℚ} (hle : rank₁ ≤ rank₂) (h₁ : Climbs rank₁ lower lowerCount l)
    (h₂ : Climbs rank₂ lower lowerCount l) : ∃ x₁ x₂ : ℚ,
      findBucket rank₁ lower lowerCount l = some (.value x₁) ∧
      findBucket rank₂ lower lowerCount l = some (.value x₂) ∧ x₁ ≤ x₂ := by
  induction l generalizing lower lowerCount with
  | nil =>
    obtain ⟨b, hb, -⟩ := h₁.infinite
    exact absurd hb List.not_mem_nil
  | cons head l ih =>
    obtain ⟨b, c⟩ := head
    rcases le_or_gt rank₂ c with hc₂ | hc₂
    · -- both ranks fall in the first bucket
      have hc₁ := hle.trans hc₂
      cases b with
      | top => exact ⟨lower, lower, by simp [findBucket, hc₁], by simp [findBucket, hc₂], le_rfl⟩
      | coe u =>
        have hlower := h₁.lower_lt
        have hcount : lowerCount < c := h₁.counted _ rfl hc₁
        refine ⟨_, _, ?_, ?_, interpolation_mono hlower hcount hle⟩
        · simp [findBucket, hc₁, interpolate_coe hlower hcount]
        · simp [findBucket, hc₂, interpolate_coe hlower hcount]
    · obtain ⟨u, rfl, hl₂⟩ := h₂.step hc₂
      rcases le_or_gt rank₁ c with hc₁ | hc₁
      · obtain ⟨x₁, hx₁, -, hbound, -⟩ := h₁.crosses hc₁
        obtain ⟨x₂, hx₂, hux₂, -⟩ := findBucket_inside hl₂
        exact ⟨x₁, x₂, hx₁, by rw [findBucket_skip hc₂, hx₂], le_trans (by exact_mod_cast hbound) hux₂⟩
      · obtain ⟨v, hv, hl₁⟩ := h₁.step hc₁
        obtain rfl : u = v := by exact_mod_cast hv
        obtain ⟨x₁, x₂, hx₁, hx₂, hx⟩ := ih hl₁ hl₂
        exact ⟨x₁, x₂, by rw [findBucket_skip hc₁, hx₁], by rw [findBucket_skip hc₂, hx₂], hx⟩

theorem value_unique {found : Option Quantile} {x y : ℚ} (hx : found = some (.value x)) (hy : found = some (.value y)) :
    x = y := by
  simpa [hx] using hy

theorem findBucket_bounded {rank₁ rank₂ : ℚ} (hle : rank₁ ≤ rank₂) (h₁ : Climbs rank₁ lower lowerCount l)
    (h₂ : Climbs rank₂ lower lowerCount l) : ∃ x₁ x₂ : ℚ,
      findBucket rank₁ lower lowerCount l = some (.value x₁) ∧
      findBucket rank₂ lower lowerCount l = some (.value x₂) ∧
      lower ≤ x₁ ∧ x₁ ≤ x₂ ∧ (x₂ = lower ∨ ∃ u c : ℚ, (↑u, c) ∈ l ∧ x₂ ≤ u) := by
  obtain ⟨x₁, x₂, hx₁, hx₂, hx⟩ := findBucket_mono hle h₁ h₂
  obtain ⟨y₁, hy₁, hlow, -⟩ := findBucket_inside h₁
  obtain ⟨y₂, hy₂, -, hhigh, -⟩ := findBucket_inside h₂
  obtain rfl := value_unique hx₁ hy₁
  obtain rfl := value_unique hx₂ hy₂
  exact ⟨x₁, x₂, hx₁, hx₂, hlow, hx, hhigh⟩

/-! ### The sorted buckets -/

theorem ReadsAs.mapM_eq (h : ReadsAs parse entries buckets) :
    (entries.mapM fun entry => (parseLe parse entry.1).map fun le => (le, entry.2)) = some buckets := by
  induction entries generalizing buckets with
  | nil =>
    obtain rfl : buckets = [] := by simpa [ReadsAs] using h.symm
    rfl
  | cons entry entries ih =>
    cases buckets with
    | nil => simp [ReadsAs] at h
    | cons b buckets =>
      obtain ⟨⟨hle, hcount⟩, hrest⟩ : (parseLe parse entry.1 = some b.1 ∧ entry.2 = b.2) ∧
          ReadsAs parse entries buckets := by
        simpa [ReadsAs] using h
      simp [hle, hcount, ih hrest]

theorem mem_sortBuckets {b : HistogramBucket} : b ∈ sortBuckets buckets ↔ b ∈ buckets :=
  (List.mergeSort_perm _ _).mem_iff

theorem Cumulative.sorted (h : Cumulative buckets total) : (sortBuckets buckets).Pairwise fun a b => a.1 < b.1 := by
  have hle : (sortBuckets buckets).Pairwise fun a b => a.1 ≤ b.1 := by
    refine (List.pairwise_mergeSort ?_ ?_ buckets).imp of_decide_eq_true
    · intro a b c hab hbc
      exact decide_eq_true ((of_decide_eq_true hab).trans (of_decide_eq_true hbc))
    · intro a b
      simpa using le_total a.1 b.1
  have hne : (sortBuckets buckets).Pairwise fun a b => a.1 ≠ b.1 := by
    have hnodup : ((sortBuckets buckets).map Prod.fst).Nodup :=
      ((List.mergeSort_perm _ _).map _).nodup_iff.mpr h.distinct
    exact List.pairwise_map.mp hnodup
  exact (hle.and hne).imp fun hab => lt_of_le_of_ne hab.1 hab.2

theorem Cumulative.getLast? (h : Cumulative buckets total) : (sortBuckets buckets).getLast? = some (⊤, total) := by
  obtain ⟨before, after, hsplit⟩ := List.append_of_mem (mem_sortBuckets.mpr h.infinite)
  have hsorted := h.sorted
  cases after with
  | nil => simp [hsplit]
  | cons b after =>
    rw [hsplit] at hsorted
    have hlt : (⊤ : WithTop ℚ) < b.1 :=
      (List.pairwise_cons.mp (List.pairwise_append.mp hsorted).2.1).1 b List.mem_cons_self
    exact absurd hlt not_top_lt

theorem compute_eq (hread : ReadsAs parse entries buckets) (h : Cumulative buckets total) {q : ℚ} (h0 : 0 ≤ q)
    (h1 : q ≤ 1) : computeHistogramQuantileFromVecs parse q entries =
      some ((findBucket (q * total) 0 0 (sortBuckets buckets)).getD (.value ⊤)) := by
  simp [computeHistogramQuantileFromVecs, h0.not_gt, h1.not_gt, hread.mapM_eq, h.getLast?, h.positive.ne']

theorem Cumulative.sorted_cons (h : Cumulative buckets total) {b : HistogramBucket} (hb : b ∈ buckets)
    (hleast : ∀ a ∈ buckets, b.1 ≤ a.1) : ∃ l, sortBuckets buckets = b :: l := by
  have hsorted := h.sorted
  have hmem := mem_sortBuckets.mpr hb
  rcases hl : sortBuckets buckets with _ | ⟨head, l⟩
  · rw [hl] at hmem
    exact absurd hmem List.not_mem_nil
  · rw [hl] at hmem hsorted
    rcases List.mem_cons.mp hmem with rfl | hmem
    · exact ⟨l, rfl⟩
    · have hhead : head ∈ buckets := mem_sortBuckets.mp (hl ▸ List.mem_cons_self)
      exact absurd ((List.pairwise_cons.mp hsorted).1 b hmem) (hleast head hhead).not_gt

theorem Cumulative.exists_least (h : Cumulative buckets total) :
    ∃ b l, sortBuckets buckets = b :: l ∧ b ∈ buckets ∧ ∀ a ∈ buckets, b.1 ≤ a.1 := by
  have hsorted := h.sorted
  rcases hl : sortBuckets buckets with _ | ⟨b, l⟩
  · exact absurd (hl ▸ mem_sortBuckets.mpr h.infinite) List.not_mem_nil
  · rw [hl] at hsorted
    refine ⟨b, l, rfl, mem_sortBuckets.mp (hl ▸ List.mem_cons_self), fun a ha => ?_⟩
    rcases List.mem_cons.mp (hl ▸ mem_sortBuckets.mpr ha) with rfl | ha
    · exact le_rfl
    · exact ((List.pairwise_cons.mp hsorted).1 a ha).le

theorem Cumulative.climbs (h : Cumulative buckets total) {b : HistogramBucket} {l : List HistogramBucket}
    (hl : sortBuckets buckets = b :: l) (hb : b.1 = ⊤ ∨ (0 < b.1 ∧ 0 < b.2)) (h0 : 0 ≤ rank) (htotal : rank ≤ total) :
    Climbs rank 0 0 (b :: l) := by
  have hsorted := hl ▸ h.sorted
  have hinfinite : (⊤, total) ∈ b :: l := hl ▸ mem_sortBuckets.mpr h.infinite
  have hpositive : 0 < b.1 ∧ 0 < b.2 := by
    rcases hb with htop | hb
    · rcases List.mem_cons.mp hinfinite with rfl | hmem
      · exact ⟨WithTop.coe_lt_top 0, h.positive⟩
      · exact absurd ((List.pairwise_cons.mp hsorted).1 _ hmem) (by simp [htop])
    · exact hb
  refine ⟨hsorted, fun a ha => ?_, h0, ⟨_, hinfinite, rfl, htotal⟩, ?_⟩
  · rcases List.mem_cons.mp ha with rfl | ha
    · exact hpositive.1
    · exact hpositive.1.trans ((List.pairwise_cons.mp hsorted).1 a ha)
  · rintro a ⟨⟩ -
    exact hpositive.2

/-- The value that the loop finds for a rank lies in the bucket of the rank. -/
def LoopInside (buckets : List HistogramBucket) (rank : ℚ) : Prop :=
  ∃ x : ℚ, findBucket rank 0 0 (sortBuckets buckets) = some (.value x) ∧
    ∃ b, FallsIn rank (sortBuckets buckets) b ∧ Inside (sortBuckets buckets) b x

theorem Cumulative.loopInside (h : Cumulative buckets total) (hfits : LowestFits buckets) (h0 : 0 ≤ rank)
    (htotal : rank ≤ total) : LoopInside buckets rank := by
  obtain ⟨⟨b, c⟩, l, hl, hb, hleast⟩ := h.exists_least
  have hsorted := hl ▸ h.sorted
  have hinfinite : ∃ last ∈ (b, c) :: l, last.1 = ⊤ ∧ rank ≤ last.2 :=
    ⟨_, hl ▸ mem_sortBuckets.mpr h.infinite, rfl, htotal⟩
  have hskip (hnot : c < rank) : LoopInside buckets rank := by
    obtain ⟨u, rfl, hclimbs⟩ := climbs_tail hsorted hinfinite hnot
    obtain ⟨x, hx, hux, -, d, hfalls, hinside⟩ := findBucket_inside hclimbs
    refine ⟨x, ?_, d, hl ▸ hfalls.cons hnot, hl ▸ hinside.cons hux⟩
    rw [hl, ← hx]
    simp [findBucket, hnot.not_ge]
  have hclimb (hpos : b = ⊤ ∨ (0 < b ∧ 0 < c)) : LoopInside buckets rank := by
    obtain ⟨x, hx, -, -, d, hfalls, hinside⟩ := findBucket_inside (h.climbs hl hpos h0 htotal)
    exact ⟨x, hl ▸ hx, d, hl ▸ hfalls, hl ▸ hinside⟩
  rcases hfits (b, c) hb hleast with htop | hzero | hneg | hpos
  · exact hclimb (.inl htop)
  · -- the first bucket ends at zero, where the interpolation would start
    rcases le_or_gt rank c with hc | hc
    · obtain rfl : b = 0 := hzero
      have hnot : ∀ a ∈ sortBuckets buckets, ¬a.1 < 0 := fun a ha => (hleast a (mem_sortBuckets.mp ha)).not_gt
      refine ⟨0, by rw [hl]; simp [findBucket, hc, interpolate], (0, c), ⟨hl ▸ List.mem_cons_self, hc, ?_⟩, le_rfl, ?_⟩
      · exact fun a ha hlt => absurd hlt (hnot a ha)
      · exact fun a ha hlt => absurd hlt (hnot a ha)
    · exact hskip hc
  · exact hskip (lt_of_lt_of_le hneg h0)
  · exact hclimb (.inr hpos)

/-- The values of two ranks that the loop finds are in the order of the ranks, and neither is above every finite
    bound. -/
theorem Cumulative.loop_mono (h : Cumulative buckets total) (hfits : LowestFits buckets)
    (hpositive : ∀ b ∈ buckets, 0 < b.1) {rank₁ rank₂ : ℚ} (h0 : 0 ≤ rank₁) (hle : rank₁ ≤ rank₂)
    (htotal : rank₂ ≤ total) : ∃ x₁ x₂ : ℚ,
      findBucket rank₁ 0 0 (sortBuckets buckets) = some (.value x₁) ∧
      findBucket rank₂ 0 0 (sortBuckets buckets) = some (.value x₂) ∧
      0 ≤ x₁ ∧ x₁ ≤ x₂ ∧ (x₂ = 0 ∨ ∃ u c : ℚ, (↑u, c) ∈ buckets ∧ x₂ ≤ u) := by
  obtain ⟨⟨b, c⟩, l, hl, hb, hleast⟩ := h.exists_least
  have hfinite {x₂ : ℚ} {l' : List HistogramBucket} (hsub : ∀ a ∈ l', a ∈ buckets)
      (hx : ∃ u c : ℚ, (↑u, c) ∈ l' ∧ x₂ ≤ u) : ∃ u c : ℚ, (↑u, c) ∈ buckets ∧ x₂ ≤ u := by
    obtain ⟨u, c, hmem, hxu⟩ := hx
    exact ⟨u, c, hsub _ hmem, hxu⟩
  have hsub : ∀ a ∈ (b, c) :: l, a ∈ buckets := fun a ha => mem_sortBuckets.mp (hl ▸ ha)
  rw [hl]
  rcases lt_or_ge c 0 with hneg | hcount
  · -- no rank falls in a bucket of a negative count
    have hinfinite {rank : ℚ} (hrank : rank ≤ total) : ∃ last ∈ (b, c) :: l, last.1 = ⊤ ∧ rank ≤ last.2 :=
      ⟨_, hl ▸ mem_sortBuckets.mpr h.infinite, rfl, hrank⟩
    obtain ⟨u, rfl, hclimbs₁⟩ := climbs_tail (hl ▸ h.sorted) (hinfinite (hle.trans htotal)) (hneg.trans_le h0)
    obtain ⟨v, hv, hclimbs₂⟩ := climbs_tail (hl ▸ h.sorted) (hinfinite htotal) (hneg.trans_le (h0.trans hle))
    obtain rfl : u = v := by exact_mod_cast hv
    have hu : 0 < u := WithTop.coe_lt_coe.mp (hpositive _ hb)
    obtain ⟨x₁, x₂, hx₁, hx₂, hlow, hx, hhigh⟩ := findBucket_bounded hle hclimbs₁ hclimbs₂
    refine ⟨x₁, x₂, ?_, ?_, hu.le.trans hlow, hx, .inr ?_⟩
    · rw [← hx₁]
      simp [findBucket, (hneg.trans_le h0).not_ge]
    · rw [← hx₂]
      simp [findBucket, (hneg.trans_le (h0.trans hle)).not_ge]
    · rcases hhigh with rfl | hhigh
      · exact ⟨x₂, c, hb, le_rfl⟩
      · exact hfinite (fun a ha => hsub a (List.mem_cons_of_mem _ ha)) hhigh
  · have hpos : b = ⊤ ∨ (0 < b ∧ 0 < c) := by
      rcases hfits (b, c) hb hleast with htop | hzero | hneg | hpos
      · exact .inl htop
      · exact absurd hzero (hpositive _ hb).ne'
      · exact absurd hneg hcount.not_gt
      · exact .inr hpos
    have hclimbs₁ := h.climbs hl hpos h0 (hle.trans htotal)
    have hclimbs₂ := h.climbs hl hpos (h0.trans hle) htotal
    obtain ⟨x₁, x₂, hx₁, hx₂, hlow, hx, hhigh⟩ := findBucket_bounded hle hclimbs₁ hclimbs₂
    exact ⟨x₁, x₂, hx₁, hx₂, hlow, hx, hhigh.imp id (hfinite hsub)⟩

theorem quantileSound_of_fits (hread : ReadsAs parse entries buckets) (h : Cumulative buckets total)
    (hfits : LowestFits buckets) : QuantileSound parse entries buckets total where
  monotone hpositive q₁ q₂ h0 hle h1 := by
    have hrank := mul_le_mul_of_nonneg_right hle h.positive.le
    obtain ⟨x₁, x₂, hx₁, hx₂, hrest⟩ := h.loop_mono hfits hpositive (mul_nonneg h0 h.positive.le) hrank
      (mul_le_of_le_one_left h.positive.le h1)
    refine ⟨x₁, x₂, ?_, ?_, hrest⟩
    · rw [compute_eq hread h h0 (hle.trans h1), hx₁, Option.getD_some]
    · rw [compute_eq hread h (h0.trans hle) h1, hx₂, Option.getD_some]
  inside q h0 h1 := by
    obtain ⟨x, hx, b, hfalls, hinside⟩ := h.loopInside hfits (mul_nonneg h0 h.positive.le)
      (mul_le_of_le_one_left h.positive.le h1)
    refine ⟨x, by rw [compute_eq hread h h0 h1, hx, Option.getD_some], b, ⟨?_, hfalls.reached, ?_⟩, hinside.below, ?_⟩
    · exact mem_sortBuckets.mp hfalls.mem
    · exact fun a ha => hfalls.lowest a (mem_sortBuckets.mpr ha)
    · exact fun a ha => hinside.above a (mem_sortBuckets.mpr ha)

/-- At `q = 0` a lowest bucket of another kind either divides by its count of zero or answers with zero above its
    bound. -/
theorem fits_of_inside (hread : ReadsAs parse entries buckets) (h : Cumulative buckets total)
    (hsound : QuantileSound parse entries buckets total) : LowestFits buckets := by
  intro b hb hleast
  obtain ⟨l, hl⟩ := h.sorted_cons hb hleast
  obtain ⟨bound, count⟩ := b
  obtain ⟨x, hx, d, hfalls, hinside⟩ := hsound.inside 0 le_rfl zero_le_one
  rw [compute_eq hread h le_rfl zero_le_one, hl] at hx
  by_contra hcon
  simp only [not_or, not_and, not_lt] at hcon
  obtain ⟨htop, hzero, hcount, hpos⟩ := hcon
  obtain ⟨u, rfl⟩ := WithTop.ne_top_iff_exists.mp htop
  rcases hcount.eq_or_lt with hc | hc
  · obtain rfl : count = 0 := hc.symm
    have hne : ¬(u : WithTop ℚ) = 0 := hzero
    simp [findBucket, interpolate_zero hne] at hx
  · have hu : (u : WithTop ℚ) < 0 := lt_of_le_of_ne (not_lt.mp fun hlt => (hpos hlt).not_gt hc) hzero
    have hne : ¬(u : WithTop ℚ) = 0 := hzero
    have hzero : x = 0 := by simpa [findBucket, hc.le, interpolate_zero hne, hc.ne', eq_comm] using hx
    have hnot : ¬d.1 ≤ u := fun hle => (hinside.below.trans hle).not_gt (by simpa [hzero] using hu)
    exact (hfalls.lowest _ hb (not_le.mp hnot)).not_gt (by simpa using hc)

/-- The promise holds exactly if the lowest bucket fits. -/
theorem quantileSound_iff (hread : ReadsAs parse entries buckets) (h : Cumulative buckets total) :
    QuantileSound parse entries buckets total ↔ LowestFits buckets :=
  ⟨fits_of_inside hread h, quantileSound_of_fits hread h⟩

/-- Two buckets, of which the lower one ends at one. -/
def pairBuckets (count : ℚ) : List HistogramBucket := [((1 : ℚ), count), (⊤, 3)]

def parsePair (le : String) : Option (WithTop ℚ) := if le = "1" then some (1 : ℚ) else none

theorem cumulative_pair {count : ℚ} (hcount : count ≤ 3) : Cumulative (pairBuckets count) 3 where
  distinct := by simp [pairBuckets]
  infinite := by simp [pairBuckets]
  grows := by simp [pairBuckets, hcount]
  positive := by norm_num

theorem quantileSound_pair : QuantileSound parsePair [("1", 2), ("+Inf", 3)] (pairBuckets 2) 3 ↔
    LowestFits (pairBuckets 2) :=
  quantileSound_iff rfl (cumulative_pair (by norm_num))

/-- With an empty first bucket, zero is divided by zero. -/
theorem not_quantileSound : ¬QuantileSound parsePair [("1", 0), ("+Inf", 3)] (pairBuckets 0) 3 := by
  intro h
  have hread : ReadsAs parsePair [("1", 0), ("+Inf", 3)] (pairBuckets 0) := rfl
  have hfits : LowestFits (pairBuckets 0) := fits_of_inside hread (cumulative_pair (by norm_num)) h
  have hfirst := hfits ((1 : ℚ), 0) List.mem_cons_self (by simp [pairBuckets])
  simp at hfirst

end Reiver.Core
