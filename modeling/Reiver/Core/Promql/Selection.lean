import Mathlib.Data.Nat.Cast.Order.Ring
import Mathlib.Data.Nat.Find
import Mathlib.Tactic.Ring
import Reiver.Lib.Int64
import Reiver.Lib.PartitionPoint

/-! # Instant and range selection

The model of `align_batch` of `instant_manipulate.rs`, `manipulate_batch` of `range_manipulate.rs` and the keys of
`range_array.rs`. Times are `i64` milliseconds. A result of arithmetic outside `i64` has no value here: the code
panics or goes on with the wrapped one. -/

namespace Reiver.Core

inductive FieldSlot where
  | null
  | nan
  | number (bits : Nat)
deriving DecidableEq

/-- Whether there is a field column, and of which type. -/
inductive FieldColumn where
  | absent
  | float64
  | other
deriving DecidableEq

structure PromSample where
  timestamp : Int
  value : FieldSlot
deriving DecidableEq

structure SeriesBatch where
  samples : List PromSample
  field : FieldColumn

def SeriesBatch.timestamps (b : SeriesBatch) : List Int := b.samples.map (·.timestamp)

/-- The `while` loop over the evaluation times: what the body gives for each, `none` if an addition overflows or
    the loop does not end. -/
def evalLoop {β : Type} (body : Int → Option (Option β)) (stop interval alignedTs : Int) : Option (List β) :=
  if alignedTs ≤ stop then
    (body alignedTs).bind fun row =>
      if 0 < interval ∧ alignedTs + interval ≤ int64Max then
        (evalLoop body stop interval (alignedTs + interval)).map (row.toList ++ ·)
      else none
  else some []
termination_by (stop + 1 - alignedTs).toNat
decreasing_by omega

/-! ### Instant selection -/

/-- A stale marker, as far as the field column is read for one. -/
def SeriesBatch.isStale (b : SeriesBatch) (s : PromSample) : Bool :=
  decide (b.field = .float64) && (decide (s.value = .null) || decide (s.value = .nan))

/-- The inner loop, over the rows from an index on. -/
def SeriesBatch.findBest (b : SeriesBatch) (lookbackStart alignedTs : Int) :
    Nat → List PromSample → Option Nat → Option Nat
  | _, [], best => best
  | i, s :: rest, best =>
    if s.timestamp > alignedTs then best
    else if s.timestamp ≥ lookbackStart then
      if b.isStale s then b.findBest lookbackStart alignedTs (i + 1) rest none
      else b.findBest lookbackStart alignedTs (i + 1) rest (some i)
    else b.findBest lookbackStart alignedTs (i + 1) rest best

/-- The rows taken and the times they are taken for. -/
structure AlignedBatch where
  takeIndices : List (BitVec 32)
  evalTimestamps : List Int
deriving DecidableEq

def SeriesBatch.alignAt (b : SeriesBatch) (lookbackDelta alignedTs : Int) : Option (Option (Int × Nat)) :=
  if InInt64 (alignedTs - lookbackDelta) then
    some ((b.findBest (alignedTs - lookbackDelta) alignedTs 0 b.samples none).map (alignedTs, ·))
  else none

def SeriesBatch.alignBatch (b : SeriesBatch) (start stop lookbackDelta interval : Int) : Option (Option AlignedBatch) :=
  if b.samples.length = 0 then some none
  else
    (evalLoop (b.alignAt lookbackDelta) stop interval start).map fun emitted =>
      if emitted = [] then none
      else some ⟨emitted.map fun e => BitVec.ofNat 32 e.2, emitted.map (·.1)⟩

/-! ### Range selection -/

/-- `bytemuck::cast` of two words, in the order of the machine. -/
def pack (littleEndian : Bool) (offset length : BitVec 32) : BitVec 64 :=
  if littleEndian then length ++ offset else offset ++ length

def unpack (littleEndian : Bool) (compound : BitVec 64) : BitVec 32 × BitVec 32 :=
  if littleEndian then (compound.extractLsb' 0 32, compound.extractLsb' 32 32)
  else (compound.extractLsb' 32 32, compound.extractLsb' 0 32)

theorem unpack_pack (littleEndian : Bool) (offset length : BitVec 32) :
    unpack littleEndian (pack littleEndian offset length) = (offset, length) := by
  cases littleEndian
  · exact Prod.ext (BitVec.extractLsb'_append_eq_left) (BitVec.extractLsb'_append_eq_right)
  · exact Prod.ext (BitVec.extractLsb'_append_eq_right) (BitVec.extractLsb'_append_eq_left)

def checkRanges (valueLen : Nat) (ranges : List (BitVec 32 × BitVec 32)) : Bool :=
  ranges.all fun r => r.1.toNat + r.2.toNat ≤ valueLen

/-- The keys of the range arrays and the times they are for. -/
structure ManipulatedBatch where
  keys : List (BitVec 64)
  evalTimestamps : List Int
deriving DecidableEq

def SeriesBatch.windowAt (b : SeriesBatch) (range alignedTs : Int) :
    Option (Option (Int × BitVec 32 × BitVec 32)) :=
  if InInt64 (alignedTs - range) then
    let left := partitionPoint (fun t => t < alignedTs - range) b.timestamps
    let right := partitionPoint (fun t => t ≤ alignedTs) b.timestamps
    some (if left < right then some (alignedTs, BitVec.ofNat 32 left, BitVec.ofNat 32 (right - left)) else none)
  else none

def SeriesBatch.manipulateBatch (b : SeriesBatch) (littleEndian : Bool) (start stop range interval : Int) :
    Option (Option ManipulatedBatch) :=
  if b.samples.length = 0 then some none
  else
    (evalLoop (b.windowAt range) stop interval start).bind fun emitted =>
      if emitted = [] then some none
      else if checkRanges b.samples.length (emitted.map (·.2)) then
        some (some ⟨emitted.map fun e => pack littleEndian e.2.1 e.2.2, emitted.map (·.1)⟩)
      else none

end Reiver.Core

/-! # Selection against its definition

At each evaluation time an instant selector gives the most recent sample of its lookback, unless that is stale,
and a range selector all samples of its range. The loop of the first does so exactly when its arithmetic stays in
`i64`, a `u32` names the samples taken, and a column that may hold markers is one it reads. -/

namespace Reiver.Core

/-- `start + k * step`, up to the end. -/
def IsEvalTime (start stop step t : Int) : Prop := ∃ k : Nat, t = start + k * step ∧ t ≤ stop

section Loop
variable {β : Type} {body : Int → Option (Option β)} {key : β → Int} {start stop step t : Int} {rows : List β}

theorem isEvalTime_iff (hstep : 0 < step) :
    IsEvalTime start stop step t ↔ start ≤ stop ∧ (t = start ∨ IsEvalTime (start + step) stop step t) := by
  constructor
  · rintro ⟨k, rfl, hle⟩
    cases k with
    | zero =>
      rw [Nat.cast_zero, Int.zero_mul, Int.add_zero] at hle ⊢
      exact ⟨hle, Or.inl rfl⟩
    | succ k =>
      have hnext : start + ((k + 1 : Nat) : Int) * step = start + step + k * step := by push_cast; ring
      have hpos : 0 ≤ (k : Int) * step := Int.mul_nonneg (Int.natCast_nonneg k) hstep.le
      rw [hnext] at hle ⊢
      exact ⟨by omega, Or.inr ⟨k, rfl, hle⟩⟩
  · rintro ⟨hle, rfl | ⟨k, rfl, hk⟩⟩
    · exact ⟨0, by simp, hle⟩
    · exact ⟨k + 1, by push_cast; ring, hk⟩

theorem le_of_isEvalTime (hstep : 0 < step) (h : IsEvalTime start stop step t) : start ≤ t := by
  obtain ⟨k, rfl, -⟩ := h
  have hpos : 0 ≤ (k : Int) * step := Int.mul_nonneg (Int.natCast_nonneg k) hstep.le
  omega

/-- The loop returns what the body gives for each evaluation time, in order, if nothing overflows. -/
structure LoopRows (body : Int → Option (Option β)) (key : β → Int) (start stop step : Int) (rows : List β) : Prop where
  inRange : ∀ t, IsEvalTime start stop step t → (body t).isSome ∧ t + step ≤ int64Max
  mem : ∀ x, x ∈ rows ↔ ∃ t, IsEvalTime start stop step t ∧ body t = some (some x)
  order : rows.Pairwise fun a b => key a < key b

theorem evalLoop_spec (start stop : Int) (hstep : 0 < step) (hkey : ∀ t x, body t = some (some x) → key x = t) :
    ((∀ t, IsEvalTime start stop step t → (body t).isSome ∧ t + step ≤ int64Max) →
      ∃ rows, evalLoop body stop step start = some rows) ∧
    ∀ rows, evalLoop body stop step start = some rows → LoopRows body key start stop step rows := by
  by_cases hle : start ≤ stop
  · have hfirst : IsEvalTime start stop step start := (isEvalTime_iff hstep).mpr ⟨hle, Or.inl rfl⟩
    have hlater : ∀ t, IsEvalTime (start + step) stop step t → IsEvalTime start stop step t := fun t ht =>
      (isEvalTime_iff hstep).mpr ⟨hle, Or.inr ht⟩
    obtain ⟨hreturns, hrows⟩ := evalLoop_spec (start + step) stop hstep hkey
    constructor
    · intro hrange
      obtain ⟨row, hrow⟩ := Option.isSome_iff_exists.mp (hrange start hfirst).1
      obtain ⟨rows, hrest⟩ := hreturns fun t ht => hrange t (hlater t ht)
      refine ⟨row.toList ++ rows, ?_⟩
      rw [evalLoop, if_pos hle, hrow, Option.bind_some, if_pos ⟨hstep, (hrange start hfirst).2⟩, hrest, Option.map_some]
    · intro rows hloop
      rw [evalLoop, if_pos hle] at hloop
      obtain ⟨row, hrow, hloop⟩ := Option.bind_eq_some_iff.mp hloop
      split at hloop
      · next hadd =>
        obtain ⟨rest, hrest, rfl⟩ := Option.map_eq_some_iff.mp hloop
        obtain ⟨hrange, hmem, horder⟩ := hrows rest hrest
        refine ⟨fun t ht => ?_, fun x => ?_, ?_⟩
        · rcases ((isEvalTime_iff hstep).mp ht).2 with rfl | ht
          · exact ⟨hrow ▸ rfl, hadd.2⟩
          · exact hrange t ht
        · rw [List.mem_append, Option.mem_toList, hmem]
          constructor
          · rintro (rfl | ⟨t, ht, hx⟩)
            · exact ⟨start, hfirst, hrow⟩
            · exact ⟨t, hlater t ht, hx⟩
          · rintro ⟨t, ht, hx⟩
            rcases ((isEvalTime_iff hstep).mp ht).2 with rfl | ht
            · exact Or.inl (Option.some.inj (hrow.symm.trans hx))
            · exact Or.inr ⟨t, ht, hx⟩
        · refine List.pairwise_append.mpr ⟨?_, horder, fun x hx y hy => ?_⟩
          · cases row with
            | none => exact List.Pairwise.nil
            | some x => exact List.pairwise_singleton _ _
          · obtain ⟨t, ht, hy⟩ := (hmem y).mp hy
            obtain rfl := Option.mem_toList.mp hx
            have hle' := le_of_isEvalTime hstep ht
            rw [hkey start x hrow, hkey t y hy]
            omega
      · cases hloop
  · have hnone : ∀ t, ¬IsEvalTime start stop step t := fun t ht => hle ((isEvalTime_iff hstep).mp ht).1
    have hloop : evalLoop body stop step start = some [] := by rw [evalLoop, if_neg hle]
    refine ⟨fun _ => ⟨[], hloop⟩, fun rows hrows => ?_⟩
    cases hloop.symm.trans hrows
    refine ⟨fun t ht => (hnone t ht).elim, fun x => iff_of_false (fun hx => nomatch hx) ?_, List.Pairwise.nil⟩
    rintro ⟨t, ht, -⟩
    exact hnone t ht
termination_by (stop + 1 - start).toNat
decreasing_by omega

end Loop

/-! ### The definition -/

section Definition
variable (b : SeriesBatch) (width t : Int) (i : Nat)

/-- The sample is in the closed window up to `t`. -/
def SeriesBatch.InWindow : Prop :=
  ∃ s, b.samples[i]? = some s ∧ t - width ≤ s.timestamp ∧ s.timestamp ≤ t

def SeriesBatch.IsLatest : Prop := b.InWindow width t i ∧ ∀ j, b.InWindow width t j → j ≤ i

def SeriesBatch.Fresh : Prop :=
  b.field = .absent ∨ ∃ s bits, b.samples[i]? = some s ∧ s.value = .number bits

def SeriesBatch.Sorted : Prop := b.samples.Pairwise fun s s' => s.timestamp ≤ s'.timestamp

end Definition

variable {b : SeriesBatch} {start stop width t : Int} {i j : Nat}

theorem SeriesBatch.IsLatest.unique (hi : b.IsLatest width t i) (hj : b.IsLatest width t j) : i = j :=
  Nat.le_antisymm (hj.2 i hi.1) (hi.2 j hj.1)

theorem exists_isLatest (h : b.InWindow width t i) : ∃ j, b.IsLatest width t j := by
  classical
  have hbound : ∀ j, b.InWindow width t j → j ≤ b.samples.length := fun j ⟨_, hj, _⟩ =>
    (List.getElem?_eq_some_iff.mp hj).1.le
  exact ⟨Nat.findGreatest (b.InWindow width t) b.samples.length, Nat.findGreatest_spec (hbound i h) h,
    fun j hj => Nat.le_findGreatest (hbound j hj) hj⟩

/-! ### The inner loop of `align_batch` -/

section FindBest
variable {l : List PromSample} {lo hi : Int} {s : PromSample} {k : Nat} {best : Option Nat}

theorem findBest_of_outside (h : ∀ s ∈ l, ¬(lo ≤ s.timestamp ∧ s.timestamp ≤ hi)) :
    b.findBest lo hi i l best = best := by
  induction l generalizing i best with
  | nil => rfl
  | cons s l ih =>
    have hs := h s List.mem_cons_self
    rw [SeriesBatch.findBest]
    split
    · rfl
    · rw [if_neg (by omega)]
      exact ih fun s hs => h s (List.mem_cons_of_mem _ hs)

theorem findBest_of_latest (hl : l.Pairwise fun s s' => s.timestamp ≤ s'.timestamp) (hk : l[k]? = some s)
    (hlo : lo ≤ s.timestamp) (hhi : s.timestamp ≤ hi)
    (hlast : ∀ k' s', l[k']? = some s' → k < k' → ¬(lo ≤ s'.timestamp ∧ s'.timestamp ≤ hi)) :
    b.findBest lo hi i l best = if b.isStale s then none else some (i + k) := by
  induction l generalizing i k best with
  | nil => cases hk
  | cons s₀ l ih =>
    obtain ⟨hs₀, hl⟩ := List.pairwise_cons.mp hl
    rw [SeriesBatch.findBest]
    cases k with
    | zero =>
      cases Option.some.inj hk
      have houtside : ∀ s' ∈ l, ¬(lo ≤ s'.timestamp ∧ s'.timestamp ≤ hi) := fun s' hs' => by
        obtain ⟨k', hk'⟩ := List.getElem?_of_mem hs'
        exact hlast (k' + 1) s' hk' (Nat.succ_pos _)
      rw [if_neg (by omega), if_pos hlo, findBest_of_outside houtside, findBest_of_outside houtside, Nat.add_zero]
    | succ k =>
      have hbefore : s₀.timestamp ≤ s.timestamp := hs₀ s (List.mem_of_getElem? hk)
      have hrest : ∀ best', b.findBest lo hi (i + 1) l best' = if b.isStale s then none else some (i + (k + 1)) :=
        fun best' => by
          rw [ih hl hk fun k' s' hk' hlt => hlast (k' + 1) s' hk' (Nat.succ_lt_succ hlt)]
          congr 2
          omega
      rw [if_neg (by omega), hrest, hrest, hrest, ite_self, ite_self]

end FindBest

theorem findBest_eq_some_iff (hsorted : b.Sorted) :
    b.findBest (t - width) t 0 b.samples none = some i ↔
      b.IsLatest width t i ∧ ∀ s, b.samples[i]? = some s → b.isStale s = false := by
  have hfound : ∀ {j s}, b.samples[j]? = some s → b.IsLatest width t j →
      b.findBest (t - width) t 0 b.samples none = if b.isStale s then none else some j := by
    rintro j s hj ⟨⟨s', hj', hlo, hhi⟩, hlast⟩
    cases hj.symm.trans hj'
    rw [findBest_of_latest hsorted hj hlo hhi, Nat.zero_add]
    intro k' s' hk' hlt hwindow
    exact absurd (hlast k' ⟨s', hk', hwindow⟩) (Nat.not_le.mpr hlt)
  constructor
  · intro h
    obtain ⟨j, hj⟩ : ∃ j, b.IsLatest width t j := by
      by_contra hnone
      have houtside : ∀ s ∈ b.samples, ¬(t - width ≤ s.timestamp ∧ s.timestamp ≤ t) := by
        intro s hs hwindow
        obtain ⟨k, hk⟩ := List.getElem?_of_mem hs
        exact hnone (exists_isLatest ⟨s, hk, hwindow⟩)
      rw [findBest_of_outside houtside] at h
      cases h
    obtain ⟨s, hs, -⟩ := id hj.1
    rw [hfound hs hj] at h
    split at h
    · cases h
    · next hstale =>
      cases Option.some.inj h
      refine ⟨hj, fun s' hs' => ?_⟩
      cases hs.symm.trans hs'
      exact eq_false_of_ne_true hstale
  · rintro ⟨hlatest, hstale⟩
    obtain ⟨s, hs, -⟩ := id hlatest.1
    rw [hfound hs hlatest, hstale s hs]
    rfl

theorem fresh_or_not_iff (hi : b.InWindow width t i) :
    (∀ s, b.samples[i]? = some s → b.isStale s = false) ↔ b.Fresh i ∨ b.field = .other := by
  obtain ⟨s, hs, -⟩ := hi
  constructor
  · intro hstale
    have hs' := hstale s hs
    rcases hfield : b.field with _ | _ | _
    · exact Or.inl (Or.inl hfield)
    · rcases hvalue : s.value with _ | _ | bits
      · simp [SeriesBatch.isStale, hfield, hvalue] at hs'
      · simp [SeriesBatch.isStale, hfield, hvalue] at hs'
      · exact Or.inl (Or.inr ⟨s, bits, hs, hvalue⟩)
    · exact Or.inr rfl
  · intro h s' hs'
    cases hs.symm.trans hs'
    rcases h with (hfield | ⟨s', bits, hs', hvalue⟩) | hfield
    · simp [SeriesBatch.isStale, hfield]
    · cases hs.symm.trans hs'
      simp [SeriesBatch.isStale, hvalue]
    · simp [SeriesBatch.isStale, hfield]

/-! ### Instant selection -/

def AlignedBatch.rows (a : AlignedBatch) : List (Int × Nat) := a.evalTimestamps.zip (a.takeIndices.map (·.toNat))

/-- One row for each evaluation time whose latest sample is fresh, with that sample. -/
def SeriesBatch.AlignExact (b : SeriesBatch) (start stop lookback step : Int) : Prop :=
  ∃ out, b.alignBatch start stop lookback step = some out ∧
    ((out.map (·.rows)).getD []).Pairwise (fun r r' => r.1 < r'.1) ∧
    ∀ t i, (t, i) ∈ (out.map (·.rows)).getD [] ↔ IsEvalTime start stop step t ∧ b.IsLatest lookback t i ∧ b.Fresh i

theorem alignAt_isSome : (b.alignAt width t).isSome ↔ InInt64 (t - width) := by
  rw [SeriesBatch.alignAt]
  split
  · next hrange => exact iff_of_true rfl hrange
  · next hrange => exact iff_of_false (fun h => nomatch h) hrange

theorem alignAt_eq_some_iff (hsorted : b.Sorted) {e : Int × Nat} :
    b.alignAt width t = some (some e) ↔
      InInt64 (t - width) ∧ e.1 = t ∧ b.IsLatest width t e.2 ∧ (b.Fresh e.2 ∨ b.field = .other) := by
  rw [SeriesBatch.alignAt]
  split
  · next hrange =>
    rw [Option.some.injEq, Option.map_eq_some_iff]
    constructor
    · rintro ⟨i, hi, rfl⟩
      obtain ⟨hlatest, hstale⟩ := (findBest_eq_some_iff hsorted).mp hi
      exact ⟨hrange, rfl, hlatest, (fresh_or_not_iff hlatest.1).mp hstale⟩
    · rintro ⟨-, rfl, hlatest, hfresh⟩
      exact ⟨e.2, (findBest_eq_some_iff hsorted).mpr ⟨hlatest, (fresh_or_not_iff hlatest.1).mpr hfresh⟩, rfl⟩
  · next hrange => exact iff_of_false (fun h => nomatch h) fun h => hrange h.1

/-- The index of the row as the `u32` it is taken by. -/
def takenRow (e : Int × Nat) : Int × Nat := (e.1, e.2 % 4294967296)

theorem alignBatch_eq_some_iff {lookback step : Int} {rows : List (Int × Nat)} (hne : b.samples.length ≠ 0) :
    (∃ out, b.alignBatch start stop lookback step = some out ∧ (out.map (·.rows)).getD [] = rows) ↔
      ∃ emitted, evalLoop (b.alignAt lookback) stop step start = some emitted ∧ emitted.map takenRow = rows := by
  have hrows : ∀ emitted : List (Int × Nat),
      (Option.map AlignedBatch.rows (if emitted = [] then none
        else some ⟨emitted.map fun e => BitVec.ofNat 32 e.2, emitted.map (·.1)⟩)).getD [] = emitted.map takenRow := by
    intro emitted
    split
    · next hnil => rw [hnil]; rfl
    · simp [AlignedBatch.rows, List.map_map, List.zip_map', Function.comp_def, takenRow]
  rw [SeriesBatch.alignBatch, if_neg hne]
  constructor
  · rintro ⟨out, hout, rfl⟩
    obtain ⟨emitted, hloop, rfl⟩ := Option.map_eq_some_iff.mp hout
    exact ⟨emitted, hloop, (hrows emitted).symm⟩
  · rintro ⟨emitted, hloop, rfl⟩
    exact ⟨_, Option.map_eq_some_iff.mpr ⟨emitted, hloop, rfl⟩, hrows emitted⟩

theorem mem_takenRows_iff {step : Int} {emitted : List (Int × Nat)} (hsorted : b.Sorted)
    (hrows : LoopRows (b.alignAt width) (·.1) start stop step emitted) :
    (t, i) ∈ emitted.map takenRow ↔ IsEvalTime start stop step t ∧
      ∃ j, b.IsLatest width t j ∧ (b.Fresh j ∨ b.field = .other) ∧ j % 4294967296 = i := by
  rw [List.mem_map]
  constructor
  · rintro ⟨e, he, heq⟩
    obtain ⟨t', ht', hat⟩ := (hrows.mem e).mp he
    obtain ⟨-, rfl, hlatest, hfresh⟩ := (alignAt_eq_some_iff hsorted).mp hat
    obtain ⟨rfl, rfl⟩ := Prod.mk.inj heq
    exact ⟨ht', e.2, hlatest, hfresh, rfl⟩
  · rintro ⟨ht, j, hlatest, hfresh, rfl⟩
    have hlo : InInt64 (t - width) := alignAt_isSome.mp (hrows.inRange t ht).1
    exact ⟨(t, j), (hrows.mem _).mpr ⟨t, ht, (alignAt_eq_some_iff hsorted).mpr ⟨hlo, rfl, hlatest, hfresh⟩⟩, rfl⟩

/-- At an evaluation time: the window starts in `i64`, a `u32` names the sample taken, and a column that holds
    a marker is read for it. -/
structure SeriesBatch.Takeable (b : SeriesBatch) (lookback t : Int) : Prop where
  lookbackStart : InInt64 (t - lookback)
  index : ∀ i, b.IsLatest lookback t i → b.Fresh i → i < 4294967296
  marker : ∀ i, b.IsLatest lookback t i → ¬b.Fresh i → b.field ≠ .other

theorem taken_iff_takeable (hlo : InInt64 (t - width)) :
    (∀ i, (∃ j, b.IsLatest width t j ∧ (b.Fresh j ∨ b.field = .other) ∧ j % 4294967296 = i) ↔
      b.IsLatest width t i ∧ b.Fresh i) ↔ b.Takeable width t := by
  constructor
  · intro h
    refine ⟨hlo, fun i hi hfresh => ?_, fun i hi hstale hother => ?_⟩
    · obtain ⟨j, hj, -, hji⟩ := (h i).mpr ⟨hi, hfresh⟩
      obtain rfl := hj.unique hi
      omega
    · obtain ⟨hlatest, hfresh⟩ := (h (i % 4294967296)).mp ⟨i, hi, Or.inr hother, rfl⟩
      rw [hlatest.unique hi] at hfresh
      exact hstale hfresh
  · intro h i
    constructor
    · rintro ⟨j, hj, hfresh, rfl⟩
      have hfresh : b.Fresh j := by
        by_contra hstale
        exact h.marker j hj hstale (hfresh.resolve_left hstale)
      rw [Nat.mod_eq_of_lt (h.index j hj hfresh)]
      exact ⟨hj, hfresh⟩
    · rintro ⟨hi, hfresh⟩
      exact ⟨i, hi, Or.inl hfresh, Nat.mod_eq_of_lt (h.index i hi hfresh)⟩

theorem alignExact_iff {lookback step : Int} (hsorted : b.Sorted) (hstep : 0 < step) (hne : b.samples.length ≠ 0) :
    b.AlignExact start stop lookback step ↔
      ∀ t, IsEvalTime start stop step t → t + step ≤ int64Max ∧ b.Takeable lookback t := by
  have hkey : ∀ t e, b.alignAt lookback t = some (some e) → e.1 = t := fun t e h =>
    ((alignAt_eq_some_iff hsorted).mp h).2.1
  have hspec := evalLoop_spec start stop hstep hkey
  constructor
  · rintro ⟨out, halign, -, hmem⟩ t ht
    obtain ⟨emitted, hloop, hrows⟩ := (alignBatch_eq_some_iff hne).mp ⟨out, halign, rfl⟩
    have hloopRows := hspec.2 emitted hloop
    obtain ⟨hsome, hnext⟩ := hloopRows.inRange t ht
    refine ⟨hnext, (taken_iff_takeable (alignAt_isSome.mp hsome)).mp fun i => ?_⟩
    have hrow := (mem_takenRows_iff hsorted hloopRows (i := i)).symm.trans (hrows ▸ hmem t i)
    exact (and_iff_right ht).symm.trans (hrow.trans (and_iff_right ht))
  · intro h
    obtain ⟨emitted, hloop⟩ := hspec.1 fun t ht => ⟨alignAt_isSome.mpr (h t ht).2.lookbackStart, (h t ht).1⟩
    have hloopRows := hspec.2 emitted hloop
    obtain ⟨out, halign, hrows⟩ := (alignBatch_eq_some_iff hne).mpr ⟨emitted, hloop, rfl⟩
    refine ⟨out, halign, ?_, fun t i => ?_⟩
    · rw [hrows]
      exact List.pairwise_map.mpr hloopRows.order
    · rw [hrows, mem_takenRows_iff hsorted hloopRows]
      exact and_congr_right fun ht => (taken_iff_takeable (h t ht).2.lookbackStart).mpr (h t ht).2 i

end Reiver.Core
