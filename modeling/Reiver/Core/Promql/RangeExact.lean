import Reiver.Core.Promql.Selection

/-! # Ranges against their definition

The two borders found by binary search are those of the window, and its key unpacks to it unless a border or a
length is more than a `u32`. -/

namespace Reiver.Core

variable {b : SeriesBatch} {start stop width t : Int} {i j : Nat}

/-! ### Range selection -/

def ManipulatedBatch.rows (m : ManipulatedBatch) : List (Int × BitVec 64) := m.evalTimestamps.zip m.keys

/-- One row for each evaluation time whose window is not empty, with a key that unpacks to the window. -/
def SeriesBatch.ManipulateExact (b : SeriesBatch) (littleEndian : Bool) (start stop range step : Int) : Prop :=
  ∃ out, b.manipulateBatch littleEndian start stop range step = some out ∧
    ((out.map (·.rows)).getD []).Pairwise (fun r r' => r.1 < r'.1) ∧
    (∀ t, (∃ key, (t, key) ∈ (out.map (·.rows)).getD []) ↔ IsEvalTime start stop step t ∧ ∃ i, b.InWindow range t i) ∧
    ∀ t key, (t, key) ∈ (out.map (·.rows)).getD [] → ∀ i, b.InWindow range t i ↔
      (unpack littleEndian key).1.toNat ≤ i ∧
        i < (unpack littleEndian key).1.toNat + (unpack littleEndian key).2.toNat

section Pack
variable (littleEndian : Bool) (key : BitVec 64)

theorem pack_unpack : pack littleEndian (unpack littleEndian key).1 (unpack littleEndian key).2 = key := by
  have hwords : (key.extractLsb' 32 32 ++ key.extractLsb' 0 32 : BitVec 64) = key := by
    rw [BitVec.extractLsb'_append_extractLsb'_eq_extractLsb' (by rfl), BitVec.extractLsb'_eq_self]
  cases littleEndian
  · simp only [pack, unpack, Bool.false_eq_true, if_false]
    exact hwords
  · simp only [pack, unpack, if_true]
    exact hwords

end Pack

def SeriesBatch.left (b : SeriesBatch) (range t : Int) : Nat := partitionPoint (fun u => u < t - range) b.timestamps

def SeriesBatch.right (b : SeriesBatch) (t : Int) : Nat := partitionPoint (fun u => u ≤ t) b.timestamps

theorem inWindow_iff (hsorted : b.Sorted) : b.InWindow width t i ↔ b.left width t ≤ i ∧ i < b.right t := by
  have htimes : b.timestamps.Pairwise (· ≤ ·) := List.pairwise_map.mpr hsorted
  cases hi : b.samples[i]? with
  | none =>
    have hnone : b.timestamps[i]? = none := by rw [SeriesBatch.timestamps, List.getElem?_map, hi]; rfl
    refine iff_of_false (fun ⟨s, hs, _⟩ => ?_) fun h => not_lt_partitionPoint hnone h.2
    cases hi.symm.trans hs
  | some s =>
    have hsome : b.timestamps[i]? = some s.timestamp := by rw [SeriesBatch.timestamps, List.getElem?_map, hi]; rfl
    have hright : i < b.right t ↔ s.timestamp ≤ t := by
      refine (lt_partitionPoint_iff (htimes.imp fun {u v} huv hv => ?_) hsome).trans decide_eq_true_iff
      exact decide_eq_true (huv.trans (of_decide_eq_true hv))
    have hleft : i < b.left width t ↔ s.timestamp < t - width := by
      refine (lt_partitionPoint_iff (htimes.imp fun {u v} huv hv => ?_) hsome).trans decide_eq_true_iff
      exact decide_eq_true (huv.trans_lt (of_decide_eq_true hv))
    rw [hright, ← Nat.not_lt, hleft, Int.not_lt]
    constructor
    · rintro ⟨s', hs', hlo, hhi⟩
      cases hi.symm.trans hs'
      exact ⟨hlo, hhi⟩
    · rintro ⟨hlo, hhi⟩
      exact ⟨s, hi, hlo, hhi⟩

theorem exists_inWindow_iff (hsorted : b.Sorted) : (∃ i, b.InWindow width t i) ↔ b.left width t < b.right t := by
  constructor
  · rintro ⟨i, hi⟩
    obtain ⟨hle, hlt⟩ := (inWindow_iff hsorted).mp hi
    omega
  · intro h
    exact ⟨b.left width t, (inWindow_iff hsorted).mpr ⟨Nat.le_refl _, h⟩⟩

theorem right_le_length : b.right t ≤ b.samples.length :=
  partitionPoint_le_length.trans (List.length_map _).le

theorem windowAt_isSome : (b.windowAt width t).isSome ↔ InInt64 (t - width) := by
  rw [SeriesBatch.windowAt]
  split
  · next hrange => exact iff_of_true rfl hrange
  · next hrange => exact iff_of_false (fun h => nomatch h) hrange

theorem windowAt_eq_some_iff {e : Int × BitVec 32 × BitVec 32} :
    b.windowAt width t = some (some e) ↔ InInt64 (t - width) ∧ b.left width t < b.right t ∧
      e = (t, BitVec.ofNat 32 (b.left width t), BitVec.ofNat 32 (b.right t - b.left width t)) := by
  rw [SeriesBatch.windowAt]
  split
  · next hrange =>
    rw [and_iff_right hrange, Option.some.injEq]
    change (if b.left width t < b.right t then some _ else none) = some e ↔ _
    split
    · next hlt => rw [and_iff_right hlt, Option.some.injEq]; exact eq_comm
    · next hlt => exact iff_of_false (fun h => nomatch h) fun h => hlt h.1
  · next hrange => exact iff_of_false (fun h => nomatch h) fun h => hrange h.1

/-- The range of the row as the key it is packed into. -/
def packedRow (littleEndian : Bool) (e : Int × BitVec 32 × BitVec 32) : Int × BitVec 64 :=
  (e.1, pack littleEndian e.2.1 e.2.2)

section Rows
variable {littleEndian : Bool} {range step : Int} {emitted : List (Int × BitVec 32 × BitVec 32)}

theorem checkRanges_of_loopRows (hrows : LoopRows (b.windowAt range) (·.1) start stop step emitted) :
    checkRanges b.samples.length (emitted.map (·.2)) = true := by
  refine List.all_eq_true.mpr fun r hr => decide_eq_true ?_
  obtain ⟨e, he, rfl⟩ := List.mem_map.mp hr
  obtain ⟨t, -, hat⟩ := (hrows.mem e).mp he
  obtain ⟨-, hlt, rfl⟩ := windowAt_eq_some_iff.mp hat
  have hlen : b.right t ≤ b.samples.length := right_le_length
  rw [BitVec.toNat_ofNat, BitVec.toNat_ofNat]
  have hoffset := Nat.mod_le (b.left range t) (2 ^ 32)
  have hlength := Nat.mod_le (b.right t - b.left range t) (2 ^ 32)
  omega

theorem manipulateBatch_eq_some_iff {rows : List (Int × BitVec 64)} (hne : b.samples.length ≠ 0)
    (hspec : ∀ emitted, evalLoop (b.windowAt range) stop step start = some emitted →
      LoopRows (b.windowAt range) (·.1) start stop step emitted) :
    (∃ out, b.manipulateBatch littleEndian start stop range step = some out ∧ (out.map (·.rows)).getD [] = rows) ↔
      ∃ emitted, evalLoop (b.windowAt range) stop step start = some emitted ∧
        emitted.map (packedRow littleEndian) = rows := by
  have hrows : ∀ emitted, evalLoop (b.windowAt range) stop step start = some emitted →
      ∃ out, b.manipulateBatch littleEndian start stop range step = some out ∧
        (out.map (·.rows)).getD [] = emitted.map (packedRow littleEndian) := by
    intro emitted hloop
    rw [SeriesBatch.manipulateBatch, if_neg hne, hloop, Option.bind_some,
      if_pos (checkRanges_of_loopRows (hspec emitted hloop))]
    split
    · next hnil => exact ⟨none, rfl, by rw [hnil]; rfl⟩
    · exact ⟨_, rfl, by simp [ManipulatedBatch.rows, List.zip_map', packedRow]⟩
  constructor
  · rintro ⟨out, hout, rfl⟩
    cases hloop : evalLoop (b.windowAt range) stop step start with
    | none =>
      rw [SeriesBatch.manipulateBatch, if_neg hne, hloop] at hout
      cases hout
    | some emitted =>
      obtain ⟨out', hout', hmap⟩ := hrows emitted hloop
      cases hout.symm.trans hout'
      exact ⟨emitted, rfl, hmap.symm⟩
  · rintro ⟨emitted, hloop, rfl⟩
    exact hrows emitted hloop

theorem mem_packedRows_iff {key : BitVec 64} (hrows : LoopRows (b.windowAt range) (·.1) start stop step emitted) :
    (t, key) ∈ emitted.map (packedRow littleEndian) ↔ IsEvalTime start stop step t ∧ b.left range t < b.right t ∧
      key = pack littleEndian (BitVec.ofNat 32 (b.left range t)) (BitVec.ofNat 32 (b.right t - b.left range t)) := by
  rw [List.mem_map]
  constructor
  · rintro ⟨e, he, heq⟩
    obtain ⟨t', ht', hat⟩ := (hrows.mem e).mp he
    obtain ⟨-, hlt, rfl⟩ := windowAt_eq_some_iff.mp hat
    obtain ⟨rfl, rfl⟩ := Prod.mk.inj heq
    exact ⟨ht', hlt, rfl⟩
  · rintro ⟨ht, hlt, rfl⟩
    have hlo : InInt64 (t - range) := windowAt_isSome.mp (hrows.inRange t ht).1
    exact ⟨_, (hrows.mem _).mpr ⟨t, ht, windowAt_eq_some_iff.mpr ⟨hlo, hlt, rfl⟩⟩, rfl⟩

end Rows

/-- At an evaluation time: the window starts in `i64`, and a `u32` holds its first index and its length. -/
structure SeriesBatch.Spannable (b : SeriesBatch) (range t : Int) : Prop where
  rangeStart : InInt64 (t - range)
  offset : ∀ i, b.InWindow range t i → ∃ j, b.InWindow range t j ∧ j < 4294967296
  length : ∀ i j, b.InWindow range t i → b.InWindow range t j → j < i + 4294967295

theorem spanned_iff_spannable (hsorted : b.Sorted) (hlo : InInt64 (t - width)) :
    (b.left width t < b.right t → ∀ i, b.InWindow width t i ↔ (BitVec.ofNat 32 (b.left width t)).toNat ≤ i ∧
      i < (BitVec.ofNat 32 (b.left width t)).toNat + (BitVec.ofNat 32 (b.right t - b.left width t)).toNat) ↔
      b.Spannable width t := by
  simp only [BitVec.toNat_ofNat, inWindow_iff hsorted]
  have hmod : b.left width t % 2 ^ 32 < 2 ^ 32 := Nat.mod_lt _ (by norm_num)
  constructor
  · intro h
    refine ⟨hlo, fun i hi => ?_, fun i j hi hj => ?_⟩
    all_goals rw [inWindow_iff hsorted] at hi
    · have hlt : b.left width t < b.right t := by omega
      have hfirst := (h hlt (b.left width t)).mp ⟨Nat.le_refl _, hlt⟩
      have hback := (h hlt (b.left width t % 2 ^ 32)).mpr ⟨Nat.le_refl _, by omega⟩
      exact ⟨b.left width t, (inWindow_iff hsorted).mpr ⟨Nat.le_refl _, hlt⟩, by omega⟩
    · rw [inWindow_iff hsorted] at hj
      have hlt : b.left width t < b.right t := by omega
      have hlast := (h hlt (b.right t - 1)).mp (by omega)
      have hfirst := (h hlt (b.left width t)).mp ⟨Nat.le_refl _, hlt⟩
      have hlength : (b.right t - b.left width t) % 2 ^ 32 < 2 ^ 32 := Nat.mod_lt _ (by norm_num)
      omega
  · intro h hlt i
    obtain ⟨j, hj, hsmall⟩ := h.offset (b.left width t) ((inWindow_iff hsorted).mpr ⟨Nat.le_refl _, hlt⟩)
    rw [inWindow_iff hsorted] at hj
    have hcount := h.length (b.left width t) (b.right t - 1) ((inWindow_iff hsorted).mpr ⟨Nat.le_refl _, hlt⟩)
      ((inWindow_iff hsorted).mpr (by omega))
    rw [Nat.mod_eq_of_lt (show b.left width t < 2 ^ 32 by omega),
      Nat.mod_eq_of_lt (show b.right t - b.left width t < 2 ^ 32 by omega)]
    omega

theorem manipulateExact_iff {littleEndian : Bool} {range step : Int} (hsorted : b.Sorted) (hstep : 0 < step)
    (hne : b.samples.length ≠ 0) :
    b.ManipulateExact littleEndian start stop range step ↔
      ∀ t, IsEvalTime start stop step t → t + step ≤ int64Max ∧ b.Spannable range t := by
  have hkey : ∀ t e, b.windowAt range t = some (some e) → e.1 = t := fun t e h => by
    rw [(windowAt_eq_some_iff.mp h).2.2]
  have hspec := evalLoop_spec start stop hstep hkey
  constructor
  · rintro ⟨out, hmanipulate, -, -, hspans⟩ t ht
    obtain ⟨emitted, hloop, hrows⟩ := (manipulateBatch_eq_some_iff hne hspec.2).mp ⟨out, hmanipulate, rfl⟩
    have hloopRows := hspec.2 emitted hloop
    obtain ⟨hsome, hnext⟩ := hloopRows.inRange t ht
    refine ⟨hnext, (spanned_iff_spannable hsorted (windowAt_isSome.mp hsome)).mp fun hlt i => ?_⟩
    have hrow := hrows ▸ (mem_packedRows_iff hloopRows).mpr ⟨ht, hlt, rfl⟩
    have hspan := hspans t _ hrow i
    rwa [unpack_pack] at hspan
  · intro h
    obtain ⟨emitted, hloop⟩ := hspec.1 fun t ht => ⟨windowAt_isSome.mpr (h t ht).2.rangeStart, (h t ht).1⟩
    have hloopRows := hspec.2 emitted hloop
    obtain ⟨out, hmanipulate, hrows⟩ := (manipulateBatch_eq_some_iff hne hspec.2).mpr ⟨emitted, hloop, rfl⟩
    refine ⟨out, hmanipulate, ?_, fun t => ?_, fun t key hkey i => ?_⟩
    · rw [hrows]
      exact List.pairwise_map.mpr hloopRows.order
    · rw [hrows, exists_inWindow_iff hsorted]
      constructor
      · rintro ⟨key, hkey⟩
        obtain ⟨ht, hlt, -⟩ := (mem_packedRows_iff hloopRows).mp hkey
        exact ⟨ht, hlt⟩
      · rintro ⟨ht, hlt⟩
        exact ⟨_, (mem_packedRows_iff hloopRows).mpr ⟨ht, hlt, rfl⟩⟩
    · rw [hrows] at hkey
      obtain ⟨ht, hlt, rfl⟩ := (mem_packedRows_iff hloopRows).mp hkey
      rw [unpack_pack]
      exact (spanned_iff_spannable hsorted (h t ht).2.rangeStart).mpr (h t ht).2 hlt i

/-! ### Both -/

/-- Both selections are those of the definition exactly when the series is empty, or every evaluation time is
    followed by another `i64` and its windows can be taken and spanned. -/
theorem selections_exact_iff (b : SeriesBatch) (hsorted : b.Sorted) (littleEndian : Bool) (start stop step : Int)
    (hstep : 0 < step) (lookback range : Int) :
    (b.AlignExact start stop lookback step ∧ b.ManipulateExact littleEndian start stop range step ∧
      (∀ offset length, unpack littleEndian (pack littleEndian offset length) = (offset, length)) ∧
      ∀ key, pack littleEndian (unpack littleEndian key).1 (unpack littleEndian key).2 = key) ↔
    (b.samples = [] ∨ ∀ t, IsEvalTime start stop step t →
      t + step ≤ int64Max ∧ b.Takeable lookback t ∧ b.Spannable range t) := by
  by_cases hne : b.samples.length = 0
  · have hnil : b.samples = [] := List.length_eq_zero_iff.mp hne
    have hempty : ∀ {width t i}, ¬b.InWindow width t i := by
      rintro width t i ⟨s, hs, _⟩
      rw [hnil] at hs
      cases hs
    refine iff_of_true ⟨⟨none, ?_, List.Pairwise.nil, fun t i => ?_⟩, ⟨none, ?_, List.Pairwise.nil, fun t => ?_, ?_⟩,
      unpack_pack littleEndian, pack_unpack littleEndian⟩ (Or.inl hnil)
    · rw [SeriesBatch.alignBatch, if_pos hne]
    · exact iff_of_false List.not_mem_nil fun h => hempty h.2.1.1
    · rw [SeriesBatch.manipulateBatch, if_pos hne]
    · refine iff_of_false ?_ ?_
      · rintro ⟨_, h⟩
        cases h
      · rintro ⟨_, _, h⟩
        exact hempty h
    · intro t key h
      cases h
  · rw [alignExact_iff hsorted hstep hne, manipulateExact_iff hsorted hstep hne]
    constructor
    · rintro ⟨halign, hmanipulate, -⟩
      exact Or.inr fun t ht => ⟨(halign t ht).1, (halign t ht).2, (hmanipulate t ht).2⟩
    · rintro (hnil | h)
      · exact (hne (List.length_eq_zero_iff.mpr hnil)).elim
      · exact ⟨fun t ht => ⟨(h t ht).1, (h t ht).2.1⟩, fun t ht => ⟨(h t ht).1, (h t ht).2.2⟩,
          unpack_pack littleEndian, pack_unpack littleEndian⟩

def markedSeries : SeriesBatch := ⟨[⟨1000, .number 5⟩, ⟨61000, .nan⟩], .float64⟩

theorem selections_exact_markedSeries :
    (markedSeries.AlignExact 0 60000 300000 30000 ∧ markedSeries.ManipulateExact true 0 60000 300000 30000 ∧
      (∀ offset length, unpack true (pack true offset length) = (offset, length)) ∧
      ∀ key, pack true (unpack true key).1 (unpack true key).2 = key) := by
  have hsmall : ∀ width t i, markedSeries.InWindow width t i → i < 2 := fun width t i ⟨s, hs, _⟩ =>
    (List.getElem?_eq_some_iff.mp hs).1
  have hfloat : markedSeries.field ≠ .other := nofun
  refine (selections_exact_iff markedSeries ?_ true 0 60000 30000 (by decide) 300000 300000).mpr (Or.inr fun t ht => ?_)
  · exact List.pairwise_cons.mpr ⟨fun s hs => by cases List.mem_singleton.mp hs; decide, List.pairwise_singleton _ _⟩
  · have hle : t ≤ 60000 := ht.choose_spec.2
    have hpos : 0 ≤ t := le_of_isEvalTime (by decide) ht
    have hrange : InInt64 (t - 300000) := by
      constructor <;> simp only [int64Min, int64Max] <;> omega
    refine ⟨by simp only [int64Max]; omega, ⟨hrange, fun i hi _ => ?_, fun _ _ _ => hfloat⟩,
      ⟨hrange, fun i hi => ⟨i, hi, ?_⟩, fun i j hi hj => ?_⟩⟩
    · have := hsmall _ _ _ hi.1
      omega
    · have := hsmall _ _ _ hi
      omega
    · have := hsmall _ _ _ hj
      omega

/-- A query whose end is the last `i64`: after the only evaluation time the step overflows. -/
theorem lastInstant_overflows :
    ¬∀ (b : SeriesBatch), b.Sorted → ∀ (littleEndian : Bool) (start stop step : Int), 0 < step →
      ∀ lookback range : Int,
        b.AlignExact start stop lookback step ∧ b.ManipulateExact littleEndian start stop range step ∧
          (∀ offset length, unpack littleEndian (pack littleEndian offset length) = (offset, length)) ∧
          ∀ key, pack littleEndian (unpack littleEndian key).1 (unpack littleEndian key).2 = key := by
  intro h
  obtain ⟨out, halign, -⟩ := (h ⟨[⟨int64Max, .number 5⟩], .float64⟩ (List.pairwise_singleton _ _) true
    int64Max int64Max 1000 (by decide) 300000 300000).1
  have hnone : (⟨[⟨int64Max, .number 5⟩], .float64⟩ : SeriesBatch).alignBatch int64Max int64Max 300000 1000 = none := by
    rw [SeriesBatch.alignBatch, if_neg (by decide), evalLoop, if_pos (Int.le_refl _), SeriesBatch.alignAt,
      if_pos (by decide), Option.bind_some, if_neg (by decide)]
    rfl
  cases hnone.symm.trans halign

end Reiver.Core
