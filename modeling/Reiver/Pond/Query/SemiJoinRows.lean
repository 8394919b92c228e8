import Mathlib.Data.Rat.Cast.Defs
import Reiver.Lib.Fallible
import Reiver.Pond.Query.SemiJoin

/-! # The rows of a semi-join

A pair of rows is produced when the keys have the same text and the build key passes the filter. It belongs to the
join when the keys are equal in SQL. So the rows are those of the join exactly if the two agree on every pair of keys
(`semiJoin_eq_equiJoin`). -/

namespace Reiver.Pond

variable {F : Type} {N : Numbers F} {env : SemiJoinEnv F} {config : FederationConfig} {strategy : SemiJoinReduction}
  {probe : QueryResult F} {source : BuildSource F} {out : JoinedResult F} {mixed : Json F → Json F → Bool}

/-! ### Keys -/

@[simp] theorem valueToRawKey_eq_none {v : Json F} : valueToRawKey N v = none ↔ v = .null := by
  cases v <;> simp [valueToRawKey]

@[simp] theorem valueToKey_eq_none {v : Json F} : valueToKey N v = none ↔ v = .null := by
  cases v with
  | string s =>
    simp only [valueToKey, reduceCtorEq, iff_false]
    split_ifs
    · cases N.parse s <;> simp
    · simp
  | _ => simp [valueToKey]

theorem sqlEq_null {v : Json F} : sqlEq N mixed .null v = false := by
  cases v <;> rfl

theorem ne_null_of_sqlEq {v w : Json F} (h : sqlEq N mixed v w = true) : v ≠ .null ∧ w ≠ .null := by
  refine ⟨?_, ?_⟩
  · rintro rfl
    rw [sqlEq_null] at h
    cases h
  · rintro rfl
    cases v <;> cases h

theorem findColumn_ok {columns : List ColumnInfo} {name : String} {i : Nat} (h : findColumn columns name = .ok i) :
    position columns name = some i := by
  rw [findColumn] at h
  cases hi : position columns name with
  | none =>
    rw [hi] at h
    cases h
  | some j =>
    rw [hi] at h
    cases h
    rfl

theorem bind_keyAt {columns : List ColumnInfo} {name : String} {i : Nat} (h : position columns name = some i)
    (row : QueryRow F) : row[i]?.bind (valueToKey N) = valueToKey N (keyAt columns name row) := by
  rw [keyAt, h, Option.bind_some]
  cases row[i]? with
  | none => rfl
  | some v => rfl

theorem mem_extractKeys {name key : String} {keys : List String} (h : extractKeys N probe name = .ok keys) :
    key ∈ keys ↔ ∃ p ∈ probe.rows, valueToRawKey N (keyAt probe.columns name p) = some key := by
  obtain ⟨i, hi, hkeys⟩ := bind_ok h
  cases hkeys
  have hcell : ∀ p : QueryRow F,
      p[i]?.bind (valueToRawKey N) = valueToRawKey N (keyAt probe.columns name p) := by
    intro p
    rw [keyAt, findColumn_ok hi, Option.bind_some]
    cases p[i]? with
    | none => rfl
    | some v => rfl
  rw [List.mem_insertionSort, List.mem_dedup, List.mem_filterMap]
  simp only [hcell]

theorem extractKeys_eq_nil {name : String} {keys : List String} (h : extractKeys N probe name = .ok keys) :
    keys = [] ↔ ∀ p ∈ probe.rows, keyAt probe.columns name p = .null := by
  have hmem : ∀ key, key ∈ keys ↔ ∃ p ∈ probe.rows, valueToRawKey N (keyAt probe.columns name p) = some key :=
    fun _ => mem_extractKeys h
  constructor
  · rintro rfl p hp
    cases hraw : valueToRawKey N (keyAt probe.columns name p) with
    | none => exact valueToRawKey_eq_none.mp hraw
    | some key => exact absurd ((hmem key).mpr ⟨p, hp, hraw⟩) List.not_mem_nil
  · refine fun hnull => List.eq_nil_iff_forall_not_mem.mpr fun key hkey => ?_
    obtain ⟨p, hp, hraw⟩ := (hmem key).mp hkey
    rw [hnull p hp] at hraw
    cases hraw

/-! ### When the keys agree -/

/-- The filter that is made of the probe keys lets a value pass. -/
def Selected (env : SemiJoinEnv F) (config : FederationConfig) (strategy : SemiJoinReduction) (probe : QueryResult F)
    (source : BuildSource F) (v : Json F) : Prop :=
  ∃ keys filter, extractKeys env.numbers probe strategy.probeKeyColumn = .ok keys ∧
    chooseFilter env config strategy source keys (isNumericKey env probe.columns strategy.probeKeyColumn) = .ok filter ∧
    filter.passes env source v = true

def KeyPair (strategy : SemiJoinReduction) (probe build : QueryResult F) (v w : Json F) : Prop :=
  ∃ p ∈ probe.rows, ∃ b ∈ build.rows,
    keyAt probe.columns strategy.probeKeyColumn p = v ∧ keyAt build.columns strategy.buildKeyColumn b = w

/-- An equal build key passes the filter. Of those that pass, numbers are equal when they are printed alike, strings
    that are read alike are the same, and keys of different kinds are equal when they have the same text. And when no
    probe row has a key, the columns of the build side are known. -/
structure KeysAgree (env : SemiJoinEnv F) (config : FederationConfig) (mixed : Json F → Json F → Bool)
    (strategy : SemiJoinReduction) (probe : QueryResult F) (source : BuildSource F) : Prop where
  found : ∀ v w, KeyPair strategy probe source.answer v w → sqlEq env.numbers mixed v w = true →
    Selected env config strategy probe source w
  numbers : ∀ m n, KeyPair strategy probe source.answer (.number m) (.number n) →
    Selected env config strategy probe source (.number n) →
    (m.value env.numbers = n.value env.numbers ↔ normalizeNumber env.numbers m = normalizeNumber env.numbers n)
  strings : ∀ s t, KeyPair strategy probe source.answer (.string s) (.string t) →
    Selected env config strategy probe source (.string t) →
    valueToKey env.numbers (.string s) = valueToKey env.numbers (.string t) → s = t
  kinds : ∀ v w, KeyPair strategy probe source.answer v w → mixedKinds v w = true →
    Selected env config strategy probe source w →
    (mixed v w = true ↔ valueToKey env.numbers v = valueToKey env.numbers w)
  columns : strategy.joinType = .left → probe.rows ≠ [] →
    (∀ p ∈ probe.rows, keyAt probe.columns strategy.probeKeyColumn p = .null) → source.schemaFails = true →
    dropAt (position source.answer.columns strategy.buildKeyColumn) source.answer.columns = []

/-- The keys have one text, and the build key passes the filter. -/
def Matched (env : SemiJoinEnv F) (config : FederationConfig) (strategy : SemiJoinReduction) (probe : QueryResult F)
    (source : BuildSource F) (v w : Json F) : Prop :=
  v ≠ .null ∧ valueToKey env.numbers v = valueToKey env.numbers w ∧ Selected env config strategy probe source w

theorem ne_null_of_mixedKinds {v w : Json F} (h : mixedKinds v w = true) : v ≠ .null := by
  rintro rfl
  cases w <;> cases h

theorem sqlEq_of_mixedKinds {v w : Json F} (h : mixedKinds v w = true) : sqlEq N mixed v w = mixed v w := by
  cases v <;> cases w <;> first | rfl | cases h

theorem kinds_cases (v w : Json F) :
    (v = .null ∨ w = .null) ∨ mixedKinds v w = true ∨ (∃ s t, v = .string s ∧ w = .string t) ∨
      (∃ m n, v = .number m ∧ w = .number n) ∨ ∃ a b, v = .bool a ∧ w = .bool b := by
  cases v <;> cases w <;> simp [mixedKinds]

theorem valueToKey_bool {a b : Bool} : valueToKey N (.bool a) = valueToKey N (.bool b) ↔ a = b := by
  cases a <;> cases b <;> simp [valueToKey]

/-- The keys agree exactly if a pair is matched when its keys are equal. -/
theorem keysAgree_iff :
    KeysAgree env config mixed strategy probe source ↔
      (∀ v w, KeyPair strategy probe source.answer v w →
        (sqlEq env.numbers mixed v w = true ↔ Matched env config strategy probe source v w)) ∧
      (strategy.joinType = .left → probe.rows ≠ [] →
        (∀ p ∈ probe.rows, keyAt probe.columns strategy.probeKeyColumn p = .null) → source.schemaFails = true →
        dropAt (position source.answer.columns strategy.buildKeyColumn) source.answer.columns = []) := by
  constructor
  · refine fun h => ⟨fun v w hvw => ?_, h.columns⟩
    have hsame : Selected env config strategy probe source w → v ≠ .null →
        (sqlEq env.numbers mixed v w = true ↔ valueToKey env.numbers v = valueToKey env.numbers w) := by
      intro hw hv
      rcases kinds_cases v w with (hnull | rfl) | hmixed | ⟨s, t, rfl, rfl⟩ | ⟨m, n, rfl, rfl⟩ | ⟨a, b, rfl, rfl⟩
      · exact absurd hnull hv
      · exact iff_of_false (fun heq => (ne_null_of_sqlEq heq).2 rfl) fun hkey => hv (valueToKey_eq_none.mp hkey)
      · rw [sqlEq_of_mixedKinds hmixed]
        exact h.kinds v w hvw hmixed hw
      · refine decide_eq_true_iff.trans ⟨fun heq => by rw [heq], h.strings s t hvw hw⟩
      · refine decide_eq_true_iff.trans ((h.numbers m n hvw hw).trans ?_)
        simp [valueToKey]
      · exact decide_eq_true_iff.trans valueToKey_bool.symm
    constructor
    · intro heq
      have hv := (ne_null_of_sqlEq heq).1
      have hw := h.found v w hvw heq
      exact ⟨hv, (hsame hw hv).mp heq, hw⟩
    · exact fun ⟨hv, hkey, hw⟩ => (hsame hw hv).mpr hkey
  · rintro ⟨hmatch, hcolumns⟩
    have hsame : ∀ v w, KeyPair strategy probe source.answer v w → Selected env config strategy probe source w →
        v ≠ .null → (sqlEq env.numbers mixed v w = true ↔ valueToKey env.numbers v = valueToKey env.numbers w) :=
      fun v w hvw hw hv => (hmatch v w hvw).trans ⟨fun h => h.2.1, fun h => ⟨hv, h, hw⟩⟩
    refine ⟨fun v w hvw heq => ((hmatch v w hvw).mp heq).2.2, fun m n hmn hn => ?_, fun s t hst ht hkey => ?_,
      fun v w hvw hmixed hw => ?_, hcolumns⟩
    · refine decide_eq_true_iff.symm.trans ((hsame _ _ hmn hn (by simp)).trans ?_)
      simp [valueToKey]
    · exact of_decide_eq_true ((hsame _ _ hst ht (by simp)).mpr hkey)
    · have heq : sqlEq env.numbers mixed v w = mixed v w := sqlEq_of_mixedKinds hmixed
      rw [← heq]
      exact hsame v w hvw hw (ne_null_of_mixedKinds hmixed)

/-! ### The rows -/

theorem perm_map_pair_iff {α β : Type} {f : α → β} {l l' : List α} :
    (l.map fun a => (a, f a)).Perm (l'.map fun a => (a, f a)) ↔ l.Perm l' := by
  have hfst : ∀ l : List α, (l.map fun a => (a, f a)).map Prod.fst = l := by
    intro l
    rw [List.map_map]
    exact List.map_id l
  constructor
  · intro hperm
    have hperm := hperm.map Prod.fst
    rwa [hfst, hfst] at hperm
  · exact fun hperm => hperm.map _

theorem joinedRow_eq {i : Nat} (h : position source.answer.columns strategy.buildKeyColumn = some i)
    (pair : QueryRow F × Option (QueryRow F)) :
    joinedRow source.answer.columns i pair = sqlRow source.answer strategy.buildKeyColumn pair := by
  obtain ⟨p, b⟩ := pair
  cases b <;> simp [joinedRow, sqlRow, nullPaddedRow, h, dropAt]

theorem sqlJoin_of_null (h : ∀ p ∈ probe.rows, keyAt probe.columns strategy.probeKeyColumn p = .null) :
    equiJoin N mixed strategy probe source.answer =
      if strategy.joinType = .left then
        probe.rows.map fun p => ((p, none), sqlRow source.answer strategy.buildKeyColumn (p, none))
      else [] := by
  rw [equiJoin, join_of_none fun p hp b _ => by rw [h p hp, sqlEq_null]]
  by_cases hleft : strategy.joinType = .left
  · simp [hleft]
  · simp [hleft]

theorem semiJoin_ok (h : semiJoin env config strategy (.ok probe) source = .ok out) :
    ∃ keys, extractKeys env.numbers probe strategy.probeKeyColumn = .ok keys ∧
      ((keys = [] ∧
          out = joinWithoutKeys probe (fetchBuildColumnMetadata source strategy.buildKeyColumn) strategy.joinType) ∨
        keys ≠ [] ∧ ∃ i j filter, position probe.columns strategy.probeKeyColumn = some i ∧
          position source.answer.columns strategy.buildKeyColumn = some j ∧
          chooseFilter env config strategy source keys (isNumericKey env probe.columns strategy.probeKeyColumn) =
            .ok filter ∧
          out.entries =
            (hashJoin (strategy.joinType = .left) (fun p : QueryRow F => p[i]?.bind (valueToKey env.numbers))
            (fun b : QueryRow F => b[j]?.bind (valueToKey env.numbers)) probe.rows
            (source.answer.rows.filter fun b => b[j]?.any (filter.passes env source))).map
              fun pair => (pair, joinedRow source.answer.columns j pair)) := by
  obtain ⟨probe', hprobe, h⟩ := bind_ok h
  cases hprobe
  obtain ⟨keys, hkeys, h⟩ := bind_ok h
  refine ⟨keys, hkeys, ?_⟩
  by_cases hempty : keys.isEmpty = true
  · rw [if_pos hempty] at h
    exact .inl ⟨List.isEmpty_iff.mp hempty, (Except.ok.inj h).symm⟩
  · rw [if_neg hempty] at h
    obtain ⟨filter, hfilter, h⟩ := bind_ok h
    obtain ⟨build, hbuild, h⟩ := bind_ok h
    rw [filteredBuild] at hbuild
    cases hquery : source.queryError with
    | some e =>
      rw [hquery] at hbuild
      cases hbuild
    | none =>
      rw [hquery] at hbuild
      obtain ⟨j, hj, hbuild⟩ := bind_ok hbuild
      cases hbuild
      obtain ⟨i, hi, h⟩ := bind_ok h
      obtain ⟨j', hj', h⟩ := bind_ok h
      obtain rfl : j = j' := Except.ok.inj (hj.symm.trans hj')
      split_ifs at h
      cases h
      exact .inr ⟨fun hnil => hempty (List.isEmpty_iff.mpr hnil), i, j, filter, findColumn_ok hi, findColumn_ok hj,
        hfilter, rfl⟩

theorem entries_perm_of_null (h : ∀ p ∈ probe.rows, keyAt probe.columns strategy.probeKeyColumn p = .null) :
    (joinWithoutKeys probe (fetchBuildColumnMetadata source strategy.buildKeyColumn) strategy.joinType).entries.Perm
        (equiJoin N mixed strategy probe source.answer) ↔
      (strategy.joinType = .left → probe.rows ≠ [] → source.schemaFails = true →
        dropAt (position source.answer.columns strategy.buildKeyColumn) source.answer.columns = []) := by
  rw [sqlJoin_of_null h, joinWithoutKeys]
  by_cases hleft : strategy.joinType = .left
  swap
  · rw [if_neg hleft, if_neg fun h => hleft h.1]
    exact iff_of_true (.refl _) fun h => absurd h hleft
  rw [if_pos hleft]
  by_cases hrows : probe.rows = []
  · rw [if_neg fun h => h.2 hrows, hrows]
    exact iff_of_true (.refl _) fun _ h => absurd rfl h
  rw [if_pos ⟨hleft, hrows⟩]
  obtain ⟨p, hp⟩ := List.exists_mem_of_ne_nil _ hrows
  have hrow : ∀ p, sqlRow source.answer strategy.buildKeyColumn (p, none) =
      p ++ List.replicate (dropAt (position source.answer.columns strategy.buildKeyColumn) source.answer.columns).length
        .null := by
    intro p
    rw [sqlRow, List.map_const']
  rw [fetchBuildColumnMetadata]
  cases hschema : source.schemaFails with
  | false =>
    refine iff_of_true (.of_eq (List.map_congr_left fun p _ => ?_)) fun _ _ h => by cases h
    rw [hrow, if_neg (by simp)]
  | true =>
    rw [if_pos rfl]
    constructor
    · intro hperm _ _ _
      obtain ⟨p', -, hp'⟩ := List.mem_map.mp (hperm.mem_iff.mp (List.mem_map_of_mem hp))
      obtain ⟨hfst, hsnd⟩ := Prod.mk.inj hp'
      obtain rfl : p' = p := (Prod.mk.inj hfst).1
      rw [hrow] at hsnd
      have hlen := List.append_cancel_left hsnd
      exact List.length_eq_zero_iff.mp (by simpa using hlen)
    · intro hcolumns
      refine .of_eq (List.map_congr_left fun p _ => ?_)
      rw [hrow, hcolumns hleft hrows rfl]

theorem passes_iff_matched {i j : Nat} {passes : Json F → Bool} {p b : QueryRow F}
    (hi : position probe.columns strategy.probeKeyColumn = some i)
    (hj : position source.answer.columns strategy.buildKeyColumn = some j)
    (hselected : ∀ w, Selected env config strategy probe source w ↔ passes w = true) :
    (b[j]?.any passes && ((p[i]?.bind (valueToKey env.numbers)).isSome &&
        decide (b[j]?.bind (valueToKey env.numbers) = p[i]?.bind (valueToKey env.numbers)))) = true ↔
      Matched env config strategy probe source (keyAt probe.columns strategy.probeKeyColumn p)
        (keyAt source.answer.columns strategy.buildKeyColumn b) := by
  rw [bind_keyAt hi, bind_keyAt hj, Matched, hselected, Bool.and_eq_true, Bool.and_eq_true, decide_eq_true_iff,
    Option.isSome_iff_ne_none, ne_eq, ne_eq, valueToKey_eq_none, eq_comm (b := valueToKey env.numbers (keyAt _ _ p))]
  have hb : keyAt source.answer.columns strategy.buildKeyColumn b = b[j]?.getD .null := by
    rw [keyAt, hj, Option.bind_some]
  rw [hb]
  cases b[j]? with
  | none =>
    refine iff_of_false (fun h => by cases h.1) fun ⟨hp, hkey, _⟩ => hp ?_
    exact valueToKey_eq_none.mp hkey
  | some w => exact ⟨fun ⟨hw, hp, hkey⟩ => ⟨hp, hkey, hw⟩, fun ⟨hp, hkey, hw⟩ => ⟨hw, hp, hkey⟩⟩

theorem entries_perm_iff (h : semiJoin env config strategy (.ok probe) source = .ok out) :
    out.entries.Perm (equiJoin env.numbers mixed strategy probe source.answer) ↔
      KeysAgree env config mixed strategy probe source := by
  rw [keysAgree_iff]
  obtain ⟨keys, hkeys, ⟨rfl, rfl⟩ | ⟨hne, i, j, filter, hi, hj, hfilter, hout⟩⟩ := semiJoin_ok h
  · have hnull := (extractKeys_eq_nil hkeys).mp rfl
    rw [entries_perm_of_null hnull]
    refine ⟨fun hcolumns => ⟨?_, fun hleft hrows _ => hcolumns hleft hrows⟩, fun h hleft hrows => h.2 hleft hrows hnull⟩
    rintro v w ⟨p, hp, b, -, rfl, -⟩
    rw [hnull p hp, sqlEq_null]
    exact iff_of_false (by simp) fun h => h.1 rfl
  have hselected : ∀ w, Selected env config strategy probe source w ↔ filter.passes env source w = true := by
    refine fun w => ⟨?_, fun hw => ⟨keys, filter, hkeys, hfilter, hw⟩⟩
    rintro ⟨keys', filter', hkeys', hfilter', hw⟩
    cases hkeys.symm.trans hkeys'
    cases hfilter.symm.trans hfilter'
    exact hw
  have hrows : ∀ pair, joinedRow source.answer.columns j pair = sqlRow source.answer strategy.buildKeyColumn pair :=
    joinedRow_eq hj
  rw [hout, funext hrows, equiJoin, perm_map_pair_iff, hashJoin_eq, join_filter, join_perm_iff]
  refine Iff.trans ?_ (and_iff_left fun _ _ hnull => absurd ((extractKeys_eq_nil hkeys).mpr hnull) hne).symm
  constructor
  · rintro h v w ⟨p, hp, b, hb, rfl, rfl⟩
    rw [← passes_iff_matched hi hj hselected, ← h p hp b hb]
  · intro h p hp b hb
    exact Bool.eq_iff_iff.mpr ((passes_iff_matched hi hj hselected).trans (h _ _ ⟨p, hp, b, hb, rfl, rfl⟩).symm)

/-! ### Keys that are read as themselves -/

/-! ### Keys that are joined differently -/

/-- Whole floats, as they are printed below 10^16. -/
def wholeFloats : Numbers Nat where
  value f := f
  display f := toString f
  text f := toString f ++ ".0"
  parse s :=
    let ds := s.toList.takeWhile (·.isDigit)
    if ds.isEmpty || (ds.head? = some '0' && 1 < ds.length) then none
    else if s.toList.dropWhile (·.isDigit) = [] then some (.posInt (ofDigits ds))
    else if s.toList.dropWhile (·.isDigit) = ['.', '0'] then some (.float (ofDigits ds))
    else none

/-- The hashes of the keys 1.0 and 1, and the sizes for one key. -/
def oneHashing : Hashing where
  h1 key := if key = "1.0" then 13018411414756368455 else 16569625464242099095
  h2 key := if key = "1.0" then 11744079594308085682 else 4929710674395700228
  numBits _ := 7
  numHashes _ _ := 45

def oneEnv : SemiJoinEnv Nat where
  numbers := wholeFloats
  hashing := oneHashing
  chTypeIsNumeric dataType := dataType = "Float64"

/-- How a column of strings or of numbers is compared with a literal. -/
def literalEquals : SqlValue → Json Nat → Bool
  | .singleQuotedString s, .string t => s = t
  | .number s, .number n => (wholeFloats.parse s).any fun m => m.value wholeFloats = n.value wholeFloats
  | _, _ => false

def onId (joinType : JoinType) : SemiJoinReduction where
  probeKeyColumn := "id"
  buildKeyColumn := "id"
  maxKeysForInClause := 10000
  joinType

def namedRows (dataType : String) (keys : List (Json Nat)) : QueryResult Nat where
  columns := [⟨"id", dataType, true⟩, ⟨"name", "String", true⟩]
  rows := keys.map fun key => [key, .string "a"]
  rowCount := keys.length
  truncated := false

/-- The rows that are returned are those of the join, each once, exactly if the keys agree. -/
theorem semiJoin_eq_equiJoin (h : semiJoin env config strategy (.ok probe) source = .ok out) :
    executeSemiJoin env config strategy (.ok probe) source = .ok out.toQueryResult ∧
      (out.entries.Perm (equiJoin env.numbers mixed strategy probe source.answer) ↔
        KeysAgree env config mixed strategy probe source) ∧
      (KeysAgree env config mixed strategy probe source → out.toQueryResult.rows.Perm
        ((equiJoin env.numbers mixed strategy probe source.answer).map (·.2))) := by
  refine ⟨?_, entries_perm_iff h, fun hagree => ((entries_perm_iff h).mpr hagree).map _⟩
  rw [executeSemiJoin, h]
  rfl

/-- The strings 1.0 and 1 through an IN clause. -/
theorem semiJoin_eq_equiJoin_ones : ∃ out, semiJoin oneEnv {} (onId .inner)
      (.ok (namedRows "String" [.string "1.0", .string "1"]))
      { answer := namedRows "String" [.string "1.0", .string "1"], equals := literalEquals } = .ok out ∧
    (out.entries.Perm (equiJoin wholeFloats (fun _ _ => false) (onId .inner)
        (namedRows "String" [.string "1.0", .string "1"]) (namedRows "String" [.string "1.0", .string "1"])) ↔
      KeysAgree oneEnv {} (fun _ _ => false) (onId .inner) (namedRows "String" [.string "1.0", .string "1"])
        { answer := namedRows "String" [.string "1.0", .string "1"], equals := literalEquals }) := by
  obtain ⟨out, hout⟩ : ∃ out, semiJoin oneEnv {} (onId .inner)
      (.ok (namedRows "String" [.string "1.0", .string "1"]))
      { answer := namedRows "String" [.string "1.0", .string "1"], equals := literalEquals } = .ok out := ⟨_, rfl⟩
  exact ⟨out, hout, (semiJoin_eq_equiJoin hout).2.1⟩

/-- The strings 1.0 and 1 match each other through an IN clause; the number 1.0 does not match the number 1 through a
    Bloom filter; and a row without a key is not padded when the schema query fails. -/
theorem not_semiJoin_eq_equiJoin :
    (∃ out, semiJoin oneEnv {} (onId .inner) (.ok (namedRows "String" [.string "1.0", .string "1"]))
        { answer := namedRows "String" [.string "1.0", .string "1"], equals := literalEquals } = .ok out ∧
      ¬out.entries.Perm (equiJoin wholeFloats (fun _ _ => false) (onId .inner)
        (namedRows "String" [.string "1.0", .string "1"]) (namedRows "String" [.string "1.0", .string "1"]))) ∧
    (∃ out, semiJoin oneEnv { semiJoinInClauseLimit := 0 } (onId .inner)
        (.ok (namedRows "Float64" [.number (.float 1)]))
        { answer := namedRows "Float64" [.number (.posInt 1)], equals := literalEquals } = .ok out ∧
      ¬out.entries.Perm (equiJoin wholeFloats (fun _ _ => false) (onId .inner)
        (namedRows "Float64" [.number (.float 1)]) (namedRows "Float64" [.number (.posInt 1)]))) ∧
    ∃ out, semiJoin oneEnv {} (onId .left) (.ok (namedRows "String" [.null]))
        { answer := namedRows "String" [.string "1"], equals := literalEquals, schemaFails := true } = .ok out ∧
      ¬out.entries.Perm (equiJoin wholeFloats (fun _ _ => false) (onId .left)
        (namedRows "String" [.null]) (namedRows "String" [.string "1"])) := by
  refine ⟨⟨_, rfl, fun h => ?_⟩, ⟨_, rfl, fun h => ?_⟩, ⟨_, rfl, fun h => ?_⟩⟩
  · have hlen := h.length_eq
    revert hlen
    decide +kernel
  · have hlen := h.length_eq
    revert hlen
    decide +kernel
  · have hlen := h.map fun e => e.2.length
    revert hlen
    decide +kernel

end Reiver.Pond
