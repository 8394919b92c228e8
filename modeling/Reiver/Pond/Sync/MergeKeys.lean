import Reiver.Lib.LengthPrefixed
import Reiver.Pond.Sync.MergeLaws

/-! # Keys as texts

Two keys are the same text exactly if their cells are (`buildPkKey_eq_iff`). -/

namespace Reiver.Pond

variable {env : ArrowEnv} {pkColumns : List String}

/-- The key of a row by column name: the text of each key cell, none where it is null. -/
def namedKey (env : ArrowEnv) (pkColumns : List String) (view : RowView) : List (Option (Option String)) :=
  pkColumns.map fun name => (view name).map fun cell => (valueToString env cell.1 cell.2).toOption

/-! ### Texts of keys -/

def encodeComponent : Option String → String
  | none => "\x00"
  | some text => "\x01" ++ lengthPrefixed text

theorem prefixFree_encodeComponent : PrefixFree encodeComponent := by
  have hmarks : ∀ x y : String, "\x00" ++ x ≠ "\x01" ++ y := by
    intro x y h
    exact absurd (append_inj_utf8 (by decide) h).1 (by decide)
  rintro (_ | s) (_ | t) x y h
  · exact ⟨rfl, (append_inj_utf8 rfl h).2⟩
  · rw [encodeComponent, encodeComponent, String.append_assoc] at h
    exact absurd h (hmarks _ _)
  · rw [encodeComponent, encodeComponent, String.append_assoc] at h
    exact absurd h.symm (hmarks _ _)
  · rw [encodeComponent, encodeComponent, String.append_assoc, String.append_assoc] at h
    obtain ⟨rfl, rfl⟩ := prefixFree_lengthPrefixed s t x y (append_inj_utf8 rfl h).2
    exact ⟨rfl, rfl⟩

theorem pkComponent_text {cell : Option (DataType × Value)} {component : String}
    (h : pkComponent env cell = .ok component) :
    ∃ text : Option String, (cell.map fun c => (valueToString env c.1 c.2).toOption) = text.map some ∧
      component = encodeComponent text := by
  cases cell with
  | none =>
    cases h
    exact ⟨none, rfl, rfl⟩
  | some c =>
    obtain ⟨val, hval, hcomponent⟩ := bind_ok h
    cases hcomponent
    rw [cellToString] at hval
    refine ⟨some val, by rw [Option.map_some, hval]; rfl, ?_⟩
    simp only [encodeComponent, lengthPrefixed, String.append_assoc]

theorem buildPkKey_texts {cells : List (Option (DataType × Value))} {key : String}
    (h : buildPkKey env cells = .ok key) :
    ∃ texts : List (Option String),
      cells.map (·.map fun cell => (valueToString env cell.1 cell.2).toOption) = texts.map (·.map some) ∧
        key = "\x1F".intercalate (texts.map encodeComponent) := by
  obtain ⟨components, hcomponents, hkey⟩ := bind_ok h
  cases hkey
  have htexts : ∃ texts : List (Option String),
      cells.map (·.map fun cell => (valueToString env cell.1 cell.2).toOption) = texts.map (·.map some) ∧
        components = texts.map encodeComponent := by
    have hall := mapM_ok hcomponents
    clear h hcomponents
    induction hall with
    | nil => exact ⟨[], rfl, rfl⟩
    | cons hcell _ ih =>
      obtain ⟨texts, hcells, rfl⟩ := ih
      obtain ⟨text, htext, rfl⟩ := pkComponent_text hcell
      exact ⟨text :: texts, by rw [List.map_cons, List.map_cons, htext, hcells], rfl⟩
  obtain ⟨texts, hcells, rfl⟩ := htexts
  exact ⟨texts, hcells, rfl⟩

theorem keys_eq_iff_texts {cells cells' : List (Option (DataType × Value))} {key key' : String}
    (hlength : cells.length = cells'.length) (h : buildPkKey env cells = .ok key)
    (h' : buildPkKey env cells' = .ok key') :
    key = key' ↔ cells.map (·.map fun cell => (valueToString env cell.1 cell.2).toOption) =
      cells'.map (·.map fun cell => (valueToString env cell.1 cell.2).toOption) := by
  obtain ⟨texts, htexts, rfl⟩ := buildPkKey_texts h
  obtain ⟨texts', htexts', rfl⟩ := buildPkKey_texts h'
  have hlengths : texts.length = texts'.length := by
    have hlen := congrArg List.length htexts
    have hlen' := congrArg List.length htexts'
    simp only [List.length_map] at hlen hlen'
    omega
  rw [htexts, htexts']
  constructor
  · intro hkeys
    rw [intercalate_inj prefixFree_encodeComponent hlengths hkeys]
  · intro hsame
    rw [List.map_injective_iff.mpr (Option.map_injective (Option.some_injective _)) hsame]

theorem pkKey_eq_iff {view view' : RowView} {key key' : String} (h : pkKey env pkColumns view = some key)
    (h' : pkKey env pkColumns view' = some key') :
    key = key' ↔ namedKey env pkColumns view = namedKey env pkColumns view' := by
  have hbuilt : ∀ {view : RowView} {key : String}, pkKey env pkColumns view = some key →
      buildPkKey env (pkColumns.map view) = .ok key := by
    intro view key h
    cases hbuild : buildPkKey env (pkColumns.map view) with
    | error e =>
      rw [pkKey, hbuild] at h
      cases h
    | ok built =>
      rw [pkKey, hbuild] at h
      cases h
      rfl
  rw [keys_eq_iff_texts (by rw [List.length_map, List.length_map]) (hbuilt h) (hbuilt h'), List.map_map, List.map_map]
  rfl

/-! ### Keys are apart -/

/-- What `cell_to_string` writes behind the type tag. -/
def rawValue (env : ArrowEnv) : DataType → Value → Option String
  | .int64, .int i => some (toString i)
  | .utf8, .text s => some s
  | dataType, v => env.fmt dataType v

/-- Cells that are both null, or both are not and are rendered alike. -/
def SameCell {β : Type} (render : DataType × Value → β) (a b : Option (DataType × Value)) : Prop :=
  a.map render = b.map render

theorem valueToString_toOption (env : ArrowEnv) (dataType : DataType) (v : Value) :
    (valueToString env dataType v).toOption =
      (rawValue env dataType v).map fun s => stableTypeTag dataType ++ ":" ++ s := by
  rw [rawValue.eq_def]
  split
  · rfl
  · rfl
  · next hint htext =>
    rw [valueToString.eq_3 env dataType v hint htext]
    cases env.fmt dataType v with
    | none => rfl
    | some s => rfl

theorem colon_notMem_stableTypeTag (dataType : DataType) : ':' ∉ (stableTypeTag dataType).toList := by
  rw [stableTypeTag.eq_def]
  split <;> decide

theorem tagged_inj {dataType dataType' : DataType} {s s' : String}
    (h : stableTypeTag dataType ++ ":" ++ s = stableTypeTag dataType' ++ ":" ++ s') :
    stableTypeTag dataType = stableTypeTag dataType' ∧ s = s' := by
  have hchars := congrArg String.toList h
  simp only [String.toList_append, List.append_assoc] at hchars
  obtain ⟨htag, hs⟩ :=
    split_at_first (colon_notMem_stableTypeTag dataType) (colon_notMem_stableTypeTag dataType') hchars
  exact ⟨String.toList_inj.mp htag, String.toList_inj.mp hs⟩

theorem forall₂_sameCell_iff {β : Type} {render : DataType × Value → β}
    {cells cells' : List (Option (DataType × Value))} :
    List.Forall₂ (SameCell render) cells cells' ↔ cells.map (·.map render) = cells'.map (·.map render) := by
  rw [← List.forall₂_eq_eq_eq, List.forall₂_map_left_iff, List.forall₂_map_right_iff]
  rfl

theorem rendered_of_built {cells : List (Option (DataType × Value))} {key : String}
    (h : buildPkKey env cells = .ok key) {dataType : DataType} {v : Value} (hcell : some (dataType, v) ∈ cells) :
    (rawValue env dataType v).isSome = true := by
  obtain ⟨texts, htexts, -⟩ := buildPkKey_texts h
  have hmem := List.mem_map_of_mem (f := (·.map fun cell => (valueToString env cell.1 cell.2).toOption)) hcell
  rw [htexts] at hmem
  obtain ⟨text, -, htext⟩ := List.mem_map.mp hmem
  cases text with
  | none => cases htext
  | some text =>
    have hraw : (valueToString env dataType v).toOption = some text := (Option.some_inj.mp htext).symm
    rw [valueToString_toOption] at hraw
    obtain ⟨s, hs, -⟩ := Option.map_eq_some_iff.mp hraw
    exact Option.isSome_of_eq_some hs

theorem sameCell_iff_of_rendered {a b : Option (DataType × Value)}
    (ha : ∀ cell, a = some cell → (rawValue env cell.1 cell.2).isSome = true) :
    SameCell (fun cell => (valueToString env cell.1 cell.2).toOption) a b ↔
      SameCell (fun cell => (stableTypeTag cell.1, rawValue env cell.1 cell.2)) a b := by
  cases a with
  | none =>
    cases b with
    | none => exact iff_of_true rfl rfl
    | some d => exact iff_of_false (fun h => by cases h) fun h => by cases h
  | some c =>
    cases b with
    | none => exact iff_of_false (fun h => by cases h) fun h => by cases h
    | some d =>
      obtain ⟨s, hs⟩ := Option.isSome_iff_exists.mp (ha c rfl)
      simp only [SameCell, Option.map_some, Option.some_inj, valueToString_toOption, Prod.mk.injEq, hs]
      cases hd : rawValue env d.1 d.2 with
      | none => exact iff_of_false (fun h => by cases h) fun h => by cases h.2
      | some t =>
        rw [Option.map_some, Option.some_inj, Option.some_inj]
        exact ⟨tagged_inj, fun h => by rw [h.1, h.2]⟩

/-- Keys of as many columns are the same exactly if the cells agree, column by column, on being null and on what
    `cell_to_string` makes of them; that is, on their type tag and their text. -/
theorem buildPkKey_eq_iff {cells cells' : List (Option (DataType × Value))} {key key' : String}
    (hlength : cells.length = cells'.length) (h : buildPkKey env cells = .ok key)
    (h' : buildPkKey env cells' = .ok key') :
    (key = key' ↔
      List.Forall₂ (SameCell fun cell => (valueToString env cell.1 cell.2).toOption) cells cells') ∧
    (key = key' ↔
      List.Forall₂ (SameCell fun cell => (stableTypeTag cell.1, rawValue env cell.1 cell.2)) cells cells') := by
  have hkeys := (keys_eq_iff_texts hlength h h').trans forall₂_sameCell_iff.symm
  refine ⟨hkeys, hkeys.trans ?_⟩
  have hrendered : ∀ cell : DataType × Value, some cell ∈ cells → (rawValue env cell.1 cell.2).isSome = true :=
    fun cell hcell => rendered_of_built h hcell
  clear h h' hkeys
  induction cells generalizing cells' with
  | nil =>
    rw [List.eq_nil_of_length_eq_zero hlength.symm]
    exact iff_of_true .nil .nil
  | cons a cells ih =>
    obtain ⟨b, cells', rfl⟩ := List.exists_cons_of_length_eq_add_one hlength.symm
    have htail := ih (Nat.succ.inj hlength) fun cell hcell => hrendered cell (List.mem_cons_of_mem a hcell)
    have hhead := @sameCell_iff_of_rendered env a b fun cell hcell => hrendered cell (hcell ▸ List.mem_cons_self)
    rw [List.forall₂_cons, List.forall₂_cons]
    exact and_congr hhead htail

/-- A text that holds the separator and a marker is not two cells. -/
theorem buildPkKey_eq_iff_separator :
    ("\x015:S:a\x1F\x01\x1F\x00" = "\x013:S:a\x1F\x012:S:" ↔
      List.Forall₂ (SameCell fun cell => (valueToString bareEnv cell.1 cell.2).toOption)
        [some (.utf8, .text "a\x1F\x01"), none] [some (.utf8, .text "a"), some (.utf8, .text "")]) ∧
    ("\x015:S:a\x1F\x01\x1F\x00" = "\x013:S:a\x1F\x012:S:" ↔
      List.Forall₂ (SameCell fun cell => (stableTypeTag cell.1, rawValue bareEnv cell.1 cell.2))
        [some (.utf8, .text "a\x1F\x01"), none] [some (.utf8, .text "a"), some (.utf8, .text "")]) :=
  buildPkKey_eq_iff rfl (by decide) (by decide)

end Reiver.Pond
