import Reiver.Pond.Pgwire.Dialect

/-! # What the translation reaches

Which casts and calls are left after the translation, and what becomes of the modifiers of a call. -/

namespace Reiver.Pond.Dialect

/-! ### Trees -/

/-- A node of the tree, itself included. -/
inductive Within : Node → Node → Prop
  | self (n : Node) : Within n n
  | child {m : Node} {kind : Kind} {children : Children} {e : Slot × Node} (he : e ∈ children) (hm : Within m e.2) :
      Within m (.mk kind children)

@[elab_as_elim] theorem Node.inductionOn {motive : Node → Prop}
    (mk : ∀ kind children, (∀ e ∈ children, motive e.2) → motive (.mk kind children)) (n : Node) : motive n := by
  refine Node.rec (motive_1 := motive) (motive_2 := fun children => ∀ e ∈ children, motive e.2)
    (motive_3 := fun e => motive e.2) mk (fun _ h => absurd h List.not_mem_nil) ?_ (fun _ _ h => h) n
  intro e rest he hrest e' he'
  rcases List.mem_cons.mp he' with rfl | he'
  · exact he
  · exact hrest e' he'

theorem within_mk_iff {m : Node} {kind : Kind} {children : Children} :
    Within m (.mk kind children) ↔ m = .mk kind children ∨ ∃ e ∈ children, Within m e.2 := by
  constructor
  · intro h
    cases h with
    | self => exact Or.inl rfl
    | child he hm => exact Or.inr ⟨_, he, hm⟩
  · rintro (rfl | ⟨e, he, hm⟩)
    · exact .self _
    · exact .child he hm

theorem rewriteChildren_eq (children : Children) :
    rewriteChildren children = children.map fun e => (e.1, if e.1.walked then rewrite e.2 else e.2) := by
  induction children with
  | nil => rfl
  | cons e rest ih => rw [rewriteChildren, ih, List.map_cons, rewriteChild]

/-! ### What is asked for -/

/-- There is something to translate at the node. -/
def Pending (n : Node) : Prop := (replacement n.kind n.children).isSome

instance (n : Node) : Decidable (Pending n) :=
  inferInstanceAs (Decidable ((replacement n.kind n.children).isSome = true))

/-- Nothing is left to translate in the tree. -/
def Clean (n : Node) : Prop := ∀ m, Within m n → ¬Pending m

/-- A node that the walk comes to. -/
inductive Visited : Node → Node → Prop
  | root (n : Node) : Visited n n
  | child {m : Node} {kind : Kind} {children : Children} {e : Slot × Node} (he : e ∈ children) (hw : e.1.walked = true)
      (hm : Visited m e.2) : Visited m (.mk kind children)

/-- A key with whether it is descending and where the nulls go. -/
abbrev OrderKey := Bool × Option Bool × Node

def orderKey (options : OrderOptions) (key : Node) : OrderKey := (options.asc = some false, options.nullsFirst, key)

/-- What a call says of the rows that it is made on. -/
structure Modifiers where
  distinct : Bool := false
  filter : List Node := []
  overClause : Option Over := none
  overPartitionBy : List Node := []
  overOrderBy : List OrderKey := []
  overFrame : List Node := []
  orderBy : List OrderKey := []
  withinGroup : List OrderKey := []

def ownModifiers (f : FunctionHead) (children : Children) : Modifiers where
  distinct := f.duplicateTreatment = some .distinct
  filter := children.filterMap fun e => if e.1 = .filter then some e.2 else none
  overClause := f.overClause
  overPartitionBy := children.filterMap fun e => if e.1 = .overPartitionBy then some e.2 else none
  overOrderBy := children.filterMap fun e => match e.1 with
    | .overOrderBy options => some (orderKey options e.2)
    | _ => none
  overFrame := children.filterMap fun e => if e.1 = .overFrame then some e.2 else none
  orderBy := children.filterMap fun e => match e.1 with
    | .clauseOrderBy options => some (orderKey options e.2)
    | _ => none
  withinGroup := children.filterMap fun e => match e.1 with
    | .withinGroup options => some (orderKey options e.2)
    | _ => none

/-- The first argument of a call of this function. -/
def argumentOf (name : String) (n : Node) : Option Node :=
  match n.kind with
  | .function f => if f.name = name then (positional n.children).head? else none
  | _ => none

/-- The modifiers of a collected array: it may be without duplicates, and sorted by its values. -/
def collectedModifiers (n : Node) : Modifiers :=
  let unsorted := (argumentOf "arraySort" n).getD n
  let collected := (argumentOf "arrayDistinct" unsorted).getD unsorted
  match collected.kind with
  | .function f =>
    let own := ownModifiers f collected.children
    { own with
      distinct := own.distinct || (argumentOf "arrayDistinct" unsorted).isSome
      orderBy :=
        if (argumentOf "arraySort" n).isSome then (positional collected.children).map (orderKey {}) else own.orderBy }
  | _ => {}

/-- The modifiers of a call; of a joined array, those of the array. -/
def modifiers (n : Node) : Modifiers :=
  match argumentOf "arrayStringConcat" n, n.kind with
  | some array, _ => collectedModifiers array
  | none, .function f => ownModifiers f n.children
  | none, _ => {}

/-- The expressions of the modifiers translated; a frame is not gone into. -/
def Modifiers.rewrite (m : Modifiers) : Modifiers :=
  let rewriteKey : OrderKey → OrderKey := fun key => (key.1, key.2.1, Dialect.rewrite key.2.2)
  { m with
    filter := m.filter.map Dialect.rewrite
    overPartitionBy := m.overPartitionBy.map Dialect.rewrite
    overOrderBy := m.overOrderBy.map rewriteKey
    orderBy := m.orderBy.map rewriteKey
    withinGroup := m.withinGroup.map rewriteKey }

/-- What replaces a call has the modifiers that the call has. -/
def ModifiersKept (n : Node) : Prop :=
  ∀ f, n.kind = .function f → Pending n → modifiers (rewrite n) = (ownModifiers f n.children).rewrite

/-- The translation leaves nothing to translate, and no call loses a modifier. -/
def Translated (n : Node) : Prop := Clean (rewrite n) ∧ ∀ m, Visited m n → ModifiersKept m

/-! ### When it does -/

def arguments (children : Children) : Children := children.filter (·.1 = .argument)

/-- The parts of a node that are there after its translation. -/
def surviving (kind : Kind) (children : Children) : Children :=
  if (replacement kind children).isSome then
    match kind with
    | .extract _ => (children.find? (·.1 = .extractExpr)).toList
    | .function f =>
      match translatorOf f.name with
      | some .dateTrunc | some .datePart => ((arguments children).drop 1).take 1
      | some .stringAgg | some .left | some .right => (arguments children).take 2
      | some .toChar => (arguments children).take 1
      | some .regexpReplace => (arguments children).take 3
      | some (.simpleRename _) => children.filter (·.1 ≠ .parameter)
      | some (.native _) | none => children
    | _ => children
  else children

/-- A node of the translated tree that the walk does not come to. -/
inductive Missed : Node → Node → Prop
  | unwalked {m : Node} {kind : Kind} {children : Children} {e : Slot × Node} (he : e ∈ surviving kind children)
      (hw : e.1.walked = false) (hm : Within m e.2) : Missed m (.mk kind children)
  | walked {m : Node} {kind : Kind} {children : Children} {e : Slot × Node} (he : e ∈ surviving kind children)
      (hw : e.1.walked = true) (hm : Missed m e.2) : Missed m (.mk kind children)

/-- The call has no FILTER, OVER or WITHIN GROUP. -/
structure Modifiers.Plain (m : Modifiers) : Prop where
  filter : m.filter = []
  overClause : m.overClause = none
  overPartitionBy : m.overPartitionBy = []
  overOrderBy : m.overOrderBy = []
  overFrame : m.overFrame = []
  withinGroup : m.withinGroup = []

/-- A call that is replaced by one that has no place for its modifiers has none of them; `string_agg` may be DISTINCT,
and ordered by what it joins, ascending, with no word on nulls. -/
def ModifiersFit (n : Node) : Prop :=
  ∀ f, n.kind = .function f → Pending n →
    match translatorOf f.name with
    | some (.simpleRename _) | some (.native _) | none => True
    | some .stringAgg =>
      (ownModifiers f n.children).Plain ∧
        ((ownModifiers f n.children).orderBy = [] ∨
          ∃ column ∈ (positional n.children).head?, ∃ key, (ownModifiers f n.children).orderBy = [(false, none, key)] ∧
            rewrite key = rewrite column)
    | some _ =>
      (ownModifiers f n.children).Plain ∧ (ownModifiers f n.children).distinct = false ∧
        (ownModifiers f n.children).orderBy = []

/-! ### New calls -/

/-- The functions that the translation calls. -/
def newNames : List String :=
  ["toUnixTimestamp64Micro", "toDayOfWeek", "toYear", "toQuarter", "toMonth", "toDayOfMonth", "toHour", "toMinute",
    "toSecond", "toDayOfYear", "toISOWeek", "toStartOfSecond", "toStartOfMinute", "toStartOfHour", "toStartOfDay",
    "toStartOfWeek", "toStartOfMonth", "toStartOfQuarter", "toStartOfYear", "groupArray", "arrayDistinct", "arraySort",
    "arrayStringConcat", "formatDateTime", "replaceRegexpAll", "replaceRegexpOne", "substring", "max", "min",
      "lengthUTF8",
    "now", "today"]

theorem translatorOf_new : ∀ name ∈ newNames, translatorOf name = none := by decide +kernel

section Calls
variable {n left right : Node} {kind : Kind} {children : Children} {args : List Node} {name op : String}

theorem clean_mk_iff : Clean (.mk kind children) ↔ ¬Pending (.mk kind children) ∧ ∀ e ∈ children, Clean e.2 := by
  constructor
  · intro h
    exact ⟨h _ (.self _), fun e he m hm => h m (.child he hm)⟩
  · rintro ⟨hroot, hparts⟩ m hm
    rcases within_mk_iff.mp hm with rfl | ⟨e, he, hm⟩
    · exact hroot
    · exact hparts e he m hm

theorem not_pending_function {f : FunctionHead} (h : translatorOf f.name = none) :
    ¬Pending (.mk (.function f) children) := by
  change ¬(translateFunction f children).isSome = true
  rw [translateFunction, h]
  exact Bool.false_ne_true

theorem clean_makeFunctionCall (h : name ∈ newNames) : Clean (makeFunctionCall name args) ↔ ∀ a ∈ args, Clean a := by
  have hroot : ¬Pending (.mk (.function { name }) (args.map fun a => (.argument, a))) :=
    not_pending_function (f := { name }) (translatorOf_new name h)
  rw [makeFunctionCall, clean_mk_iff, and_iff_right hroot, List.forall_mem_map]

theorem not_pending (h : replacement kind children = none) : ¬Pending (.mk kind children) := by
  change ¬(replacement kind children).isSome = true
  rw [h]
  exact Bool.false_ne_true

theorem clean_binaryOp : Clean (binaryOp left op right) ↔ Clean left ∧ Clean right := by
  rw [binaryOp, clean_mk_iff, and_iff_right (not_pending rfl), List.forall_mem_cons, List.forall_mem_singleton]

theorem clean_literal (v : Value) : Clean (literal v) :=
  clean_mk_iff.mpr ⟨not_pending rfl, fun _ h => absurd h List.not_mem_nil⟩

theorem clean_minus : Clean (.mk (.unaryOp op) [(.operand, n)]) ↔ Clean n := by
  rw [clean_mk_iff, and_iff_right (not_pending rfl), List.forall_mem_singleton]

theorem clean_translateExtract {field : DateTimeField} {r : Node} (h : translateExtract field n = some r) :
    Clean r ↔ Clean n := by
  have hcall : ∀ name ∈ newNames, (Clean (makeFunctionCall name [n]) ↔ Clean n) := by
    intro name hname
    rw [clean_makeFunctionCall hname, List.forall_mem_singleton]
  cases field with
  | epoch =>
    cases h
    rw [epochCall, clean_binaryOp, and_iff_left (clean_literal _), hcall _ (by simp [newNames])]
  | dow =>
    cases h
    rw [dayOfWeekCall, clean_binaryOp, and_iff_left (clean_literal _), hcall _ (by simp [newNames])]
  | other text => cases h
  | _ =>
    cases h
    exact hcall _ (by simp [newNames])

end Calls

/-! ### Parts that are translated -/

section Parts
variable {n : Node} {kind : Kind} {children : Children} {f : FunctionHead}

theorem quoted_eq_some_iff {s : String} : quoted n = some s ↔ n.kind = .value (.singleQuotedString s) := by
  unfold quoted
  split
  · next s' h => rw [h, Option.some.injEq, Kind.value.injEq, Value.singleQuotedString.injEq]
  · next h => exact iff_of_false (fun h' => by cases h') fun h' => h s h'

theorem kind_ne_value (h : replacement kind children = some n) (v : Value) : n.kind ≠ .value v := by
  intro hv
  cases kind with
  | cast k dt fmt =>
    cases k with
    | doubleColon =>
      cases h
      cases hv
    | _ => cases h
  | extract field =>
    obtain ⟨e, -, h⟩ := Option.bind_eq_some_iff.mp h
    cases field with
    | other text => cases h
    | _ =>
      cases h
      cases hv
  | function f =>
    change translateFunction f children = some n at h
    rw [translateFunction] at h
    split at h
    · cases h
    · cases h
      cases hv
    · obtain ⟨args, -, h⟩ := Option.bind_eq_some_iff.mp h
      unfold translateArgs at h
      split at h
      · obtain ⟨q, -, h⟩ := Option.bind_eq_some_iff.mp h
        obtain ⟨name, -, h⟩ := Option.bind_eq_some_iff.mp h
        cases h
        cases hv
      · cases h
        cases hv
      · obtain ⟨q, -, h⟩ := Option.bind_eq_some_iff.mp h
        obtain ⟨field, -, h⟩ := Option.bind_eq_some_iff.mp h
        cases field with
        | other text => cases h
        | _ =>
          cases h
          cases hv
      · obtain ⟨q, -, h⟩ := Option.bind_eq_some_iff.mp h
        cases h
        cases hv
      · cases h
        cases hv
      · cases h
        cases hv
      · cases h
        cases hv
      · cases h
        cases hv
      · cases h
  | _ => cases h

theorem quoted_rewrite (n : Node) : quoted (rewrite n) = quoted n := by
  obtain ⟨kind, children⟩ := n
  cases kind with
  | value v => rfl
  | cast k dt fmt => rfl
  | _ =>
    rw [rewrite, translateNode]
    case _ =>
      cases hr : replacement _ (rewriteChildren children) with
      | none => rfl
      | some r =>
        refine Option.eq_none_iff_forall_ne_some.mpr fun s hs => ?_
        exact kind_ne_value hr _ (quoted_eq_some_iff.mp hs)
    case _ => exact fun _ _ _ h => by cases h

/-- Whether a call is translated, by the texts of its arguments. -/
def translates : Translator → List (Option String) → Bool
  | .dateTrunc, interval :: _ :: _ => (interval.bind fun s => startOf (toAsciiLowercase s)).isSome
  | .stringAgg, _ :: _ :: _ => true
  | .datePart, field :: _ :: _ => (field.bind fun s => datePartField (toAsciiLowercase s)).isSome
  | .toChar, _ :: format :: _ => format.isSome
  | .simpleRename _, _ => true
  | .regexpReplace, _ :: _ :: _ :: _ => true
  | .left, _ :: _ :: _ => true
  | .right, _ :: _ :: _ => true
  | _, _ => false

theorem isSome_of_datePartField {name : String} {field : DateTimeField} (h : datePartField name = some field) :
    (translateExtract field n).isSome := by
  cases field with
  | other text =>
    unfold datePartField at h
    split at h <;> cases h
  | _ => rfl

theorem isSome_translateArgs (t : Translator) (args : List Node) :
    (translateArgs f children t args).isSome = translates t (args.map quoted) := by
  cases t with
  | dateTrunc =>
    rcases args with _ | ⟨interval, _ | ⟨column, rest⟩⟩
    · rfl
    · rfl
    · change ((quoted interval).bind fun s => (startOf (toAsciiLowercase s)).bind fun name => _).isSome =
        ((quoted interval).bind fun s => startOf (toAsciiLowercase s)).isSome
      cases quoted interval with
      | none => rfl
      | some s =>
        rw [Option.bind_some, Option.bind_some]
        cases startOf (toAsciiLowercase s) <;> rfl
  | datePart =>
    rcases args with _ | ⟨field, _ | ⟨column, rest⟩⟩
    · rfl
    · rfl
    · change ((quoted field).bind fun s => (datePartField (toAsciiLowercase s)).bind fun field => _).isSome =
        ((quoted field).bind fun s => datePartField (toAsciiLowercase s)).isSome
      cases quoted field with
      | none => rfl
      | some s =>
        rw [Option.bind_some, Option.bind_some]
        cases hfield : datePartField (toAsciiLowercase s) with
        | none => rfl
        | some field => exact isSome_of_datePartField hfield
  | toChar =>
    rcases args with _ | ⟨datetime, _ | ⟨format, rest⟩⟩
    · rfl
    · rfl
    · change ((quoted format).bind fun s => _).isSome = (quoted format).isSome
      cases quoted format <;> rfl
  | stringAgg => rcases args with _ | ⟨column, _ | ⟨separator, rest⟩⟩ <;> rfl
  | simpleRename newName => rcases args with _ | ⟨a, _ | ⟨b, _ | ⟨c, rest⟩⟩⟩ <;> rfl
  | regexpReplace => rcases args with _ | ⟨a, _ | ⟨b, _ | ⟨c, rest⟩⟩⟩ <;> rfl
  | left => rcases args with _ | ⟨a, _ | ⟨b, rest⟩⟩ <;> rfl
  | right => rcases args with _ | ⟨a, _ | ⟨b, rest⟩⟩ <;> rfl
  | native newName => rcases args with _ | ⟨a, _ | ⟨b, _ | ⟨c, rest⟩⟩⟩ <;> rfl

/-! ### Parts that are kept -/

theorem arguments_map_snd (children : Children) : (arguments children).map Prod.snd = positional children := by
  induction children with
  | nil => rfl
  | cons e rest ih =>
    by_cases h : e.1 = .argument
    · rw [arguments, List.filter_cons_of_pos (by simpa using h), List.map_cons, positional,
        List.filterMap_cons_some (by rw [if_pos h])]
      exact congrArg (e.2 :: ·) ih
    · rw [arguments, List.filter_cons_of_neg (by simpa using h), positional,
        List.filterMap_cons_none (by rw [if_neg h])]
      exact ih

/-- The part under a field as it is in the translated tree. -/
def translatedPart (e : Slot × Node) : Slot × Node := (e.1, if e.1.walked then rewrite e.2 else e.2)

theorem filter_rewriteChildren (p : Slot → Bool) (children : Children) :
    (rewriteChildren children).filter (fun e => p e.1) = (children.filter fun e => p e.1).map translatedPart := by
  rw [rewriteChildren_eq, List.filter_map]
  rfl

theorem positional_rewriteChildren (children : Children) :
    positional (rewriteChildren children) = (positional children).map rewrite := by
  rw [← arguments_map_snd, ← arguments_map_snd, arguments,
    filter_rewriteChildren (fun slot => decide (slot = .argument)), List.map_map, List.map_map]
  refine List.map_congr_left fun e he => ?_
  have hslot : e.1 = .argument := of_decide_eq_true (List.mem_filter.mp he).2
  change (if e.1.walked then rewrite e.2 else e.2) = rewrite e.2
  rw [hslot]
  rfl

theorem extractFunctionArgs_rewriteChildren :
    extractFunctionArgs f (rewriteChildren children) = (extractFunctionArgs f children).map (·.map rewrite) := by
  have hspecial : (rewriteChildren children).all (fun e => !e.1.special) = children.all (fun e => !e.1.special) := by
    rw [rewriteChildren_eq, List.all_map]
    rfl
  rw [extractFunctionArgs, extractFunctionArgs, hspecial, positional_rewriteChildren]
  split <;> rfl

theorem find_rewriteChildren :
    (rewriteChildren children).find? (·.1 = .extractExpr) =
      (children.find? (·.1 = .extractExpr)).map translatedPart := by
  rw [rewriteChildren_eq, List.find?_map]
  rfl

theorem isSome_replacement (kind : Kind) (children : Children) :
    (replacement kind (rewriteChildren children)).isSome = (replacement kind children).isSome := by
  cases kind with
  | cast k dt fmt => cases k <;> rfl
  | extract field =>
    rw [replacement, replacement, find_rewriteChildren]
    cases children.find? (·.1 = .extractExpr) with
    | none => rfl
    | some e => cases field <;> rfl
  | function f =>
    change (translateFunction f _).isSome = (translateFunction f _).isSome
    rw [translateFunction, translateFunction]
    split
    · rfl
    · rfl
    · rw [extractFunctionArgs_rewriteChildren]
      cases extractFunctionArgs f children with
      | none => rfl
      | some args =>
        change (translateArgs f _ _ (args.map rewrite)).isSome = (translateArgs f _ _ args).isSome
        rw [isSome_translateArgs, isSome_translateArgs, List.map_map]
        exact congrArg _ (List.map_congr_left fun a _ => quoted_rewrite a)
  | _ => rfl

theorem surviving_rewriteChildren (kind : Kind) (children : Children) :
    surviving kind (rewriteChildren children) = (surviving kind children).map translatedPart := by
  have hall : rewriteChildren children = children.map translatedPart := rewriteChildren_eq children
  have harguments : arguments (rewriteChildren children) = (arguments children).map translatedPart :=
    filter_rewriteChildren (fun slot => decide (slot = .argument)) children
  unfold surviving
  rw [isSome_replacement]
  split
  · cases kind with
    | extract field =>
      dsimp only
      rw [find_rewriteChildren]
      cases children.find? (·.1 = .extractExpr) <;> rfl
    | function f =>
      dsimp only
      split
      · rw [harguments, ← List.map_drop, ← List.map_take]
      · rw [harguments, ← List.map_drop, ← List.map_take]
      · rw [harguments, ← List.map_take]
      · rw [harguments, ← List.map_take]
      · rw [harguments, ← List.map_take]
      · rw [harguments, ← List.map_take]
      · rw [harguments, ← List.map_take]
      · exact filter_rewriteChildren (fun slot => decide (slot ≠ .parameter)) children
      · exact hall
      · exact hall
    | _ => exact hall
  · exact hall

theorem forall_arguments {p : Node → Prop} {k : Nat} {args : List Node} (h : positional children = args) :
    (∀ e ∈ (arguments children).take k, p e.2) ↔ ∀ a ∈ args.take k, p a := by
  rw [← h, ← arguments_map_snd, ← List.map_take, List.forall_mem_map]

theorem forall_second {p : Node → Prop} {first second : Node} {rest : List Node}
    (h : positional children = first :: second :: rest) :
    (∀ e ∈ ((arguments children).drop 1).take 1, p e.2) ↔ ∀ a ∈ [second], p a := by
  have hsecond : (((arguments children).drop 1).take 1).map Prod.snd = [second] := by
    rw [List.map_take, List.map_drop, arguments_map_snd, h]
    rfl
  rw [← hsecond, List.forall_mem_map]

theorem surviving_subset {e : Slot × Node} (h : e ∈ surviving kind children) : e ∈ children := by
  have harguments : ∀ {e : Slot × Node}, e ∈ arguments children → e ∈ children := fun he => List.mem_of_mem_filter he
  unfold surviving at h
  split at h
  · split at h
    · exact List.mem_of_find?_eq_some (Option.mem_toList.mp h)
    · split at h
      · exact harguments (List.mem_of_mem_drop (List.mem_of_mem_take h))
      · exact harguments (List.mem_of_mem_drop (List.mem_of_mem_take h))
      · exact harguments (List.mem_of_mem_take h)
      · exact harguments (List.mem_of_mem_take h)
      · exact harguments (List.mem_of_mem_take h)
      · exact harguments (List.mem_of_mem_take h)
      · exact harguments (List.mem_of_mem_take h)
      · exact List.mem_of_mem_filter h
      · exact h
      · exact h
    · exact h
  · exact h

theorem positional_of_extract {args : List Node} (h : extractFunctionArgs f children = some args) :
    positional children = args := (Option.ite_none_right_eq_some.mp h).2 |> Option.some.inj

theorem clean_stringAgg {column separator : Node} :
    Clean (translateStringAgg f children column separator) ↔ Clean column ∧ Clean separator := by
  have hgroup : Clean (makeFunctionCall "groupArray" [column]) ↔ Clean column := by
    rw [clean_makeFunctionCall (by simp [newNames]), List.forall_mem_singleton]
  have hdeduped : Clean (if f.duplicateTreatment = some .distinct then
      makeFunctionCall "arrayDistinct" [makeFunctionCall "groupArray" [column]]
        else makeFunctionCall "groupArray" [column]) ↔ Clean column := by
    split
    · rw [clean_makeFunctionCall (by simp [newNames]), List.forall_mem_singleton, hgroup]
    · exact hgroup
  rw [translateStringAgg, clean_makeFunctionCall (by simp [newNames]), List.forall_mem_cons, List.forall_mem_singleton]
  refine and_congr_left fun _ => ?_
  split
  · rw [clean_makeFunctionCall (by simp [newNames]), List.forall_mem_singleton, hdeduped]
  · exact hdeduped

theorem startOf_new {interval name : String} (h : startOf interval = some name) : name ∈ newNames := by
  unfold startOf at h
  split at h
  all_goals first | (cases h; simp [newNames]) | cases h

theorem startOf_ne {interval name : String} (h : startOf interval = some name) : name ≠ "arrayStringConcat" := by
  unfold startOf at h
  split at h
  all_goals first | (cases h; decide) | cases h

theorem renamed_new {name newName : String}
    (h : translatorOf name = some (.simpleRename newName) ∨ translatorOf name = some (.native newName)) :
    newName ∈ newNames := by
  unfold translatorOf at h
  split at h
  all_goals rcases h with h | h <;> cases h <;> simp [newNames]

theorem surviving_of_none (h : replacement kind children = none) : surviving kind children = children := by
  unfold surviving
  rw [h]
  rfl

theorem translateNode_of_none (h : replacement kind children = none) (hcast : ∀ k dt fmt, kind ≠ .cast k dt fmt) :
    translateNode kind children = .mk kind children := by
  unfold translateNode
  split
  · exact absurd rfl (hcast _ _ _)
  · rw [h, Option.getD_none]

/-- A call that is translated is as clean as the parts of it that survive. -/
theorem clean_translateFunction {r : Node} (h : translateFunction f children = some r) :
    Clean r ↔ ∀ e ∈ surviving (.function f) children, Clean e.2 := by
  have hsome : (replacement (.function f) children).isSome = true := Option.isSome_iff_exists.mpr ⟨r, h⟩
  rw [surviving, if_pos hsome]
  rw [translateFunction] at h
  cases htranslator : translatorOf f.name with
  | none =>
    rw [htranslator] at h
    cases h
  | some t =>
    rw [htranslator] at h
    cases t with
    | native newName =>
      cases h
      exact clean_mk_iff.trans (and_iff_right (not_pending_function (f := { f with name := newName })
        (translatorOf_new _ (renamed_new (Or.inr htranslator)))))
    | dateTrunc =>
      obtain ⟨args, hargs, h⟩ := Option.bind_eq_some_iff.mp h
      have hargs := positional_of_extract hargs
      rcases args with _ | ⟨interval, _ | ⟨column, rest⟩⟩
      · cases h
      · cases h
      · obtain ⟨q, -, h⟩ := Option.bind_eq_some_iff.mp h
        obtain ⟨name, hname, h⟩ := Option.bind_eq_some_iff.mp h
        cases h
        rw [clean_makeFunctionCall (startOf_new hname)]
        exact (forall_second hargs).symm
    | datePart =>
      obtain ⟨args, hargs, h⟩ := Option.bind_eq_some_iff.mp h
      have hargs := positional_of_extract hargs
      rcases args with _ | ⟨field, _ | ⟨column, rest⟩⟩
      · cases h
      · cases h
      · obtain ⟨q, -, h⟩ := Option.bind_eq_some_iff.mp h
        obtain ⟨part, -, h⟩ := Option.bind_eq_some_iff.mp h
        rw [clean_translateExtract h, ← List.forall_mem_singleton (p := Clean)]
        exact (forall_second hargs).symm
    | stringAgg =>
      obtain ⟨args, hargs, h⟩ := Option.bind_eq_some_iff.mp h
      have hargs := positional_of_extract hargs
      rcases args with _ | ⟨column, _ | ⟨separator, rest⟩⟩
      · cases h
      · cases h
      · cases h
        rw [clean_stringAgg, forall_arguments hargs, List.take_succ_cons, List.take_succ_cons, List.take_zero,
          List.forall_mem_cons, List.forall_mem_singleton]
    | toChar =>
      obtain ⟨args, hargs, h⟩ := Option.bind_eq_some_iff.mp h
      have hargs := positional_of_extract hargs
      rcases args with _ | ⟨datetime, _ | ⟨format, rest⟩⟩
      · cases h
      · cases h
      · obtain ⟨q, -, h⟩ := Option.bind_eq_some_iff.mp h
        cases h
        rw [clean_makeFunctionCall (by simp [newNames]), forall_arguments hargs, List.take_succ_cons, List.take_zero,
          List.forall_mem_cons, List.forall_mem_singleton, List.forall_mem_singleton, and_iff_left (clean_literal _)]
    | simpleRename newName =>
      obtain ⟨args, -, h⟩ := Option.bind_eq_some_iff.mp h
      cases h
      exact clean_mk_iff.trans (and_iff_right (not_pending_function (f := { f with name := newName })
        (translatorOf_new _ (renamed_new (Or.inl htranslator)))))
    | regexpReplace =>
      obtain ⟨args, hargs, h⟩ := Option.bind_eq_some_iff.mp h
      have hargs := positional_of_extract hargs
      rcases args with _ | ⟨text, _ | ⟨pattern, _ | ⟨replacement, rest⟩⟩⟩
      · cases h
      · cases h
      · cases h
      · cases h
        rw [clean_makeFunctionCall (by split <;> simp [newNames]), forall_arguments hargs]
        rfl
    | left =>
      obtain ⟨args, hargs, h⟩ := Option.bind_eq_some_iff.mp h
      have hargs := positional_of_extract hargs
      rcases args with _ | ⟨text, _ | ⟨n, rest⟩⟩
      · cases h
      · cases h
      · cases h
        rw [clean_makeFunctionCall (by simp [newNames]), forall_arguments hargs, List.take_succ_cons,
          List.take_succ_cons, List.take_zero]
        simp [clean_literal]
    | right =>
      obtain ⟨args, hargs, h⟩ := Option.bind_eq_some_iff.mp h
      have hargs := positional_of_extract hargs
      rcases args with _ | ⟨text, _ | ⟨n, rest⟩⟩
      · cases h
      · cases h
      · cases h
        rw [clean_makeFunctionCall (by simp [newNames]), forall_arguments hargs, List.take_succ_cons,
          List.take_succ_cons, List.take_zero]
        simp [clean_minus]

theorem clean_translateNode : Clean (translateNode kind children) ↔ ∀ e ∈ surviving kind children, Clean e.2 := by
  have hkeep : replacement kind children = none → (∀ k dt fmt, kind ≠ .cast k dt fmt) →
      (Clean (translateNode kind children) ↔ ∀ e ∈ surviving kind children, Clean e.2) := by
    intro hnone hcast
    rw [translateNode_of_none hnone hcast, surviving_of_none hnone, clean_mk_iff, and_iff_right (not_pending hnone)]
  cases kind with
  | cast k dt fmt =>
    have hsurviving : surviving (.cast k dt fmt) children = children := by
      unfold surviving
      split <;> rfl
    rw [hsurviving]
    exact clean_mk_iff.trans (and_iff_right (not_pending (by cases k <;> rfl)))
  | extract field =>
    cases hr : replacement (.extract field) children with
    | none => exact hkeep hr fun _ _ _ h => by cases h
    | some r =>
      obtain ⟨e, he, h⟩ := Option.bind_eq_some_iff.mp hr
      have htranslated : translateNode (.extract field) children = r := by
        change (replacement (.extract field) children).getD _ = r
        rw [hr, Option.getD_some]
      rw [htranslated, clean_translateExtract h]
      unfold surviving
      rw [hr]
      change _ ↔ ∀ e' ∈ (children.find? (·.1 = .extractExpr)).toList, Clean e'.2
      rw [he, Option.toList_some, List.forall_mem_singleton]
  | function f =>
    cases hr : replacement (.function f) children with
    | none => exact hkeep hr fun _ _ _ h => by cases h
    | some r =>
      have htranslated : translateNode (.function f) children = r := by
        change (replacement (.function f) children).getD _ = r
        rw [hr, Option.getD_some]
      rw [htranslated]
      exact clean_translateFunction hr
  | _ => exact hkeep rfl fun _ _ _ h => by cases h

theorem renamed_ne {name newName : String}
    (h : translatorOf name = some (.simpleRename newName) ∨ translatorOf name = some (.native newName)) :
    newName ≠ "arrayStringConcat" := by
  unfold translatorOf at h
  split at h
  all_goals rcases h with h | h <;> cases h <;> decide

end Parts

theorem clean_rewrite_iff (n : Node) : Clean (rewrite n) ↔ ∀ m, Missed m n → ¬Pending m := by
  induction n using Node.inductionOn with
  | mk kind children ih =>
    rw [rewrite, clean_translateNode, surviving_rewriteChildren, List.forall_mem_map]
    have hmem : ∀ e ∈ surviving kind children, e ∈ children := fun e he => surviving_subset he
    constructor
    · intro h m hm
      cases hm with
      | unwalked he hw hm =>
        have hpart := h _ he
        rw [translatedPart, if_neg (by rw [hw]; decide)] at hpart
        exact hpart m hm
      | walked he hw hm =>
        have hpart := h _ he
        rw [translatedPart, if_pos hw] at hpart
        exact (ih _ (hmem _ he)).mp hpart m hm
    · intro h e he
      rw [translatedPart]
      by_cases hw : e.1.walked = true
      · rw [if_pos hw]
        exact (ih e (hmem e he)).mpr fun m hm => h m (.walked he hw hm)
      · rw [if_neg hw]
        exact fun m hm => h m (.unwalked he (Bool.eq_false_iff.mpr hw) hm)

/-! ### Modifiers -/

section Modifiers
variable {n : Node} {children : Children} {f : FunctionHead} {m : Modifiers}

theorem filterMap_rewriteChildren {β : Type} {pick : Slot × Node → Option β} {act : β → β}
    (h : ∀ e, pick (translatedPart e) = (pick e).map act) :
    (rewriteChildren children).filterMap pick = (children.filterMap pick).map act := by
  rw [rewriteChildren_eq, List.filterMap_map, List.map_filterMap]
  exact congrArg (fun g => children.filterMap g) (funext h)

theorem ownModifiers_rewriteChildren :
    ownModifiers f (rewriteChildren children) = (ownModifiers f children).rewrite := by
  have hfilter : ∀ slot : Slot, slot.walked = true → ∀ e : Slot × Node,
      (if (translatedPart e).1 = slot then some (translatedPart e).2 else none) =
        (if e.1 = slot then some e.2 else none).map rewrite := by
    intro slot hw e
    change (if e.1 = slot then some (if e.1.walked then rewrite e.2 else e.2) else none) = _
    split
    · next h =>
      rw [h, if_pos hw]
      rfl
    · rfl
  have hframe : ∀ e : Slot × Node, (if (translatedPart e).1 = .overFrame then some (translatedPart e).2 else none) =
      (if e.1 = .overFrame then some e.2 else none).map id := by
    intro e
    change (if e.1 = .overFrame then some (if e.1.walked then rewrite e.2 else e.2) else none) = _
    split
    · next h =>
      rw [h]
      rfl
    · rfl
  unfold ownModifiers Modifiers.rewrite
  rw [Modifiers.mk.injEq]
  refine ⟨rfl, filterMap_rewriteChildren (hfilter .filter rfl), rfl,
    filterMap_rewriteChildren (hfilter .overPartitionBy rfl), filterMap_rewriteChildren ?_,
    (filterMap_rewriteChildren hframe).trans (List.map_id _), filterMap_rewriteChildren ?_,
    filterMap_rewriteChildren ?_⟩
  · rintro ⟨slot, n⟩
    cases slot <;> rfl
  · rintro ⟨slot, n⟩
    cases slot <;> rfl
  · rintro ⟨slot, n⟩
    cases slot <;> rfl

theorem ownModifiers_filter_parameter {newName : String} :
    ownModifiers { f with name := newName } (children.filter fun e => e.1 ≠ .parameter) = ownModifiers f children := by
  have hpick : ∀ {β : Type} (pick : Slot × Node → Option β), (∀ n, pick (.parameter, n) = none) →
      (children.filter fun e => e.1 ≠ .parameter).filterMap pick = children.filterMap pick := by
    intro β pick hnone
    rw [List.filterMap_filter]
    refine congrArg (fun g => children.filterMap g) (funext fun e => ?_)
    obtain ⟨slot, n⟩ := e
    by_cases h : slot = .parameter
    · subst h
      rw [hnone]
      rfl
    · simp [h]
  unfold ownModifiers
  rw [hpick _ fun _ => rfl, hpick _ fun _ => rfl, hpick _ fun _ => rfl, hpick _ fun _ => rfl, hpick _ fun _ => rfl,
    hpick _ fun _ => rfl]

theorem ownModifiers_arguments {name : String} {args : List Node} :
    ownModifiers { name } (args.map fun a => (.argument, a)) = {} := by
  have hpick : ∀ {β : Type} (pick : Slot × Node → Option β), (∀ n, pick (.argument, n) = none) →
      (args.map fun a => (Slot.argument, a)).filterMap pick = [] := by
    intro β pick hnone
    rw [List.filterMap_map, List.filterMap_eq_nil_iff]
    exact fun a _ => hnone a
  unfold ownModifiers
  rw [hpick _ fun _ => rfl, hpick _ fun _ => rfl, hpick _ fun _ => rfl, hpick _ fun _ => rfl, hpick _ fun _ => rfl,
    hpick _ fun _ => rfl]
  rfl

theorem positional_arguments {args : List Node} : positional (args.map fun a => (.argument, a)) = args := by
  rw [positional, List.filterMap_map]
  exact List.filterMap_some

theorem argumentOf_makeFunctionCall {name name' : String} {args : List Node} :
    argumentOf name (makeFunctionCall name' args) = if name' = name then args.head? else none := by
  change (if name' = name then (positional (args.map fun a => (Slot.argument, a))).head? else none) = _
  rw [positional_arguments]

theorem modifiers_makeFunctionCall {name : String} {args : List Node} (h : name ≠ "arrayStringConcat") :
    modifiers (makeFunctionCall name args) = {} := by
  have hnone : argumentOf "arrayStringConcat" (makeFunctionCall name args) = none := by
    rw [argumentOf_makeFunctionCall, if_neg h]
  rw [modifiers, hnone]
  exact ownModifiers_arguments

theorem modifiers_translateExtract {field : DateTimeField} {r : Node} (h : translateExtract field n = some r) :
    modifiers r = {} := by
  cases field with
  | epoch =>
    cases h
    rfl
  | dow =>
    cases h
    rfl
  | other text => cases h
  | _ =>
    cases h
    exact modifiers_makeFunctionCall (by decide)

theorem rewrite_eq_empty_iff : {} = m.rewrite ↔ m.Plain ∧ m.distinct = false ∧ m.orderBy = [] := by
  obtain ⟨distinct, filter, overClause, partitionBy, overOrderBy, frame, orderBy, withinGroup⟩ := m
  constructor
  · intro h
    obtain ⟨hdistinct, hfilter, hover, hpartition, hoverOrder, hframe, horder, hwithin⟩ := Modifiers.mk.inj h
    exact ⟨⟨List.map_eq_nil_iff.mp hfilter.symm, hover.symm, List.map_eq_nil_iff.mp hpartition.symm,
      List.map_eq_nil_iff.mp hoverOrder.symm, hframe.symm, List.map_eq_nil_iff.mp hwithin.symm⟩, hdistinct.symm,
      List.map_eq_nil_iff.mp horder.symm⟩
  · rintro ⟨⟨rfl, rfl, rfl, rfl, rfl, rfl⟩, rfl, rfl⟩
    rfl

theorem any_isClauseOrderBy : children.any (·.1.isClauseOrderBy) = true ↔ (ownModifiers f children).orderBy ≠ [] := by
  rw [List.any_eq_true, Ne, ownModifiers, List.filterMap_eq_nil_iff]
  push Not
  refine exists_congr fun e => and_congr_right fun _ => ?_
  obtain ⟨slot, n⟩ := e
  cases slot with
  | clauseOrderBy options => exact iff_of_true rfl (Option.some_ne_none _)
  | _ => exact iff_of_false Bool.false_ne_true fun h => h rfl

theorem modifiers_translateStringAgg {column separator : Node} :
    modifiers (translateStringAgg f children column separator) =
      { distinct := f.duplicateTreatment = some .distinct
        orderBy := if children.any (·.1.isClauseOrderBy) then [(false, none, column)] else [] } := by
  unfold translateStringAgg
  by_cases hdistinct : f.duplicateTreatment = some .distinct
  · by_cases horder : children.any (·.1.isClauseOrderBy) = true
    · simp only [if_pos hdistinct, if_pos horder, decide_eq_true hdistinct]
      rfl
    · simp only [if_pos hdistinct, if_neg horder, decide_eq_true hdistinct]
      rfl
  · by_cases horder : children.any (·.1.isClauseOrderBy) = true
    · simp only [if_neg hdistinct, if_pos horder, decide_eq_false hdistinct]
      rfl
    · simp only [if_neg hdistinct, if_neg horder, decide_eq_false hdistinct]
      rfl

theorem stringAgg_kept_iff {column : Node} (hdistinct : m.distinct = decide (f.duplicateTreatment = some .distinct)) :
    ({ distinct := f.duplicateTreatment = some .distinct
       orderBy := if m.orderBy ≠ [] then [(false, none, rewrite column)] else [] } : Modifiers) = m.rewrite ↔
      m.Plain ∧ (m.orderBy = [] ∨ ∃ key, m.orderBy = [(false, none, key)] ∧ rewrite key = rewrite column) := by
  obtain ⟨distinct, filter, overClause, partitionBy, overOrderBy, frame, orderBy, withinGroup⟩ := m
  dsimp only at hdistinct
  subst hdistinct
  constructor
  · intro h
    obtain ⟨-, hfilter, hover, hpartition, hoverOrder, hframe, horder, hwithin⟩ := Modifiers.mk.inj h
    refine ⟨⟨List.map_eq_nil_iff.mp hfilter.symm, hover.symm, List.map_eq_nil_iff.mp hpartition.symm,
      List.map_eq_nil_iff.mp hoverOrder.symm, hframe.symm, List.map_eq_nil_iff.mp hwithin.symm⟩, ?_⟩
    by_cases hnil : orderBy = []
    · exact Or.inl hnil
    · rw [if_pos hnil] at horder
      obtain ⟨⟨desc, nulls, key⟩, rfl, heq⟩ := List.map_eq_singleton_iff.mp horder.symm
      obtain ⟨rfl, heq⟩ := Prod.mk.inj heq
      obtain ⟨rfl, hkey⟩ := Prod.mk.inj heq
      exact Or.inr ⟨key, rfl, hkey⟩
  · rintro ⟨⟨rfl, rfl, rfl, rfl, rfl, rfl⟩, rfl | ⟨key, rfl, hkey⟩⟩
    · rfl
    · rw [if_pos (List.cons_ne_nil _ _), ← hkey]
      rfl

/-- Modifiers are kept exactly where the call that is put in has a place for them. -/
theorem modifiersKept_iff (n : Node) : ModifiersKept n ↔ ModifiersFit n := by
  obtain ⟨kind, children⟩ := n
  refine forall_congr' fun f => forall_congr' fun hkind => forall_congr' fun hpending => ?_
  obtain rfl : kind = .function f := hkind
  -- what is put in, from the translated parts
  obtain ⟨r, hr⟩ := Option.isSome_iff_exists.mp ((isSome_replacement (.function f) children).trans hpending)
  have hrewrite : rewrite (.mk (.function f) children) = r := by
    change (replacement (.function f) (rewriteChildren children)).getD _ = r
    rw [hr, Option.getD_some]
  rw [hrewrite]
  change modifiers r = (ownModifiers f children).rewrite ↔ _
  change translateFunction f (rewriteChildren children) = some r at hr
  rw [translateFunction] at hr
  have hempty : modifiers r = {} → (modifiers r = (ownModifiers f children).rewrite ↔
      (ownModifiers f children).Plain ∧ (ownModifiers f children).distinct = false ∧
        (ownModifiers f children).orderBy = []) := by
    intro h
    rw [h]
    exact rewrite_eq_empty_iff
  have hrenamed : ∀ {newName parts}, newName ≠ "arrayStringConcat" →
      modifiers (.mk (.function { f with name := newName }) parts) = ownModifiers { f with name := newName } parts := by
    intro newName parts hne
    have hargument : argumentOf "arrayStringConcat" (.mk (.function { f with name := newName }) parts) = none :=
      if_neg hne
    rw [modifiers, hargument]
    rfl
  cases htranslator : translatorOf f.name with
  | none =>
    rw [htranslator] at hr
    cases hr
  | some t =>
    rw [htranslator] at hr
    cases t with
    | native newName =>
      cases hr
      refine iff_of_true ?_ trivial
      rw [hrenamed (renamed_ne (Or.inr htranslator))]
      exact ownModifiers_rewriteChildren
    | simpleRename newName =>
      obtain ⟨args, -, hr⟩ := Option.bind_eq_some_iff.mp hr
      cases hr
      refine iff_of_true ?_ trivial
      rw [makeFunctionCallPreserving, hrenamed (renamed_ne (Or.inl htranslator)),
        ownModifiers_filter_parameter, ownModifiers_rewriteChildren]
    | stringAgg =>
      obtain ⟨args, hargs, hr⟩ := Option.bind_eq_some_iff.mp hr
      rw [extractFunctionArgs_rewriteChildren] at hargs
      obtain ⟨args, horiginal, rfl⟩ := Option.map_eq_some_iff.mp hargs
      rcases args with _ | ⟨column, _ | ⟨separator, rest⟩⟩
      · cases hr
      · cases hr
      · cases hr
        have hany : (rewriteChildren children).any (·.1.isClauseOrderBy) = children.any (·.1.isClauseOrderBy) := by
          rw [rewriteChildren_eq, List.any_map]
          rfl
        have hhead :
          (positional children).head? = some column := by rw [positional_of_extract horiginal, List.head?_cons]
        rw [modifiers_translateStringAgg, hany]
        simp only [any_isClauseOrderBy (f := f)]
        refine (stringAgg_kept_iff rfl).trans (and_congr_right fun _ => or_congr_right ?_)
        change _ ↔ ∃ column' ∈ (positional children).head?, _
        rw [hhead]
        exact ⟨fun h => ⟨column, rfl, h⟩, by rintro ⟨_, ⟨⟩, h⟩; exact h⟩
    | dateTrunc =>
      obtain ⟨args, -, hr⟩ := Option.bind_eq_some_iff.mp hr
      rcases args with _ | ⟨interval, _ | ⟨column, rest⟩⟩
      · cases hr
      · cases hr
      · obtain ⟨q, -, hr⟩ := Option.bind_eq_some_iff.mp hr
        obtain ⟨name, hname, hr⟩ := Option.bind_eq_some_iff.mp hr
        cases hr
        exact hempty (modifiers_makeFunctionCall (startOf_ne hname))
    | datePart =>
      obtain ⟨args, -, hr⟩ := Option.bind_eq_some_iff.mp hr
      rcases args with _ | ⟨field, _ | ⟨column, rest⟩⟩
      · cases hr
      · cases hr
      · obtain ⟨q, -, hr⟩ := Option.bind_eq_some_iff.mp hr
        obtain ⟨part, -, hr⟩ := Option.bind_eq_some_iff.mp hr
        exact hempty (modifiers_translateExtract hr)
    | toChar =>
      obtain ⟨args, -, hr⟩ := Option.bind_eq_some_iff.mp hr
      rcases args with _ | ⟨datetime, _ | ⟨format, rest⟩⟩
      · cases hr
      · cases hr
      · obtain ⟨q, -, hr⟩ := Option.bind_eq_some_iff.mp hr
        cases hr
        exact hempty (modifiers_makeFunctionCall (by decide))
    | regexpReplace =>
      obtain ⟨args, -, hr⟩ := Option.bind_eq_some_iff.mp hr
      rcases args with _ | ⟨text, _ | ⟨pattern, _ | ⟨replaced, rest⟩⟩⟩
      · cases hr
      · cases hr
      · cases hr
      · cases hr
        exact hempty (modifiers_makeFunctionCall (by split <;> decide))
    | left =>
      obtain ⟨args, -, hr⟩ := Option.bind_eq_some_iff.mp hr
      rcases args with _ | ⟨text, _ | ⟨n, rest⟩⟩
      · cases hr
      · cases hr
      · cases hr
        exact hempty (modifiers_makeFunctionCall (by decide))
    | right =>
      obtain ⟨args, -, hr⟩ := Option.bind_eq_some_iff.mp hr
      rcases args with _ | ⟨text, _ | ⟨n, rest⟩⟩
      · cases hr
      · cases hr
      · cases hr
        exact hempty (modifiers_makeFunctionCall (by decide))

end Modifiers

/-- A translation leaves nothing to translate and loses no modifier exactly if nothing to translate stands where the
walk does not come, and every call it replaces has only modifiers that there is a place for. -/
theorem translated_iff (n : Node) :
    Translated n ↔ (∀ m, Missed m n → ¬Pending m) ∧ ∀ m, Visited m n → ModifiersFit m := by
  refine and_congr (clean_rewrite_iff n) (forall_congr' fun m => forall_congr' fun _ => modifiersKept_iff m)

def selectQuery (parts : Children) : Node := .mk (.other "Query") [(.body, .mk (.other "Select") parts)]

/-- A cast in the condition of a join stays, and `string_agg(x, ',') FILTER (WHERE y)` joins all rows. -/
theorem not_translated :
    ¬Translated (selectQuery [(.projection, .mk (.other "x") []), (.fromRelation, .mk (.other "a") []),
        (.joinRelation, .mk (.other "b") []),
        (.joinConstraint, .mk (.cast .doubleColon .boolean none) [(.castExpr, .mk (.other "y") [])])]) ∧
      ¬Translated
        (selectQuery [(.projection, .mk (.function { name := "string_agg" }) [(.argument, .mk (.other "x") []),
        (.argument, literal (.singleQuotedString ",")), (.filter, .mk (.other "y") [])])]) := by
  constructor
  · intro h
    refine h.1 (.mk (.cast .doubleColon .boolean none) [(.castExpr, .mk (.other "y") [])]) ?_ rfl
    refine .child (List.mem_singleton_self _) (.child (e := (.joinConstraint, _)) ?_ (.self _))
    exact .tail _ (.tail _ (.tail _ (.head _)))
  · intro h
    have hkept :=
      h.2 _ (.child (List.mem_singleton_self _) rfl (.child (List.mem_singleton_self _) rfl (.root _))) _ rfl
      (by decide +kernel)
    exact absurd (congrArg (fun m : Modifiers => m.filter.length) hkept) (by decide +kernel)

end Reiver.Pond.Dialect
