import Mathlib.Data.List.Induction
import Mathlib.Data.List.Infix
import Mathlib.Data.List.Nodup
import Reiver.Core.Llm.Pricing

/-! # One price for a request

When the row that prices a request is the same for every order of the table, and is a row of the model that was asked
for. -/

namespace Reiver.Core.Llm

/-! ### Versions of a name -/

section Versions
variable (isDigit : Char → Bool)

/-- What may stand behind the name of a model: nothing, a date, a number, a number and a date, what follows a colon, or
what starts with digits. -/
def VersionSuffix (suffix : List Char) : Prop :=
  suffix = [] ∨ [':'] <+: suffix ∨ isDateSuffix isDigit suffix ∨ isNumericSuffix isDigit suffix ∨
    (['-'] <+: suffix ∧ startsWithDigits suffix.tail) ∨
    ∃ number date, suffix = number ++ date ∧ isNumericSuffix isDigit number ∧ isDateSuffix isDigit date

/-- The name is that of a model with a version behind it. -/
def VersionOf (model name : List Char) : Prop := ∃ suffix, name = model ++ suffix ∧ VersionSuffix isDigit suffix

theorem stripAtEnd_eq (pattern : List Char → Bool) (text : List Char) :
    stripAtEnd pattern text = text ∨ ∃ suffix, text = stripAtEnd pattern text ++ suffix ∧ pattern suffix := by
  induction text with
  | nil => exact Or.inl rfl
  | cons c cs ih =>
    unfold stripAtEnd
    split
    · next h => exact Or.inr ⟨c :: cs, rfl, h⟩
    · rcases ih with heq | ⟨suffix, htext, hsuffix⟩
      · exact Or.inl (by rw [heq])
      · refine Or.inr ⟨suffix, ?_, hsuffix⟩
        rw [List.cons_append, ← htext]

theorem versionOf_extractBaseModel (name : List Char) : VersionOf isDigit (extractBaseModel isDigit name) name := by
  unfold extractBaseModel
  rcases stripAtEnd_eq (isDateSuffix isDigit) name with hdate | ⟨date, hname, hdate⟩
  · rw [hdate]
    rcases stripAtEnd_eq (isNumericSuffix isDigit) name with hnumber | ⟨number, hname, hnumber⟩
    · exact ⟨[], by rw [hnumber, List.append_nil], Or.inl rfl⟩
    · exact ⟨number, hname, Or.inr (Or.inr (Or.inr (Or.inl hnumber)))⟩
  · rcases stripAtEnd_eq (isNumericSuffix isDigit) (stripAtEnd (isDateSuffix isDigit) name) with
      hnumber | ⟨number, hstripped, hnumber⟩
    · exact ⟨date, by rw [hnumber, ← hname], Or.inr (Or.inr (Or.inl hdate))⟩
    · refine ⟨number ++ date, ?_, Or.inr (Or.inr (Or.inr (Or.inr (Or.inr ⟨number, date, rfl, hnumber, hdate⟩))))⟩
      rw [← List.append_assoc, ← hstripped, ← hname]

theorem matchesAtEnd_append {pattern : List Char → Bool} {text : List Char} (front : List Char) (h : pattern text) :
    matchesAtEnd pattern (front ++ text) :=
  List.any_eq_true.mpr ⟨text, (List.mem_tails ..).mpr (List.suffix_append front text), h⟩

theorem dash_of_isDateSuffix {suffix : List Char} (h : isDateSuffix isDigit suffix) : ['-'] <+: suffix := by
  cases suffix with
  | nil => cases h
  | cons c cs =>
    have hc : c = '-' := by
      have h' : (decide (c = '-') && matchesShape isDigit "dddd-dd-dd".toList cs) = true := h
      simpa using (Bool.and_eq_true_iff.mp h').1
    exact ⟨cs, by rw [hc]; rfl⟩

theorem dash_of_isNumericSuffix {suffix : List Char} (h : isNumericSuffix isDigit suffix) : ['-'] <+: suffix := by
  unfold isNumericSuffix at h
  split at h
  · exact ⟨_, rfl⟩
  · cases h

theorem isVersionSuffix_of_versionSuffix {suffix : List Char} (h : VersionSuffix isDigit suffix) :
    isVersionSuffix isDigit suffix := by
  have hdashed : ∀ rest : List Char, ['-'] <+: rest →
      (matchesAtEnd (isDateSuffix isDigit) ('x' :: rest) || matchesAtEnd (isNumericSuffix isDigit) ('x' :: rest) ||
        startsWithDigits rest.tail) = true → isVersionSuffix isDigit rest = true := by
    intro rest hdash hmatches
    unfold isVersionSuffix
    split
    · rfl
    · split
      · rfl
      · exact hmatches
  rcases h with rfl | hcolon | hdate | hnumber | ⟨hdash, hdigits⟩ | ⟨number, date, rfl, hnumber, hdate⟩
  · rfl
  · unfold isVersionSuffix
    split <;> rfl
  · have hmatches := matchesAtEnd_append ['x'] hdate
    exact hdashed _ (dash_of_isDateSuffix isDigit hdate) (by simpa using Or.inl (Or.inl hmatches))
  · have hmatches := matchesAtEnd_append ['x'] hnumber
    exact hdashed _ (dash_of_isNumericSuffix isDigit hnumber) (by simpa using Or.inl (Or.inr hmatches))
  · exact hdashed _ hdash (by simp [hdigits])
  · have hmatches := matchesAtEnd_append ('x' :: number) hdate
    have hdash := (dash_of_isNumericSuffix isDigit hnumber).trans (List.prefix_append number date)
    exact hdashed _ hdash (by simpa using Or.inl (Or.inl hmatches))

end Versions

/-! ### The best of the rows -/

section Best
variable (isDigit : Char → Bool) (provider name : List Char)

def Fits (e : ModelPricing) : Prop :=
  e.provider = provider ∧ e.model <+: name ∧ isVersionSuffix isDigit (name.drop e.model.length) = true

/-- What the loop has kept of the rows it has seen. -/
def Best (rows : List ModelPricing) (best : Option ModelPricing × Nat) : Prop :=
  (best = (none, 0) ∨ ∃ e ∈ rows, Fits isDigit provider name e ∧ 0 < byteLen e.model ∧
    best = (some e, byteLen e.model)) ∧ ∀ e ∈ rows, Fits isDigit provider name e → byteLen e.model ≤ best.2

theorem best_foldl (rows : List ModelPricing) :
    Best isDigit provider name rows (rows.foldl (betterPrefix isDigit provider name) (none, 0)) := by
  induction rows using List.reverseRecOn with
  | nil => exact ⟨Or.inl rfl, by simp⟩
  | append_singleton rows e ih =>
    rw [List.foldl_append, List.foldl_cons, List.foldl_nil]
    obtain ⟨hkept, hmax⟩ := ih
    -- the row is taken when it fits and is longer than all before it
    by_cases htaken : Fits isDigit provider name e ∧
        (rows.foldl (betterPrefix isDigit provider name) (none, 0)).2 < byteLen e.model
    · obtain ⟨⟨hprovider, hstarts, hversion⟩, hlonger⟩ := htaken
      rw [betterPrefix, if_pos ⟨hprovider, hstarts, hlonger⟩, if_pos hversion]
      refine ⟨Or.inr ⟨e, by simp, ⟨hprovider, hstarts, hversion⟩, by omega, rfl⟩, ?_⟩
      intro e' he' hfits
      rcases List.mem_append.mp he' with hold | hnew
      · exact (hmax e' hold hfits).trans hlonger.le
      · rw [List.mem_singleton.mp hnew]
    · have hsame : betterPrefix isDigit provider name (rows.foldl (betterPrefix isDigit provider name) (none, 0)) e =
          rows.foldl (betterPrefix isDigit provider name) (none, 0) := by
        unfold betterPrefix
        split
        · next h =>
          split
          · next hversion => exact absurd ⟨⟨h.1, h.2.1, hversion⟩, h.2.2⟩ htaken
          · rfl
        · rfl
      rw [hsame]
      refine ⟨hkept.imp_right ?_, ?_⟩
      · rintro ⟨e', he', hrest⟩
        exact ⟨e', List.mem_append_left _ he', hrest⟩
      · intro e' he' hfits
        rcases List.mem_append.mp he' with hold | hnew
        · exact hmax e' hold hfits
        · rw [List.mem_singleton.mp hnew] at hfits ⊢
          exact not_lt.mp fun hlt => htaken ⟨hfits, hlt⟩

end Best

/-! ### Rows of a table -/

theorem byteLen_append (a b : List Char) : byteLen (a ++ b) = byteLen a + byteLen b := by
  simp [byteLen]

theorem byteLen_pos {a : List Char} (h : a ≠ []) : 0 < byteLen a := by
  obtain ⟨c, cs, rfl⟩ := List.exists_cons_of_ne_nil h
  have hc := c.utf8Size_pos
  simp only [byteLen, List.map_cons, List.sum_cons]
  omega

theorem eq_of_prefix_of_byteLen {a b name : List Char} (ha : a <+: name) (hb : b <+: name)
    (h : byteLen a = byteLen b) : a = b := by
  rcases List.prefix_or_prefix_of_prefix ha hb with ⟨rest, rfl⟩ | ⟨rest, rfl⟩
  · rw [byteLen_append] at h
    by_cases hrest : rest = []
    · rw [hrest, List.append_nil]
    · exact absurd (byteLen_pos hrest) (by omega)
  · rw [byteLen_append] at h
    by_cases hrest : rest = []
    · rw [hrest, List.append_nil]
    · exact absurd (byteLen_pos hrest) (by omega)

namespace PricingTable
variable {cache : PricingTable}

theorem eq_of_key {e e' : ModelPricing} (he : e ∈ cache.rows) (he' : e' ∈ cache.rows) (h : e.key = e'.key) : e = e' :=
  List.inj_on_of_nodup_map cache.nodup he he' h

theorem get_eq_some_iff {provider model : List Char} {e : ModelPricing} :
    cache.get provider model = some e ↔ e ∈ cache.rows ∧ e.provider = provider ∧ e.model = model := by
  constructor
  · intro h
    have hkey : e.key = (provider, model) := by simpa using List.find?_some h
    exact ⟨List.mem_of_find?_eq_some h, congrArg Prod.fst hkey, congrArg Prod.snd hkey⟩
  · rintro ⟨he, rfl, rfl⟩
    cases hget : cache.get e.provider e.model with
    | none => exact absurd (List.find?_eq_none.mp hget e he) (by simp [ModelPricing.key])
    | some found =>
      have hkey : found.key = (e.provider, e.model) := by simpa using List.find?_some hget
      rw [eq_of_key (List.mem_of_find?_eq_some hget) he hkey]

theorem get_perm {cache' : PricingTable} (h : cache'.rows.Perm cache.rows) (provider model : List Char) :
    cache'.get provider model = cache.get provider model := by
  apply Option.ext
  intro e
  rw [get_eq_some_iff, get_eq_some_iff, h.mem_iff]

end PricingTable

/-! ### The row that is chosen -/

section Choice
variable (isDigit : Char → Bool) (cache : PricingTable) (provider name : List Char)

/-- The provider has a row for the name without its version. -/
def HasBase : Prop :=
  extractBaseModel isDigit name ≠ name ∧ (cache.get provider (extractBaseModel isDigit name)).isSome

/-- The longest of the rows that the loop may take. -/
def LongestFit (e : ModelPricing) : Prop :=
  e ∈ cache.rows ∧ Fits isDigit provider name e ∧ e.model ≠ [] ∧
    ∀ e' ∈ cache.rows, Fits isDigit provider name e' → byteLen e'.model ≤ byteLen e.model

/-- The name any provider's rows are looked up by: the whole one, or the one without its version. -/
def sharedName : List Char :=
  if cache.rows.any (·.model = name) then name else extractBaseModel isDigit name

variable {isDigit cache provider name}

theorem LongestFit.unique {e e' : ModelPricing} (h : LongestFit isDigit cache provider name e)
    (h' : LongestFit isDigit cache provider name e') : e = e' := by
  have hlen := le_antisymm (h'.2.2.2 e h.1 h.2.1) (h.2.2.2 e' h'.1 h'.2.1)
  have hmodel := eq_of_prefix_of_byteLen h.2.1.2.1 h'.2.1.2.1 hlen
  exact PricingTable.eq_of_key h.1 h'.1 (Prod.ext (h.2.1.1.trans h'.2.1.1.symm) hmodel)

theorem foldl_eq_some_iff {e : ModelPricing} :
    (cache.rows.foldl (betterPrefix isDigit provider name) (none, 0)).1 = some e ↔
      LongestFit isDigit cache provider name e := by
  obtain ⟨hkept, hmax⟩ := best_foldl isDigit provider name cache.rows
  have hlongest : ∀ e ∈ cache.rows, Fits isDigit provider name e → 0 < byteLen e.model →
      cache.rows.foldl (betterPrefix isDigit provider name) (none, 0) = (some e, byteLen e.model) →
      LongestFit isDigit cache provider name e := by
    intro e he hfits hpos hbest
    refine ⟨he, hfits, fun hnil => ?_, fun e' he' hfits' => ?_⟩
    · rw [hnil] at hpos
      exact absurd hpos (lt_irrefl 0)
    · have hle := hmax e' he' hfits'
      rwa [hbest] at hle
  rcases hkept with hnone | ⟨e', he', hfits, hpos, hbest⟩
  · rw [hnone]
    refine ⟨fun h => by simp at h, fun h => ?_⟩
    have hle := hmax e h.1 h.2.1
    rw [hnone] at hle
    exact absurd (byteLen_pos h.2.2.1) (not_lt.mpr hle)
  · rw [hbest]
    have hfit := hlongest e' he' hfits hpos hbest
    constructor
    · intro h
      exact Option.some.inj h ▸ hfit
    · intro h
      rw [h.unique hfit]

variable (toLowercase : List Char → List Char)

theorem findModelFamilyMatch_of_base (hprovider : toLowercase provider = provider) (hname : toLowercase name = name)
    {e : ModelPricing} (hne : extractBaseModel isDigit name ≠ name)
    (hbase : cache.get provider (extractBaseModel isDigit name) = some e) :
    findModelFamilyMatch toLowercase isDigit cache provider name = some e := by
  simp only [findModelFamilyMatch, hprovider, hname, if_pos hne, hbase]

theorem findModelFamilyMatch_of_no_base (hprovider : toLowercase provider = provider)
    (hname : toLowercase name = name) (hbase : ¬HasBase isDigit cache provider name) :
    findModelFamilyMatch toLowercase isDigit cache provider name =
      (cache.rows.foldl (betterPrefix isDigit provider name) (none, 0)).1 := by
  have hnone : (if extractBaseModel isDigit name ≠ name then cache.get provider (extractBaseModel isDigit name)
      else none) = none := by
    split
    · next hne => exact Option.not_isSome_iff_eq_none.mp fun h => hbase ⟨hne, h⟩
    · rfl
  simp only [findModelFamilyMatch, hprovider, hname, hnone]

theorem findAnyProviderMatch_eq (hname : toLowercase name = name) :
    findAnyProviderMatch toLowercase isDigit cache name =
      cache.rows.find? (·.model = sharedName isDigit cache name) := by
  unfold findAnyProviderMatch sharedName
  rw [hname]
  cases hfind : cache.rows.find? (·.model = name) with
  | some e =>
    have hany : cache.rows.any (·.model = name) = true :=
      List.any_eq_true.mpr ⟨e, List.mem_of_find?_eq_some hfind, by simpa using List.find?_some hfind⟩
    rw [if_pos hany, hfind]
    simp only [hfind]
  | none =>
    have hany : ¬cache.rows.any (·.model = name) = true := by
      rw [List.any_eq_true]
      rintro ⟨e, he, hmodel⟩
      exact List.find?_eq_none.mp hfind e he hmodel
    rw [if_neg hany]
    by_cases hbase : extractBaseModel isDigit name = name
    · simp only [hfind, hbase, ne_eq, not_true_eq_false, if_false]
    · simp only [hfind, ne_eq, hbase, not_false_eq_true, if_true]

end Choice

/-! ### One price -/

section Law
variable (toLowercase : List Char → List Char) (isDigit : Char → Bool) (cache : PricingTable)
  (provider model : List Char)

def nameOf : List Char := stripProviderPrefix (toLowercase model)

/-- A row of the provider for the name without a version, and no longer one. -/
def LongestVersion (e : ModelPricing) : Prop :=
  e.provider = toLowercase provider ∧ VersionOf isDigit e.model (nameOf toLowercase model) ∧
    ∀ e' ∈ cache.rows, e'.provider = toLowercase provider → VersionOf isDigit e'.model (nameOf toLowercase model) →
      byteLen e'.model ≤ byteLen e.model

/-- The row for a request is the same in any order of the table; it is the row of provider and model, else the longest
version of the model that the provider has, and one of another provider only when all rows of its name have the same
prices. -/
structure OnePrice : Prop where
  order : ∀ cache' : PricingTable, cache'.rows.Perm cache.rows →
    (pricingOf toLowercase isDigit cache' provider model).map ModelPricing.prices =
      (pricingOf toLowercase isDigit cache provider model).map ModelPricing.prices
  exact : ∀ e, cache.get (toLowercase provider) (nameOf toLowercase model) = some e →
    pricingOf toLowercase isDigit cache provider model = some e
  version : cache.get (toLowercase provider) (nameOf toLowercase model) = none →
    ∀ e ∈ cache.rows, e.provider = toLowercase provider → e.model ≠ [] →
      VersionOf isDigit e.model (nameOf toLowercase model) →
      ∃ chosen, pricingOf toLowercase isDigit cache provider model = some chosen ∧
        chosen.provider = toLowercase provider
  chosen : cache.get (toLowercase provider) (nameOf toLowercase model) = none →
    ∀ e, pricingOf toLowercase isDigit cache provider model = some e →
      LongestVersion toLowercase isDigit cache provider model e ∨
        (e.provider ≠ toLowercase provider ∧ ∀ e' ∈ cache.rows, e'.model = e.model → e'.prices = e.prices)

/-- Without a row of provider and model: the provider's row for the base is its longest version; or there is none, and
what stands behind its longest name is a version; or there is no such name, and the rows of the shared name have the
same prices. -/
structure PricedOnce (P N : List Char) : Prop where
  base : ∀ e, extractBaseModel isDigit N ≠ N → cache.get P (extractBaseModel isDigit N) = some e →
    ∀ e' ∈ cache.rows, e'.provider = P → VersionOf isDigit e'.model N → byteLen e'.model ≤ byteLen e.model
  longest : ¬HasBase isDigit cache P N → ∀ e, LongestFit isDigit cache P N e →
    VersionSuffix isDigit (N.drop e.model.length)
  shared : ¬HasBase isDigit cache P N → (¬∃ e, LongestFit isDigit cache P N e) →
    ∀ e ∈ cache.rows, ∀ e' ∈ cache.rows, e.model = sharedName isDigit cache N → e'.model = sharedName isDigit cache N →
      e'.prices = e.prices

variable {toLowercase isDigit cache provider model}

theorem Fits.of_versionOf {P N : List Char} {e : ModelPricing} (hprovider : e.provider = P)
    (hversion : VersionOf isDigit e.model N) : Fits isDigit P N e := by
  obtain ⟨suffix, hN, hsuffix⟩ := hversion
  refine ⟨hprovider, ⟨suffix, hN.symm⟩, ?_⟩
  rw [hN, List.drop_left]
  exact isVersionSuffix_of_versionSuffix isDigit hsuffix

theorem exists_longestFit {P N : List Char} {e : ModelPricing} (he : e ∈ cache.rows) (hfits : Fits isDigit P N e)
    (hne : e.model ≠ []) : ∃ e', LongestFit isDigit cache P N e' := by
  obtain ⟨hkept, hmax⟩ := best_foldl isDigit P N cache.rows
  rcases hkept with hnone | ⟨e', -, -, -, hbest⟩
  · have hle := hmax e he hfits
    rw [hnone] at hle
    exact absurd (byteLen_pos hne) (not_lt.mpr hle)
  · exact ⟨e', foldl_eq_some_iff.mp (by rw [hbest])⟩

theorem provider_ne_of_shared {P N : List Char} {e : ModelPricing} (hget : cache.get P N = none)
    (hbase : ¬HasBase isDigit cache P N) (he : e ∈ cache.rows) (hmodel : e.model = sharedName isDigit cache N) :
    e.provider ≠ P := by
  intro hprovider
  unfold sharedName at hmodel
  split at hmodel
  · rw [PricingTable.get_eq_some_iff.mpr ⟨he, hprovider, hmodel⟩] at hget
    cases hget
  · have hfound := PricingTable.get_eq_some_iff.mpr ⟨he, hprovider, hmodel⟩
    by_cases hne : extractBaseModel isDigit N = N
    · rw [hne, hget] at hfound
      cases hfound
    · exact hbase ⟨hne, by rw [hfound]; rfl⟩

/-- The end of a text in lower case is in lower case. -/
def Lowercases (toLowercase : List Char → List Char) : Prop :=
  ∀ text suffix, suffix <:+ toLowercase text → toLowercase suffix = suffix

theorem stripProviderPrefix_suffix (text : List Char) : stripProviderPrefix text <:+ text := by
  unfold stripProviderPrefix
  split
  · exact List.suffix_rfl
  · exact (List.tail_suffix _).trans (List.dropWhile_suffix _)

theorem pricingOf_of_get_none (hget : cache.get (toLowercase provider) (nameOf toLowercase model) = none) :
    pricingOf toLowercase isDigit cache provider model =
      (findModelFamilyMatch toLowercase isDigit cache (toLowercase provider) (nameOf toLowercase model)).or
        (findAnyProviderMatch toLowercase isDigit cache (nameOf toLowercase model)) := by
  unfold pricingOf
  unfold nameOf at hget ⊢
  dsimp only
  rw [hget]
  cases findModelFamilyMatch toLowercase isDigit cache (toLowercase provider)
    (stripProviderPrefix (toLowercase model)) <;> rfl

variable (isDigit) in
/-- Which row is chosen when there is none of provider and model. -/
theorem pricingOf_cases (hlower : Lowercases toLowercase)
    (hget : cache.get (toLowercase provider) (nameOf toLowercase model) = none) :
    (∃ e, extractBaseModel isDigit (nameOf toLowercase model) ≠ nameOf toLowercase model ∧
      cache.get (toLowercase provider) (extractBaseModel isDigit (nameOf toLowercase model)) = some e ∧
      pricingOf toLowercase isDigit cache provider model = some e) ∨
    (¬HasBase isDigit cache (toLowercase provider) (nameOf toLowercase model) ∧
      ∃ e, LongestFit isDigit cache (toLowercase provider) (nameOf toLowercase model) e ∧
      pricingOf toLowercase isDigit cache provider model = some e) ∨
    (¬HasBase isDigit cache (toLowercase provider) (nameOf toLowercase model) ∧
      (¬∃ e, LongestFit isDigit cache (toLowercase provider) (nameOf toLowercase model) e) ∧
      pricingOf toLowercase isDigit cache provider model =
        cache.rows.find? (·.model = sharedName isDigit cache (nameOf toLowercase model))) := by
  have hprovider := hlower provider _ (List.suffix_refl _)
  have hname := hlower model _ (stripProviderPrefix_suffix (toLowercase model))
  change toLowercase (nameOf toLowercase model) = nameOf toLowercase model at hname
  rw [pricingOf_of_get_none hget]
  by_cases hbase : HasBase isDigit cache (toLowercase provider) (nameOf toLowercase model)
  · obtain ⟨hne, hsome⟩ := hbase
    obtain ⟨e, he⟩ := Option.isSome_iff_exists.mp hsome
    exact Or.inl ⟨e, hne, he, by rw [findModelFamilyMatch_of_base toLowercase hprovider hname hne he]; rfl⟩
  · rw [findModelFamilyMatch_of_no_base toLowercase hprovider hname hbase]
    by_cases hfit : ∃ e, LongestFit isDigit cache (toLowercase provider) (nameOf toLowercase model) e
    · obtain ⟨e, he⟩ := hfit
      exact Or.inr (Or.inl ⟨hbase, e, he, by rw [foldl_eq_some_iff.mpr he]; rfl⟩)
    · refine Or.inr (Or.inr ⟨hbase, hfit, ?_⟩)
      have hnone := Option.eq_none_iff_forall_not_mem.mpr fun e he => hfit ⟨e, foldl_eq_some_iff.mp he⟩
      rw [hnone, findAnyProviderMatch_eq toLowercase hname]
      rfl

theorem pricingOf_of_get {e : ModelPricing}
    (hget : cache.get (toLowercase provider) (nameOf toLowercase model) = some e) :
    pricingOf toLowercase isDigit cache provider model = some e := by
  unfold pricingOf
  unfold nameOf at hget
  dsimp only
  rw [hget]

/-! ### Another order of the table -/

theorem hasBase_perm {cache' : PricingTable} (h : cache'.rows.Perm cache.rows) {P N : List Char} :
    HasBase isDigit cache' P N ↔ HasBase isDigit cache P N := by
  rw [HasBase, HasBase, PricingTable.get_perm h]

theorem longestFit_perm {cache' : PricingTable} (h : cache'.rows.Perm cache.rows) {P N : List Char}
    {e : ModelPricing} : LongestFit isDigit cache' P N e ↔ LongestFit isDigit cache P N e := by
  simp only [LongestFit, h.mem_iff]

theorem sharedName_perm {cache' : PricingTable} (h : cache'.rows.Perm cache.rows) (N : List Char) :
    sharedName isDigit cache' N = sharedName isDigit cache N := by
  rw [sharedName, sharedName, h.any_eq]

theorem find?_prices_perm {rows rows' : List ModelPricing} (h : rows'.Perm rows) {name : List Char}
    (hsame : ∀ e ∈ rows, ∀ e' ∈ rows, e.model = name → e'.model = name → e'.prices = e.prices) :
    (rows'.find? (·.model = name)).map ModelPricing.prices = (rows.find? (·.model = name)).map ModelPricing.prices := by
  cases hfind : rows.find? (·.model = name) with
  | none =>
    have hnone : rows'.find? (·.model = name) = none :=
      List.find?_eq_none.mpr fun e he => List.find?_eq_none.mp hfind e (h.mem_iff.mp he)
    rw [hnone]
  | some e =>
    have he := List.mem_of_find?_eq_some hfind
    have hmodel : e.model = name := by simpa using List.find?_some hfind
    cases hfind' : rows'.find? (·.model = name) with
    | none => exact absurd (decide_eq_true hmodel) (List.find?_eq_none.mp hfind' e (h.mem_iff.mpr he))
    | some e' =>
      have he' := h.mem_iff.mp (List.mem_of_find?_eq_some hfind')
      have hmodel' : e'.model = name := by simpa using List.find?_some hfind'
      exact congrArg some (hsame e he e' he' hmodel hmodel')

theorem order_of_pricedOnce (hlower : Lowercases toLowercase)
    (h : cache.get (toLowercase provider) (nameOf toLowercase model) = none →
      PricedOnce isDigit cache (toLowercase provider) (nameOf toLowercase model))
    {cache' : PricingTable} (hperm : cache'.rows.Perm cache.rows) :
    (pricingOf toLowercase isDigit cache' provider model).map ModelPricing.prices =
      (pricingOf toLowercase isDigit cache provider model).map ModelPricing.prices := by
  cases hget : cache.get (toLowercase provider) (nameOf toLowercase model) with
  | some e =>
    rw [pricingOf_of_get hget, pricingOf_of_get ((PricingTable.get_perm hperm ..).trans hget)]
  | none =>
    have hget' := (PricingTable.get_perm hperm (toLowercase provider) (nameOf toLowercase model)).trans hget
    rcases pricingOf_cases isDigit hlower hget with
      ⟨e, hne, hbase, hchosen⟩ | ⟨hbase, e, hfit, hchosen⟩ | ⟨hbase, hfit, hchosen⟩
    · rcases pricingOf_cases isDigit hlower hget' with
        ⟨e', -, hbase', hchosen'⟩ | ⟨hbase', -⟩ | ⟨hbase', -⟩
      · rw [PricingTable.get_perm hperm, hbase] at hbase'
        rw [hchosen, hchosen', hbase']
      · exact absurd ((hasBase_perm hperm).mpr ⟨hne, by rw [hbase]; rfl⟩) hbase'
      · exact absurd ((hasBase_perm hperm).mpr ⟨hne, by rw [hbase]; rfl⟩) hbase'
    · rcases pricingOf_cases isDigit hlower hget' with
        ⟨e', hne', hbase', -⟩ | ⟨-, e', hfit', hchosen'⟩ | ⟨-, hfit', -⟩
      · exact absurd ((hasBase_perm hperm).mp ⟨hne', by rw [hbase']; rfl⟩) hbase
      · rw [hchosen, hchosen', hfit.unique ((longestFit_perm hperm).mp hfit')]
      · exact absurd ⟨e, (longestFit_perm hperm).mpr hfit⟩ hfit'
    · rcases pricingOf_cases isDigit hlower hget' with
        ⟨e', hne', hbase', -⟩ | ⟨-, e', hfit', -⟩ | ⟨-, -, hchosen'⟩
      · exact absurd ((hasBase_perm hperm).mp ⟨hne', by rw [hbase']; rfl⟩) hbase
      · exact absurd ⟨e', (longestFit_perm hperm).mp hfit'⟩ hfit
      · rw [hchosen, hchosen', sharedName_perm hperm]
        exact find?_prices_perm hperm ((h hget).shared hbase hfit)

/-- A request has one price exactly when the row of provider and model exists or the rows price it once. -/
theorem onePrice_iff (hlower : Lowercases toLowercase) :
    OnePrice toLowercase isDigit cache provider model ↔
      (cache.get (toLowercase provider) (nameOf toLowercase model) = none →
        PricedOnce isDigit cache (toLowercase provider) (nameOf toLowercase model)) := by
  constructor
  · intro hone hget
    rcases pricingOf_cases isDigit hlower hget with
      ⟨e, hne, hbase, hchosen⟩ | ⟨hbase, e, hfit, hchosen⟩ | ⟨hbase, hfit, hchosen⟩
    · have hrow := PricingTable.get_eq_some_iff.mp hbase
      refine ⟨fun e' _ hbase' => ?_, fun hno => absurd ⟨hne, by rw [hbase]; rfl⟩ hno,
        fun hno => absurd ⟨hne, by rw [hbase]; rfl⟩ hno⟩
      obtain rfl := Option.some.inj (hbase.symm.trans hbase')
      rcases hone.chosen hget e hchosen with hlongest | hother
      · exact hlongest.2.2
      · exact absurd hrow.2.1 hother.1
    · refine ⟨fun e' hne' hbase' => absurd ⟨hne', by rw [hbase']; rfl⟩ hbase, fun _ e' hfit' => ?_,
        fun _ hno => absurd ⟨e, hfit⟩ hno⟩
      obtain rfl := hfit.unique hfit'
      rcases hone.chosen hget e hchosen with hlongest | hother
      · obtain ⟨suffix, hname, hsuffix⟩ := hlongest.2.1
        rwa [hname, List.drop_left]
      · exact absurd hfit.2.1.1 hother.1
    · refine ⟨fun e' hne' hbase' => absurd ⟨hne', by rw [hbase']; rfl⟩ hbase,
        fun _ e' hfit' => absurd ⟨e', hfit'⟩ hfit, fun _ _ e he e' he' hmodel hmodel' => ?_⟩
      cases hfind : cache.rows.find? (·.model = sharedName isDigit cache (nameOf toLowercase model)) with
      | none => exact absurd (decide_eq_true hmodel) (List.find?_eq_none.mp hfind e he)
      | some c =>
        have hc := List.mem_of_find?_eq_some hfind
        have hcmodel : c.model = sharedName isDigit cache (nameOf toLowercase model) := by
          simpa using List.find?_some hfind
        rcases hone.chosen hget c (hchosen.trans hfind) with hlongest | hother
        · exact absurd hlongest.1 (provider_ne_of_shared hget hbase hc hcmodel)
        · rw [hother.2 e he (hmodel.trans hcmodel.symm), hother.2 e' he' (hmodel'.trans hcmodel.symm)]
  · intro h
    refine ⟨fun cache' hperm => order_of_pricedOnce hlower h hperm, fun e hget => pricingOf_of_get hget, ?_, ?_⟩
    · intro hget e he hprovider hmodel hversion
      rcases pricingOf_cases isDigit hlower hget with
        ⟨c, -, hbase, hchosen⟩ | ⟨-, c, hfit, hchosen⟩ | ⟨-, hfit, -⟩
      · exact ⟨c, hchosen, (PricingTable.get_eq_some_iff.mp hbase).2.1⟩
      · exact ⟨c, hchosen, hfit.2.1.1⟩
      · exact absurd (exists_longestFit he (Fits.of_versionOf hprovider hversion) hmodel) hfit
    · intro hget e hpricing
      rcases pricingOf_cases isDigit hlower hget with
        ⟨c, hne, hbase, hchosen⟩ | ⟨hbase, c, hfit, hchosen⟩ | ⟨hbase, hfit, hchosen⟩
      · obtain rfl := Option.some.inj (hchosen.symm.trans hpricing)
        obtain ⟨-, hprovider, hmodel⟩ := PricingTable.get_eq_some_iff.mp hbase
        exact Or.inl ⟨hprovider, hmodel ▸ versionOf_extractBaseModel isDigit _, (h hget).base c hne hbase⟩
      · obtain rfl := Option.some.inj (hchosen.symm.trans hpricing)
        obtain ⟨suffix, hname⟩ := hfit.2.1.2.1
        refine Or.inl ⟨hfit.2.1.1, ⟨suffix, hname.symm, ?_⟩, fun e' he' hprovider hversion =>
          hfit.2.2.2 e' he' (Fits.of_versionOf hprovider hversion)⟩
        have hversion := (h hget).longest hbase c hfit
        rwa [← hname, List.drop_left] at hversion
      · have hfind := hchosen.symm.trans hpricing
        have he := List.mem_of_find?_eq_some hfind
        have hmodel : e.model = sharedName isDigit cache (nameOf toLowercase model) := by
          simpa using List.find?_some hfind
        exact Or.inr ⟨provider_ne_of_shared hget hbase he hmodel, fun e' he' hmodel' =>
          (h hget).shared hbase hfit e he e' he' hmodel (hmodel'.trans hmodel)⟩

end Law

/-! ### Tables -/

/-- A row with one price for input and none for the rest. -/
def inputRow (provider model : String) (price : ℚ) : ModelPricing := ⟨provider.toList, model.toList, price, 0, 0, 0⟩

def oneRow (row : ModelPricing) : PricingTable := ⟨[row], by simp⟩

def twoRows (price price' : ℚ) : PricingTable :=
  ⟨[inputRow "groq" "llama-3" price, inputRow "together" "llama-3" price'], by
    simp [ModelPricing.key, inputRow]⟩

theorem toLower_toLower (c : Char) : c.toLower.toLower = c.toLower := by
  unfold Char.toLower
  grind

theorem lowercases_ascii : Lowercases (List.map Char.toLower) := by
  intro text suffix hsuffix
  obtain ⟨kept, -, rfl⟩ := List.suffix_map_iff.mp hsuffix
  simp [Function.comp_def, toLower_toLower]

theorem pricedOnce_colon :
    PricedOnce Char.isDigit (oneRow (inputRow "openai" "gpt-4o" 5)) "openai".toList "gpt-4o:beta".toList where
  base _ hne := absurd (by decide) hne
  longest _ e hfit := by
    obtain rfl := List.mem_singleton.mp hfit.1
    exact .inr (.inl ⟨"beta".toList, by decide⟩)
  shared _ _ e he e' he' _ _ := by rw [List.mem_singleton.mp he, List.mem_singleton.mp he']

theorem pricedOnce_shared (price : ℚ) :
    PricedOnce Char.isDigit (twoRows price price) "fireworks".toList "llama-3".toList where
  base _ hne := absurd (by decide) hne
  longest _ e hfit := by
    have hprovider := hfit.2.1.1
    rcases List.mem_pair.mp hfit.1 with rfl | rfl
    · exact absurd hprovider (by decide : "groq".toList ≠ "fireworks".toList)
    · exact absurd hprovider (by decide : "together".toList ≠ "fireworks".toList)
  shared _ _ e he e' he' _ _ := by
    rcases List.mem_pair.mp he with rfl | rfl <;> rcases List.mem_pair.mp he' with rfl | rfl <;> rfl

theorem onePrice_gpt :
    OnePrice (List.map Char.toLower) Char.isDigit (oneRow (inputRow "openai" "gpt-4o" 5)) "OpenAI".toList
        "openai/GPT-4o:beta".toList ∧
      OnePrice (List.map Char.toLower) Char.isDigit (twoRows 1 1) "Fireworks".toList "Llama-3".toList :=
  ⟨(onePrice_iff lowercases_ascii).mpr fun _ => pricedOnce_colon,
    (onePrice_iff lowercases_ascii).mpr fun _ => pricedOnce_shared 1⟩

theorem isDigit_of_isNumericSuffix {isDigit : Char → Bool} {c : Char} {suffix : List Char}
    (h : isNumericSuffix isDigit suffix) (hc : suffix[1]? = some c) : isDigit c := by
  unfold isNumericSuffix at h
  split at h
  · next digits =>
    rw [Bool.and_eq_true, List.all_eq_true] at h
    exact h.2 c (List.mem_of_getElem? (i := 0) (by simpa using hc))
  · cases h

theorem not_versionOf_turbo : ¬VersionOf Char.isDigit "gpt-4".toList "gpt-4-turbo-2024-05-13".toList := by
  rintro ⟨suffix, hname, hsuffix⟩
  obtain rfl : "-turbo-2024-05-13".toList = suffix := @List.append_cancel_left _ "gpt-4".toList _ _ hname
  rcases hsuffix with h | h | h | h | ⟨-, h⟩ | ⟨number, date, happend, hnumber, -⟩
  · exact absurd h (by decide)
  · exact absurd h (by decide)
  · exact absurd h (by decide)
  · exact absurd h (by decide)
  · exact absurd h (by decide)
  · -- a number has at least three digits behind its dash, and a `t` stands there
    have hlength : 1 < number.length := by
      unfold isNumericSuffix at hnumber
      split at hnumber
      · rw [Bool.and_eq_true, decide_eq_true_eq] at hnumber
        simp only [List.length_cons]
        omega
      · cases hnumber
    have hsecond : "-turbo-2024-05-13".toList[1]? = some 't' := by decide
    rw [happend, List.getElem?_append_left hlength] at hsecond
    exact absurd (isDigit_of_isNumericSuffix hnumber hsecond) (by decide)

/-- Two providers of one model have two prices, and the turbo model of a date is priced as the plain one. -/
theorem not_onePrice :
    ¬OnePrice (List.map Char.toLower) Char.isDigit (twoRows 1 2) "fireworks".toList "llama-3".toList ∧
      ¬OnePrice (List.map Char.toLower) Char.isDigit (oneRow (inputRow "openai" "gpt-4" 30)) "openai".toList
        "gpt-4-turbo-2024-05-13".toList := by
  constructor
  · intro h
    have horder := h.order ⟨(twoRows 1 2).rows.reverse, by decide⟩ (List.reverse_perm _)
    exact absurd horder (by decide)
  · intro h
    rcases h.chosen (by decide) (inputRow "openai" "gpt-4" 30) (by decide) with hlongest | hother
    · exact not_versionOf_turbo hlongest.2.1
    · exact absurd hother.1 (by decide)

end Reiver.Core.Llm
