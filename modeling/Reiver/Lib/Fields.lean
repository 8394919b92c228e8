import Mathlib.Data.List.Basic

/-! # Fields written one after another

A record of optional fields is written without anything between the fields. Two records with one text are equal when
their fields end at the same places. -/

namespace Reiver.Lib.Fields

variable {α : Type}

/-- The text of a record; a field that is absent leaves nothing. -/
def textOf (fields : List (Option (List α))) : List α := fields.flatMap (·.getD [])

/-- Which fields are present, and how long each is. -/
def cutsOf (fields : List (Option (List α))) : List (Option Nat) := fields.map (Option.map List.length)

@[simp] theorem textOf_nil : textOf ([] : List (Option (List α))) = [] := rfl

@[simp] theorem textOf_cons (f : Option (List α)) (fs : List (Option (List α))) :
    textOf (f :: fs) = f.getD [] ++ textOf fs := by simp [textOf]

@[simp] theorem textOf_append (fs gs : List (Option (List α))) : textOf (fs ++ gs) = textOf fs ++ textOf gs := by
  simp [textOf]

@[simp] theorem cutsOf_nil : cutsOf ([] : List (Option (List α))) = [] := rfl

@[simp] theorem cutsOf_cons (f : Option (List α)) (fs : List (Option (List α))) :
    cutsOf (f :: fs) = f.map List.length :: cutsOf fs := rfl

@[simp] theorem cutsOf_append (fs gs : List (Option (List α))) : cutsOf (fs ++ gs) = cutsOf fs ++ cutsOf gs := by
  simp [cutsOf]

theorem field_eq {f g : Option (List α)} {rest rest' : List α} (hcut : f.map List.length = g.map List.length)
    (htext : f.getD [] ++ rest = g.getD [] ++ rest') : f = g ∧ rest = rest' := by
  cases f with
  | none =>
    cases g with
    | none => exact ⟨rfl, by simpa using htext⟩
    | some g => simp at hcut
  | some f =>
    cases g with
    | none => simp at hcut
    | some g =>
      obtain ⟨hfield, hrest⟩ := List.append_inj htext (by simpa using hcut)
      exact ⟨congrArg some hfield, hrest⟩

theorem record_eq {fs gs : List (Option (List α))} {rest rest' : List α} (hcuts : cutsOf fs = cutsOf gs)
    (htext : textOf fs ++ rest = textOf gs ++ rest') : fs = gs ∧ rest = rest' := by
  induction fs generalizing gs with
  | nil =>
    cases gs with
    | nil => exact ⟨rfl, by simpa using htext⟩
    | cons g gs => simp at hcuts
  | cons f fs ih =>
    cases gs with
    | nil => simp at hcuts
    | cons g gs =>
      simp only [cutsOf_cons, List.cons.injEq] at hcuts
      simp only [textOf_cons, List.append_assoc] at htext
      obtain ⟨rfl, htail⟩ := field_eq hcuts.1 htext
      obtain ⟨rfl, hrest⟩ := ih hcuts.2 htail
      exact ⟨rfl, hrest⟩

theorem records_eq {rs ss : List (List (Option (List α)))} {rest rest' : List α}
    (hcuts : rs.map cutsOf = ss.map cutsOf) (htext : textOf rs.flatten ++ rest = textOf ss.flatten ++ rest') :
    rs = ss ∧ rest = rest' := by
  induction rs generalizing ss with
  | nil =>
    cases ss with
    | nil => exact ⟨rfl, by simpa using htext⟩
    | cons s ss => simp at hcuts
  | cons r rs ih =>
    cases ss with
    | nil => simp at hcuts
    | cons s ss =>
      simp only [List.map_cons, List.cons.injEq] at hcuts
      simp only [List.flatten_cons, textOf_append, List.append_assoc] at htext
      obtain ⟨rfl, htail⟩ := record_eq hcuts.1 htext
      obtain ⟨rfl, hrest⟩ := ih hcuts.2 htail
      exact ⟨rfl, hrest⟩

end Reiver.Lib.Fields
