import Mathlib.Algebra.Group.Int.Defs
import Mathlib.Algebra.Group.Nat.Defs
import Mathlib.Data.List.Lookmap

/-! JSON values as a tree. The members of an object are kept as pairs, read by the first member of a name, and a
    number is an integer or else the bits of a double. -/

namespace Reiver

inductive JsonValue where
  | null
  | bool (b : Bool)
  | int (i : Int)
  | double (bits : Nat)
  | string (s : String)
  | array (items : List JsonValue)
  | object (members : List (String × JsonValue))

namespace JsonValue

def get : JsonValue → String → Option JsonValue
  | object members, name => members.lookup name
  | _, _ => none

def asStr : JsonValue → Option String
  | string s => some s
  | _ => none

def asBool : JsonValue → Option Bool
  | bool b => some b
  | _ => none

def asArray : JsonValue → Option (List JsonValue)
  | array items => some items
  | _ => none

/-- The integer, where an unsigned word of 64 bits holds it. -/
def asU64 : JsonValue → Option Nat
  | int i => if 0 ≤ i ∧ i < 2 ^ 64 then some i.toNat else none
  | _ => none

/-- The integer, where a signed word of 64 bits holds it. -/
def asI64 : JsonValue → Option Int
  | int i => if -2 ^ 63 ≤ i ∧ i < 2 ^ 63 then some i else none
  | _ => none

variable {name name' : String} {json value : JsonValue} {members : List (String × JsonValue)}

@[simp] theorem get_object_cons_self : (object ((name, value) :: members)).get name = some value := by
  simp [get]

@[simp] theorem get_object_cons_of_ne (h : name ≠ name') :
    (object ((name', value) :: members)).get name = (object members).get name := by
  rw [get, List.lookup_cons, beq_false_of_ne h]
  rfl

@[simp] theorem get_object_nil : (object []).get name = none := rfl

@[simp] theorem asStr_string (s : String) : (string s).asStr = some s := rfl

@[simp] theorem asBool_bool (b : Bool) : (bool b).asBool = some b := rfl

@[simp] theorem asArray_array (items : List JsonValue) : (array items).asArray = some items := rfl

theorem asU64_int {n : Nat} (h : n < 2 ^ 64) : (int n).asU64 = some n := by
  have hn : 0 ≤ (n : Int) ∧ (n : Int) < 2 ^ 64 := ⟨Int.natCast_nonneg n, by omega⟩
  rw [asU64, if_pos hn, Int.toNat_natCast]

theorem asI64_int {i : Int} (hlo : -2 ^ 63 ≤ i) (hhi : i < 2 ^ 63) : (int i).asI64 = some i :=
  if_pos ⟨hlo, hhi⟩

theorem sizeOf_get (h : json.get name = some value) : sizeOf value < sizeOf json := by
  cases json with
  | object members =>
    rw [object.sizeOf_spec]
    change members.lookup name = some value at h
    induction members with
    | nil => cases h
    | cons member members ih =>
      obtain ⟨key, held⟩ := member
      rw [List.lookup_cons] at h
      rw [List.cons.sizeOf_spec, Prod.mk.sizeOf_spec]
      split at h
      · cases h
        omega
      · have hrest := ih h
        omega
  | null => cases h
  | bool b => cases h
  | int i => cases h
  | double bits => cases h
  | string s => cases h
  | array items => cases h

theorem sizeOf_asArray {items : List JsonValue} (h : json.asArray = some items) (hvalue : value ∈ items) :
    sizeOf value < sizeOf json := by
  cases json with
  | array held =>
    cases h
    have hsize := List.sizeOf_lt_of_mem hvalue
    rw [array.sizeOf_spec]
    omega
  | null => cases h
  | bool b => cases h
  | int i => cases h
  | double bits => cases h
  | string s => cases h
  | object members => cases h

end JsonValue

end Reiver
