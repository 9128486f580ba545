import Mathlib.Data.List.Basic
import Mathlib.Data.Rat.Defs
import Mathlib.Tactic.Common

/-! JSON values.

    Numbers are exact. A name of an object is looked up at its first member. -/

inductive JsonValue where
  | null
  | bool (b : Bool)
  | number (value : ℚ)
  | string (s : String)
  | array (elements : List JsonValue)
  | object (members : List (String × JsonValue))

namespace JsonValue

def isObject : JsonValue → Bool
  | .object _ => true
  | _ => false

/-- The value of a member. What is not an object has none. -/
def get? : JsonValue → String → Option JsonValue
  | .object members, name => members.lookup name
  | _, _ => none

/-- The names of the members. -/
def keys : JsonValue → List String
  | .object members => members.map (·.1)
  | _ => []

@[simp] theorem get?_object (members : List (String × JsonValue)) (name : String) :
    (object members).get? name = members.lookup name := rfl

theorem mem_of_lookup {name : String} {v : JsonValue} {members : List (String × JsonValue)}
    (h : members.lookup name = some v) : (name, v) ∈ members := by
  obtain ⟨l, r, rfl, -⟩ := List.lookup_eq_some_iff.mp h
  simp

theorem sizeOf_get? {j v : JsonValue} {name : String} (h : j.get? name = some v) :
    sizeOf v < sizeOf j := by
  cases j with
  | object members =>
    have hmem := List.sizeOf_lt_of_mem (mem_of_lookup h)
    simp only [Prod.mk.sizeOf_spec, object.sizeOf_spec] at hmem ⊢
    omega
  | _ => simp [get?] at h

theorem sizeOf_mem {v : JsonValue} {elements : List JsonValue} (h : v ∈ elements) :
    sizeOf v < sizeOf (array elements) := by
  have hmem := List.sizeOf_lt_of_mem h
  simp only [array.sizeOf_spec]
  omega

end JsonValue
