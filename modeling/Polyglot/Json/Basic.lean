import Polyglot.Text.Binary64

/-!
This module contains JSON values.
-/

namespace Polyglot

/--
A JSON value. Numbers written without a fraction and an exponent are integers, if they fit into 64
bits; the fields of an object keep their order.
-/
inductive Json where
  | null
  | bool (value : Bool)
  | int (value : Int)
  | real (value : Binary64)
  | str (value : String)
  | arr (items : List Json)
  | obj (fields : List (String × Json))
deriving Repr, Inhabited

namespace Json

def nat (n : Nat) : Json := .int n

/--
The value under `name`, the last one if there are several.
-/
def lookup? (fields : List (String × Json)) (name : String) : Option Json :=
  (fields.reverse.find? (·.1 == name)).map (·.2)

/--
The value under `name`, null if there is none.
-/
def lookupD (fields : List (String × Json)) (name : String) : Json :=
  (lookup? fields name).getD null

/--
The value of a field of an object.
-/
def field? (name : String) : Json → Option Json
  | obj fields => lookup? fields name
  | _ => none

theorem mem_of_lookup? {fields : List (String × Json)} {name : String} {value : Json}
    (h : lookup? fields name = some value) : ∃ key, (key, value) ∈ fields := by
  obtain ⟨⟨key, v⟩, hfind, rfl⟩ := Option.map_eq_some_iff.1 h
  exact ⟨key, by simpa using List.mem_of_find?_eq_some hfind⟩

theorem sizeOf_lt_of_mem_items {items : List Json} {value : Json} (h : value ∈ items) :
    sizeOf value < sizeOf (arr items) := by
  have := List.sizeOf_lt_of_mem h
  simp only [arr.sizeOf_spec]
  omega

theorem sizeOf_lt_of_mem_fields {fields : List (String × Json)} {key : String} {value : Json}
    (h : (key, value) ∈ fields) : sizeOf value < sizeOf (obj fields) := by
  have := List.sizeOf_lt_of_mem h
  simp only [obj.sizeOf_spec, Prod.mk.sizeOf_spec] at *
  omega

theorem sizeOf_lt_of_lookup? {fields : List (String × Json)} {name : String} {value : Json}
    (h : lookup? fields name = some value) : sizeOf value < sizeOf (obj fields) := by
  obtain ⟨key, hmem⟩ := mem_of_lookup? h
  exact sizeOf_lt_of_mem_fields hmem

def str? : Json → Option String
  | str s => some s
  | _ => none

def bool? : Json → Option Bool
  | bool b => some b
  | _ => none

def arr? : Json → Option (List Json)
  | arr items => some items
  | _ => none

/--
An integer that is at least zero and below `bound`.
-/
def natBelow? (bound : Nat) : Json → Option Nat
  | int i => if 0 ≤ i ∧ i.toNat < bound then some i.toNat else none
  | _ => none

/--
The value of a number, rounded if it is an integer beyond the precision.
-/
def real? : Json → Option Binary64
  | int i => some (if i < 0 then (Binary64.ofNat i.natAbs).neg else Binary64.ofNat i.natAbs)
  | real x => some x
  | _ => none

/--
A value that may be null.
-/
def nullable? (decode : Json → Option α) : Json → Option (Option α)
  | null => some none
  | j => (decode j).map some

/--
A list of values of one type.
-/
def list? (decode : Json → Option α) (j : Json) : Option (List α) := j.arr?.bind (·.mapM decode)

/--
The values of a record's fields. An object has them under their names, and a missing one is null;
an array has exactly these values in this order.
-/
def record? (names : List String) : Json → Option (List Json)
  | obj fields => some (names.map (lookupD fields))
  | arr items => if items.length = names.length then some items else none
  | _ => none

/--
The name in a value that stands for one of several names: the name itself, or an object with the
name as its only key and a null value.
-/
def name? : Json → Option String
  | str s => some s
  | obj [(s, null)] => some s
  | _ => none

end Json

end Polyglot
