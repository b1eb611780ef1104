/-!
# Data

Scripts, their values, and the requests and answers of the outer layer are all *data*: trees of
atoms, lists and objects. Integers have 64 bits and wrap.
-/

namespace OneShot.Script

/-- A tree of atoms, lists and objects. -/
inductive Datum where
  | null
  | bool (b : Bool)
  | int (n : Int64)
  | text (s : String)
  | list (items : List Datum)
  | object (fields : List (String × Datum))
deriving Inhabited, BEq, Repr

namespace Datum

/-- The integer, if it is one. -/
def int? : Datum → Option Int64
  | .int n => some n
  | _ => none

/-- The truth value, if it is one. -/
def bool? : Datum → Option Bool
  | .bool b => some b
  | _ => none

/-- The text, if it is one. -/
def text? : Datum → Option String
  | .text s => some s
  | _ => none

/-- The items of a list, and none of anything else. -/
def items : Datum → List Datum
  | .list items => items
  | _ => []

/-- The fields of an object, and none of anything else. -/
def fields : Datum → List (String × Datum)
  | .object fields => fields
  | _ => []

/-- The field of an object, `null` if there is none. -/
def field (d : Datum) (name : String) : Datum := (d.fields.lookup name).getD .null

/-- The item of a list, `null` if there is none. -/
def item (d : Datum) (i : Nat) : Datum := d.items.getD i .null

/-- The datum as a name; what is no text names nothing that exists. -/
def name (d : Datum) : String := d.text?.getD ""

/-- The value that a datum which is no list denotes. An object describes a handler or settings; it
is no value, and denotes `null`. -/
def literal : Datum → Datum
  | .object _ => .null
  | d => d

/-- The integer of a natural number. -/
def ofNat (n : Nat) : Datum := .int (.ofNat n)

end Datum

end OneShot.Script
