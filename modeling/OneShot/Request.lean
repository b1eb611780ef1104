import OneShot.Script.Session

/-!
# Requests

The outer layer sends one request at a time, as an object with the field `op`. This module says what
each request asks for, and shows the answers as data.
-/

namespace OneShot.Request

open Script

/-- The answer to what is no request. -/
def badInput : Datum := .object [("error", .text "BadInput"), ("message", .text "bad input")]

/-- The answer to a program that does not come to its end. -/
def hang : Datum := .object [("error", .text "Hang"), ("message", .text "hang")]

/-! ## Statuses and failures -/

/-- The status that a field names. -/
def statusIn? (d : Datum) (field : String) : Option Status := Status.ofName? (d.field field).name

/-- Shows a status, and compares it with another one. -/
def answerStatus? (d : Datum) : Option Datum := do
  let a ← statusIn? d "a"
  let b ← statusIn? d "b"
  some (.object [("display", .text a.text), ("debug", .text a.name),
    ("terminal", .bool a.isTerminal), ("eq", .bool (a == b))])

/-- The failure that a request describes. -/
def failureIn? (d : Datum) : Option Failure :=
  let text := (d.field "text").name
  let status := statusIn? d "state"
  match (d.field "kind").name with
  | "CannotResume" => status.map .cannotResume
  | "CannotCancel" => status.map .cannotCancel
  | "CannotYield" => status.map .cannotYield
  | "TypeMismatch" => some (.typeMismatch text)
  | "Spawn" => some (.spawn text)
  | "Body" => some (.body (.plain Kind.other text))
  | "Nested" => status.map fun s => .body (.failure (.cannotResume s))
  | name => failureNamed? name

/-- Shows a failure. -/
def answerFailure? (d : Datum) : Option Datum := do
  let f ← failureIn? d
  let source := match f.sources with
    | c :: _ => .text c.message
    | [] => .null
  some (.object [("message", .text f.message), ("canceled", .bool f.isCanceled),
    ("source", source), ("nested", .bool (f.carried?.any (Matcher.failure.accepts ·)))])

/-! ## Registries -/

/-- An item of a registry. Items with equal keys are equal. -/
structure Item where
  key : Int64
  tag : Int64

instance : BEq Item := ⟨fun a b => a.key == b.key⟩

/-- The item as a pair. -/
def Item.datum (x : Item) : Datum := .list [.int x.key, .int x.tag]

/-- The operation that a list describes. -/
def operation? : Datum → Option (Registry.Op Item)
  | .list [.text "push", .int k, .int t] => some (.push ⟨k, t⟩)
  | .list [.text "pop"] => some .pop
  | .list [.text "delete", .int k, .int t] => some (.erase ⟨k, t⟩)
  | .list [.text "empty"] => some .isEmpty
  | .list [.text "pop_key", .int k] => some (.popWhere fun x => x.key == k)
  | .list [.text "pop_mod", .int m, .int r] =>
    some (.popWhere fun x => x.key.toInt % m.toInt == r.toInt)
  | .list [.text "pop_gt", .int n] => some (.popWhere fun x => n < x.key)
  | .list [.text "pop_tag", .int t] => some (.popWhere fun x => x.tag == t)
  | _ => none

/-- An answer of a registry as a datum. -/
def registryAnswer : Registry.Answer Item → Datum
  | .done => .null
  | .taken (some x) => x.datum
  | .taken none => .null
  | .emptiness b => .bool b

/-- Carries out operations on an empty registry; what is left is shown newest first. -/
def answerOperations? (d : Datum) : Option Datum := do
  let ops ← (d.field "ops").items.mapM operation?
  let (answers, last) := Registry.empty.trace ops
  let steps := answers.map fun (a, n) => .list [registryAnswer a, .ofNat n]
  some (.object [("steps", .list steps), ("rest", .list (last.items.map Item.datum))])

/-! ## Programs -/

/-- Runs a program. -/
def answerProgram (d : Datum) : Datum :=
  match (Program.ofDatum d).report? with
  | some r =>
    .object [("steps", r.steps),
      ("logs", .object (r.logs.map fun (label, ds) => (label, .list ds))),
      ("pending", .ofNat r.pending)]
  | none => hang

/-- The answer to a request. -/
def answer (d : Datum) : Datum :=
  match (d.field "op").name with
  | "state" => (answerStatus? d).getD badInput
  | "error" => (answerFailure? d).getD badInput
  | "stack" => (answerOperations? d).getD badInput
  | "run" => answerProgram d
  | _ => badInput

end OneShot.Request
