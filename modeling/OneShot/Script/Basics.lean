import OneShot.Script.Report

/-!
# Data and control

Forms that compute with data, bind variables, branch, repeat and keep global cells and logs.
-/

namespace OneShot.Script

open Prog

/-- Arithmetic on wrapping integers. -/
inductive Arith where
  | add
  | sub
  | mul

/-- The result of an arithmetic operation. -/
def Arith.apply : Arith → Int64 → Int64 → Int64
  | .add, a, b => a + b
  | .sub, a, b => a - b
  | .mul, a, b => a * b

/-- Forms of data and control. -/
inductive BasicForm where
  | list (es : List Expr)
  | var (x : String)
  | arith (op : Arith) (a b : Expr)
  | less (a b : Expr)
  | equal (a b : Expr)
  | join (a b : Expr)
  | nth (l i : Expr)
  | sequence (es : List Expr)
  | bind (x : String) (e body : Expr)
  | branch (condition yes no : Expr)
  | loop (condition body : Expr)
  | each (x : String) (count body : Expr)
  | call (function : String) (es : List Expr)
  | getCell (cell : String)
  | setCell (cell : String) (e : Expr)
  | log (e : Expr)
  | label (label : String) (e : Expr)

namespace BasicForm

/-- The form with the given operator and arguments. -/
def read? (op : String) (args : List Datum) : Option BasicForm :=
  let e (i : Nat) : Expr := args.getD i .null
  let name (i : Nat) := (e i).name
  match op with
  | "list" => some (.list args)
  | "var" => some (.var (name 0))
  | "add" => some (.arith .add (e 0) (e 1))
  | "sub" => some (.arith .sub (e 0) (e 1))
  | "mul" => some (.arith .mul (e 0) (e 1))
  | "lt" => some (.less (e 0) (e 1))
  | "eq" => some (.equal (e 0) (e 1))
  | "cat" => some (.join (e 0) (e 1))
  | "nth" => some (.nth (e 0) (e 1))
  | "do" => some (.sequence args)
  | "let" => some (.bind (name 0) (e 1) (e 2))
  | "if" => some (.branch (e 0) (e 1) (e 2))
  | "while" => some (.loop (e 0) (e 1))
  | "for" => some (.each (name 0) (e 1) (e 2))
  | "call" => some (.call (name 0) args.tail)
  | "get" => some (.getCell (name 0))
  | "set" => some (.setCell (name 0) (e 1))
  | "log" => some (.log (e 0))
  | "label" => some (.label (name 0) (e 1))
  | _ => none

/-- Two texts or two lists in one. -/
def joined? : Datum → Datum → Option Datum
  | .text a, .text b => some (.text (a ++ b))
  | .list a, .list b => some (.list (a ++ b))
  | _, _ => none

/-- The item of a list; outside of the list there is `null`. -/
def nth? : Datum → Datum → Option Datum
  | .list items, .int i => some (if i < 0 then .null else items.getD i.toNatClampNeg .null)
  | _, _ => none

/-- Evaluates expressions in order, and has the value of the last. -/
def evalSequence (env : Env) (last : Datum) : List Expr → Prog Datum
  | [] => pure last
  | e :: es => do evalSequence env (← eval e env) es

/-- Evaluates the body, and then the whole loop again, as long as the condition holds. -/
def evalLoop (condition body : Expr) (env : Env) : Prog Datum := do
  if ← evalBool condition env then
    discard (eval body env)
    .perform (.call (.loop condition body env) .nothing)
  else
    pure .null

/-- Evaluates the body for the number `i`, and then goes on with the next one. -/
def evalEach (x : String) (i count : Nat) (body : Expr) (env : Env) (values : List Datum) :
    Prog Datum :=
  if i < count then do
    let d ← eval body (env.bind x (.ofNat i))
    .perform (.call (.each x (i + 1) count body env (d :: values)) .nothing)
  else
    pure (.list values.reverse)

/-- The value of a variable. A continuation is no value. -/
def evalVar (x : String) (env : Env) : Prog Datum :=
  match env.vars.lookup x with
  | some (.value d) => pure d
  | some (.cont _) => fault .type
  | none => fault .unbound

/-- Evaluates the body of a function, which sees only its parameters. -/
def evalCall (name : String) (es : List Expr) (env : Env) : Prog Datum := do
  let f ← find Store.functions name
  let args ← es.mapM (eval · env)
  let bound := f.params.mapIdx fun i x => (x, Binding.value (args.getD i .null))
  eval f.body { env with vars := bound.reverse }

/-- Appends a value to the log with a label. -/
def addToLog (s : Store) (label : String) (d : Datum) : Store :=
  { s with logs := s.logs.insert label (d :: (s.logs.get? label).getD []) }

/-- The meaning of a form. -/
def meaning (env : Env) : BasicForm → Prog Datum
  | .list es => do return .list (← es.mapM (eval · env))
  | .var x => evalVar x env
  | .arith op a b => do
    let x ← evalInt a env
    let y ← evalInt b env
    return .int (op.apply x y)
  | .less a b => do
    let x ← evalInt a env
    let y ← evalInt b env
    return .bool (x < y)
  | .equal a b => do
    let x ← eval a env
    let y ← eval b env
    return .bool (x == y)
  | .join a b => do
    let x ← eval a env
    let y ← eval b env
    orFault .type (joined? x y)
  | .nth l i => do
    let x ← eval l env
    let y ← eval i env
    orFault .type (nth? x y)
  | .sequence es => evalSequence env .null es
  | .bind x e body => do
    let d ← eval e env
    eval body (env.bind x d)
  | .branch condition yes no => do
    if ← evalBool condition env then eval yes env else eval no env
  | .loop condition body => evalLoop condition body env
  | .each x count body => do
    let n ← evalInt count env
    evalEach x 0 n.toNatClampNeg body env []
  | .call name es => evalCall name es env
  | .getCell cell => do return ((← .get).cells.get? cell).getD .null
  | .setCell cell e => do
    let d ← eval e env
    .modify fun s => { s with cells := s.cells.insert cell d }
    return d
  | .log e => do
    let d ← eval e env
    .modify fun s => addToLog s env.label d
    return d
  | .label l e => eval e { env with label := l }

end BasicForm

end OneShot.Script
