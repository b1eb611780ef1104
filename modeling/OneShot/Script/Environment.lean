import OneShot.Machine.Step
import OneShot.Script.Datum
import OneShot.Script.Table

/-!
# Environments, closures and the store

An expression is evaluated in an environment, and closures capture the environment in which they are
written. All closures of a program share one store: tables of what the program has named.

Evaluating an expression is an operation of the machine, so the meaning of an expression is code
that never recurs into its parts: it asks for their values.
-/

namespace OneShot.Script

/-- Expressions are data; a list whose first item is a text is a form. -/
abbrev Expr := Datum

/-- What a variable stands for. -/
inductive Binding where
  | value (d : Datum)
  | cont (k : ContId)

/-- Where an expression is evaluated. -/
structure Env where
  /-- The variables, the innermost first. -/
  vars : List (String × Binding)
  /-- The current context. -/
  ctx : Context
  /-- The coroutine through which `yield` yields. -/
  yielder : Option RoutineId
  /-- The label under which `log` logs. -/
  label : String
  /-- The place of the error that the current arm took. -/
  error : Option Nat

namespace Env

/-- Binds a variable to a value. -/
def bind (env : Env) (x : String) (d : Datum) : Env :=
  { env with vars := (x, .value d) :: env.vars }

/-- Binds a variable to a continuation. -/
def bindCont (env : Env) (x : String) (k : ContId) : Env :=
  { env with vars := (x, .cont k) :: env.vars }

end Env

/-- Code with the environment it captured. -/
inductive Closure where
  /-- Evaluates an expression. -/
  | expr (e : Expr) (env : Env)
  /-- Evaluates a body as long as a condition holds. -/
  | loop (condition body : Expr) (env : Env)
  /-- Evaluates a body for the numbers from `i` on to `count`; the values so far, the last first. -/
  | each (x : String) (i count : Nat) (body : Expr) (env : Env) (values : List Datum)
  /-- The body of a coroutine, by the name of the coroutine and of its input. -/
  | body (name x : String) (e : Expr) (env : Env)
  /-- A handler function, by the names of its argument and its continuation. -/
  | function (x k : String) (e : Expr) (env : Env)
  /-- What a handler does with the value of the body. -/
  | value (x : String) (e : Expr) (env : Env)
  /-- An arm of an exception block. -/
  | arm (x : String) (e : Expr) (env : Env)

/-- A named function: its parameters and its body. -/
structure Function where
  params : List String
  body : Expr

/-- What all closures of a program share. -/
structure Store where
  functions : Table Function
  cells : Table Datum
  /-- What was logged under each label, the newest first. -/
  logs : Table (List Datum)
  effects : Table EffectId
  coroutines : Table RoutineId
  yielders : Table RoutineId
  registries : Table RegistryId
  points : Table RoutineId
  contexts : Table Context
  handlers : Table (Handler Closure)
  stash : Table ContId
  /-- The errors that arms took; one that was used is gone. -/
  errors : Array (Option Cause)

/-- Code of a script. -/
abbrev Prog := Code Closure Datum Store

/-- Errors of the language itself. -/
inductive Fault where
  /-- A value has the wrong type. -/
  | type
  /-- A variable is not bound. -/
  | unbound
  /-- A name stands for nothing. -/
  | missing
  /-- A continuation or an error was used before. -/
  | spent
  /-- A coroutine is being resumed or canceled. -/
  | busy
  /-- A form is unknown. -/
  | op

namespace Fault

/-- The word for the fault. -/
def word : Fault → String
  | .type => "type"
  | .unbound => "unbound"
  | .missing => "missing"
  | .spent => "spent"
  | .busy => "busy"
  | .op => "op"

/-- The fault as a failure. -/
def failure (f : Fault) : Failure := .body (.plain ⟨"Script"⟩ f.word)

end Fault

namespace Prog

/-- Fails with a fault. -/
def fault {α : Type} (f : Fault) : Prog α := .fail f.failure

/-- The thing, or a fault if there is none. -/
def orFault {α : Type} (f : Fault) : Option α → Prog α
  | some a => .pure a
  | none => fault f

/-- The value of an expression. What is not a list is a literal. -/
def eval (e : Expr) (env : Env) : Prog Datum :=
  match e with
  | .list _ => .perform (.call (.expr e env) .nothing)
  | d => pure d.literal

/-- The outcome of an expression. -/
def outcome (e : Expr) (env : Env) : Prog (Outcome Datum Datum) :=
  .outcomeOf (.call (.expr e env) .nothing)

/-- The value of an expression that must be an integer. -/
def evalInt (e : Expr) (env : Env) : Prog Int64 := do
  orFault .type (← eval e env).int?

/-- The value of an expression that must be a truth value. -/
def evalBool (e : Expr) (env : Env) : Prog Bool := do
  orFault .type (← eval e env).bool?

/-- What is under a name in a table of the store. -/
def find {α : Type} (table : Store → Table α) (name : String) : Prog α := do
  orFault .missing ((table (← .get)).get? name)

/-- The registry with a name, made when it is first named. -/
def registry (name : String) : Prog RegistryId := do
  match (← .get).registries.get? name with
  | some r => pure r
  | none =>
    let r ← Code.query (.openRegistry : Query Closure)
    .modify fun s => { s with registries := s.registries.insert name r }
    pure r

end Prog

end OneShot.Script
