import OneShot.Script.Coroutines

/-!
# Exceptions in scripts

Forms that raise errors and catch them by kind. Inside an arm, the error that it took can be raised
again or returned, once.
-/

namespace OneShot.Script

open Prog

/-- One arm: the word of the kind that it takes, the variable for the chain, and what it does. -/
structure ArmSpec where
  kind : String
  x : String
  body : Expr

/-- An arm spec from its parts, in order. -/
def ArmSpec.ofDatum (d : Datum) : ArmSpec := ⟨(d.item 0).name, (d.item 1).name, d.item 2⟩

/-- Forms of raising and catching. -/
inductive ExceptionForm where
  | raise (spec : Datum)
  | check (e : Expr)
  | checkError (spec : Datum)
  | checkRun (e : Expr)
  | tryWith (body : Expr) (arms : List ArmSpec)
  | reraise
  | returnError

namespace ExceptionForm

/-- The form with the given operator and arguments. -/
def read? (op : String) (args : List Datum) : Option ExceptionForm :=
  let e (i : Nat) : Expr := args.getD i .null
  match op with
  | "raise" => some (.raise (e 0))
  | "check" => some (.check (e 0))
  | "check_err" => some (.checkError (e 0))
  | "check_run" => some (.checkRun (e 0))
  | "try_with" => some (.tryWith (e 0) (args.tail.map ArmSpec.ofDatum))
  | "reraise" => some .reraise
  | "return_err" => some .returnError
  | _ => none

/-- Adds an arm: a known kind takes its errors, any other word all that the others leave. -/
def addArm (env : Env) (arms : Arms Closure) (s : ArmSpec) : Arms Closure :=
  let action := Closure.arm s.x s.body env
  match matcherOf? s.kind with
  | some m => arms.on m action
  | none => arms.orElse action

/-- Raises an error on the current context. -/
def raiseIn (env : Env) (c : Cause) : Prog Datum := .perform (.raise env.ctx c)

/-- Takes the error of the current arm, if it was not taken before. -/
def takeError (env : Env) : Prog Cause := do
  let place ← orFault .spent env.error
  let s ← .get
  .modify fun s => { s with errors := s.errors.setIfInBounds place none }
  orFault .spent (s.errors.getD place none)

/-- Keeps the error that an arm took, and evaluates the arm. -/
def enterArm (x : String) (e : Expr) (env : Env) (c : Cause) : Prog Datum := do
  let s ← .get
  .modify fun s => { s with errors := s.errors.push (some c) }
  eval e { env.bind x (chainDatum c) with error := some s.errors.size }

/-- The meaning of a form. -/
def meaning (env : Env) : ExceptionForm → Prog Datum
  | .raise spec => do raiseIn env (← cause spec)
  | .check e => eval e env
  | .checkError spec => do raiseIn env (← cause spec)
  | .checkRun e => do
    match ← outcome e env with
    | .failure f => raiseIn env (.failure f)
    | o => .ofOutcome o
  | .tryWith body arms => do
    CoroutineForm.requireNames env.ctx.config
    .perform (.tryWith env.ctx (arms.foldl (addArm env) .empty) (.expr body env))
  | .reraise => do raiseIn env (← takeError env)
  | .returnError => do .fail (.body (← takeError env))

end ExceptionForm

end OneShot.Script
