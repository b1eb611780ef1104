import OneShot.Script.Basics
import OneShot.Script.Contexts
import OneShot.Script.Coroutines
import OneShot.Script.Effects
import OneShot.Script.Exceptions
import OneShot.Script.Failing

/-!
# The meaning of expressions and closures

A datum that is not a list is a literal. A list is a form: its first item is the operator, the
others are arguments.
-/

namespace OneShot.Script

/-- A form of one of the families. -/
inductive Form where
  | basic (f : BasicForm)
  | failing (f : FailingForm)
  | coroutine (f : CoroutineForm)
  | effect (f : EffectForm)
  | context (f : ContextForm)
  | exception (f : ExceptionForm)

namespace Form

/-- The form with the given operator and arguments. -/
def read? (op : String) (args : List Datum) : Option Form :=
  (BasicForm.read? op args).map basic
    <|> (EffectForm.read? op args).map effect
    <|> (CoroutineForm.read? op args).map coroutine
    <|> (FailingForm.read? op args).map failing
    <|> (ExceptionForm.read? op args).map exception
    <|> (ContextForm.read? op args).map context

/-- The meaning of a form. -/
def meaning (env : Env) : Form → Prog Datum
  | .basic f => f.meaning env
  | .failing f => f.meaning env
  | .coroutine f => f.meaning env
  | .effect f => f.meaning env
  | .context f => f.meaning env
  | .exception f => f.meaning env

end Form

/-- The meaning of an expression. -/
def meaning (env : Env) : Expr → Prog Datum
  | .list (.text op :: args) =>
    match Form.read? op args with
    | some f => f.meaning env
    | none => Prog.fault .op
  | .list _ => Prog.fault .op
  | d => pure d.literal

/-- The code of a closure. The body of a coroutine makes its yielder known before anything else. -/
def codeOf : Closure → Entry Datum → Prog Datum
  | .expr e env, _ => meaning env e
  | .loop condition body env, _ => BasicForm.evalLoop condition body env
  | .each x i count body env values, _ => BasicForm.evalEach x i count body env values
  | .body name x e env, .start d self => do
    .modify fun s => { s with yielders := s.yielders.insert name self }
    meaning { env.bind x d with yielder := some self } e
  | .function x k e env, .performed d place => meaning ((env.bind x d).bindCont k place) e
  | .value x e env, .value d => meaning (env.bind x d) e
  | .arm x e env, .raised c => ExceptionForm.enterArm x e env c
  | _, _ => Prog.fault .type

end OneShot.Script
