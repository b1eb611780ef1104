import OneShot.Script.Report

/-!
# Failures and panics

Forms that fail or panic, and forms that look at how an expression ends.
-/

namespace OneShot.Script

open Prog

/-- Forms of failing and of looking at failures. -/
inductive FailingForm where
  /-- Fails with a user's error. -/
  | fail (spec : Datum)
  /-- Fails with a failure of the library. -/
  | throw (name : String)
  /-- Carries a failure of the expression as an error. -/
  | wrap (e : Expr)
  | panic (e : Expr)
  /-- The outcome as a value; panics pass. -/
  | try (e : Expr)
  /-- The outcome as a value; failures pass. -/
  | catch (e : Expr)
  /-- Whether the expression fails as canceled. -/
  | canceled (e : Expr)
  /-- Whether the expression fails with a user's error of a kind. -/
  | is (kind : String) (e : Expr)
  /-- Evaluates a clean-up after the expression, unless it panics. -/
  | finally (e cleanup : Expr)

namespace FailingForm

/-- The form with the given operator and arguments. -/
def read? (op : String) (args : List Datum) : Option FailingForm :=
  let e (i : Nat) : Expr := args.getD i .null
  let name (i : Nat) := (e i).name
  match op with
  | "fail" => some (.fail (e 0))
  | "throw" => some (.throw (name 0))
  | "wrap" => some (.wrap (e 0))
  | "panic" => some (.panic (e 0))
  | "try" => some (.try (e 0))
  | "catch" => some (.catch (e 0))
  | "canceled" => some (.canceled (e 0))
  | "is" => some (.is (name 0) (e 1))
  | "finally" => some (.finally (e 0) (e 1))
  | _ => none

/-- Whether a failure carries an error that the word of a kind accepts. -/
def isOfKind (word : String) (f : Failure) : Bool :=
  match f.carried?, matcherOf? word with
  | some c, some m => m.accepts c
  | _, _ => false

/-- The answer to a question about the failure of an expression; panics pass. -/
def onFailure (question : Failure → Bool) : Outcome Datum Datum → Prog Datum
  | .value _ => pure (.bool false)
  | .failure f => pure (.bool (question f))
  | .panic p => .panic p

/-- The meaning of a form. -/
def meaning (env : Env) : FailingForm → Prog Datum
  | .fail spec => do .fail (.body (← cause spec))
  | .throw name => do .fail (← orFault .missing (failureNamed? name))
  | .wrap e => do
    match ← outcome e env with
    | .failure f => .fail (.body (.failure f))
    | o => .ofOutcome o
  | .panic e => do .panic (← eval e env)
  | .try e => do
    match ← outcome e env with
    | .value d => pure (valueDatum d)
    | .failure f => pure (failureDatum f)
    | .panic p => .panic p
  | .catch e => do
    match ← outcome e env with
    | .value d => pure (valueDatum d)
    | .failure f => .fail f
    | .panic p => pure (panicDatum p)
  | .canceled e => do onFailure Failure.isCanceled (← outcome e env)
  | .is kind e => do onFailure (isOfKind kind) (← outcome e env)
  | .finally e cleanup => do
    match ← outcome e env with
    | .panic p => .panic p
    | o =>
      discard (eval cleanup env)
      .ofOutcome o

end FailingForm

end OneShot.Script
