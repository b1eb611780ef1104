import OneShot.Script.Coroutines
import OneShot.Text.Quoted

/-!
# Contexts in scripts

Forms that make contexts, evaluate in them, and look at the current one.
-/

namespace OneShot.Script

open Prog

/-- Forms about contexts. -/
inductive ContextForm where
  | new (name : String) (config : Datum)
  | inside (name : String) (e : Expr)
  | pending
  | config
  | debug

namespace ContextForm

/-- The form with the given operator and arguments. -/
def read? (op : String) (args : List Datum) : Option ContextForm :=
  let e (i : Nat) : Expr := args.getD i .null
  let name (i : Nat) := (e i).name
  match op with
  | "ctx.new" => some (.new (name 0) (e 1))
  | "in" => some (.inside (name 0) (e 1))
  | "ctx.pending" => some .pending
  | "ctx.config" => some .config
  | "ctx.debug" => some .debug
  | _ => none

/-- Makes a context under a name. -/
def create (name : String) (config : Config) : Prog Context := do
  let ctx ← Code.query (.openContext config : Query Closure)
  .modify fun s => { s with contexts := s.contexts.insert name ctx }
  return ctx

/-- How many resumes wait on a context. -/
def pendingOf (ctx : Context) : Prog Nat := .query (.pending ctx : Query Closure)

/-- A debug view of a context. -/
def debugText (pending : Nat) (c : Config) : String :=
  s!"Context \x7b pending: {pending}, config: CoConfig \x7b stack_size: {c.stackSize}, "
    ++ "name_prefix: " ++ Text.quoted c.namePrefix ++ " \x7d \x7d"

/-- The meaning of a form. -/
def meaning (env : Env) : ContextForm → Prog Datum
  | .new name d => do
    -- The global context is there for all programs; none can put another one in its place.
    if name != "global" then
      discard (create name (configOf d))
    return .null
  | .inside name e => do
    let ctx ← find Store.contexts name
    eval e { env with ctx := ctx }
  | .pending => do return .ofNat (← pendingOf env.ctx)
  | .config => pure (.list [.ofNat env.ctx.config.stackSize, .text env.ctx.config.namePrefix])
  | .debug => do return .text (debugText (← pendingOf env.ctx) env.ctx.config)

end ContextForm

end OneShot.Script
