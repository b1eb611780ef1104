import OneShot.Script.Coroutines

/-!
# Effects, handlers and continuations

Forms that perform and handle effects, and that resume, drop and stash continuations. A *handler
spec* is the name of a stored handler, or an object with the clauses and what is done with the
value.
-/

namespace OneShot.Script

open Prog

/-- One clause of a handler spec. -/
structure ClauseSpec where
  effect : String
  argument : String
  cont : String
  body : Expr

/-- A clause spec from its parts, in order. -/
def ClauseSpec.ofDatum (d : Datum) : ClauseSpec :=
  ⟨(d.item 0).name, (d.item 1).name, (d.item 2).name, d.item 3⟩

/-- Describes a handler. -/
inductive HandlerSpec where
  | named (name : String)
  /-- What is done with the value, if anything, and the clauses in the order of binding. -/
  | parts (value : Option (String × Expr)) (clauses : List ClauseSpec)

/-- A variable and an expression in a list. -/
def boundExpr (d : Datum) : String × Expr := ((d.item 0).name, d.item 1)

/-- The spec that a datum stands for. -/
def HandlerSpec.ofDatum : Datum → HandlerSpec
  | .object fields =>
    let d := Datum.object fields
    let value := match d.field "value" with
      | .list items => some (boundExpr (.list items))
      | _ => none
    .parts value ((d.field "on").items.map ClauseSpec.ofDatum)
  | d => .named d.name

/-- Forms about effects, handlers and continuations. -/
inductive EffectForm where
  | perform (effect : String) (e : Expr)
  | handle (h : HandlerSpec) (body : Expr)
  | resume (k : String) (e : Expr)
  | drop (k : String)
  | stash (k place : String)
  | unstash (place : String) (e : Expr)
  | discardStash (place : String)
  | new (effect : String)
  | copy (effect old : String)
  | id (effect : String)
  | debug (effect : String)
  | equal (effect other : String)
  | less (effect other : String)
  | handler (name : String) (h : HandlerSpec)
  | handlerOn (name : String) (h : HandlerSpec) (clause : ClauseSpec)
  | handlerTo (name : String) (h : HandlerSpec) (value : String × Expr)
  | handles (h : HandlerSpec) (effect : String)
  | handlerDebug (h : HandlerSpec)

namespace EffectForm

/-- The form with the given operator and arguments. -/
def read? (op : String) (args : List Datum) : Option EffectForm :=
  let e (i : Nat) : Expr := args.getD i .null
  let name (i : Nat) := (e i).name
  let spec (i : Nat) := HandlerSpec.ofDatum (e i)
  match op with
  | "perform" => some (.perform (name 0) (e 1))
  | "handle" => some (.handle (spec 0) (e 1))
  | "resume" => some (.resume (name 0) (e 1))
  | "drop" => some (.drop (name 0))
  | "stash" => some (.stash (name 0) (name 1))
  | "unstash" => some (.unstash (name 0) (e 1))
  | "discard" => some (.discardStash (name 0))
  | "eff.new" => some (.new (name 0))
  | "eff.copy" => some (.copy (name 0) (name 1))
  | "eff.id" => some (.id (name 0))
  | "eff.debug" => some (.debug (name 0))
  | "eff.eq" => some (.equal (name 0) (name 1))
  | "eff.lt" => some (.less (name 0) (name 1))
  | "h.new" => some (.handler (name 0) (spec 1))
  | "h.on" => some (.handlerOn (name 0) (spec 1) (.ofDatum (.list (args.drop 2))))
  | "h.to" => some (.handlerTo (name 0) (spec 1) (boundExpr (e 2)))
  | "h.handles" => some (.handles (spec 0) (name 1))
  | "h.debug" => some (.handlerDebug (spec 0))
  | _ => none

/-- Adds a clause to a handler. -/
def addClause (env : Env) (h : Handler Closure) (c : ClauseSpec) : Prog (Handler Closure) := do
  let e ← find Store.effects c.effect
  return h.on e (.function c.argument c.cont c.body env)

/-- The handler that a spec describes. -/
def handlerOf (env : Env) : HandlerSpec → Prog (Handler Closure)
  | .named name => find Store.handlers name
  | .parts value clauses =>
    let h := match value with
      | some (x, e) => Handler.identity.withValue (Closure.value x e env)
      | none => Handler.identity
    clauses.foldlM (addClause env) h

/-- Stores a handler under a name. -/
def storeHandler (name : String) (h : Handler Closure) : Prog Datum := do
  .modify fun s => { s with handlers := s.handlers.insert name h }
  return .null

/-- The continuation that a variable stands for, if it is still there. -/
def contOf (k : String) (env : Env) : Prog ContId :=
  match env.vars.lookup k with
  | some (.cont place) => do
    if ← Code.query (.holds place : Query Closure) then pure place else fault .spent
  | some (.value _) => fault .type
  | none => fault .unbound

/-- Drops a continuation. -/
def dropCont (place : ContId) : Prog Unit := .query (.discard place : Query Closure)

/-- Takes a continuation out of the stash. -/
def unstashed (place : String) : Prog (Option ContId) := do
  let s ← .get
  .modify fun s => { s with stash := s.stash.erase place }
  return s.stash.get? place

/-- Drops what is in a place of the stash; whether something was. -/
def clearStash (place : String) : Prog Bool := do
  match ← unstashed place with
  | some k => dropCont k; return true
  | none => return false

/-- A declared effect as messages show it. -/
def effectText (e : EffectId) : String := (Effect.declared e).text

/-- A debug view of a handler: the numbers of the effects that it binds, in order. -/
def debugText (h : Handler Closure) : String :=
  let ids := h.effects.map fun e => s!"EffectId({e.val})"
  "Handler \x7b effects: [" ++ ", ".intercalate ids ++ "] \x7d"

/-- The meaning of a form. -/
def meaning (env : Env) : EffectForm → Prog Datum
  | .perform effect e => do
    let effect ← find Store.effects effect
    let d ← eval e env
    .perform (.perform env.ctx effect d)
  | .handle spec body => do
    let h ← handlerOf env spec
    CoroutineForm.requireNames env.ctx.config
    .perform (.handle env.ctx h (.expr body env))
  | .resume k e => do
    let d ← eval e env
    let place ← contOf k env
    .perform (.continueWith place d)
  | .drop k => do
    dropCont (← contOf k env)
    return .null
  | .stash k place => do
    let c ← orFault .spent (← Code.query (.keep (← contOf k env) : Query Closure))
    discard (clearStash place)
    .modify fun s => { s with stash := s.stash.insert place c }
    return .null
  | .unstash place e => do
    let d ← eval e env
    let k ← orFault .missing (← unstashed place)
    .perform (.continueWith k d)
  | .discardStash place => do return .bool (← clearStash place)
  | .new effect => do
    let e ← Code.query (.declare : Query Closure)
    .modify fun s => { s with effects := s.effects.insert effect e }
    return .null
  | .copy effect old => do
    let e ← find Store.effects old
    .modify fun s => { s with effects := s.effects.insert effect e }
    return .null
  | .id effect => do return .text (effectText (← find Store.effects effect))
  | .debug effect => do
    let e ← find Store.effects effect
    return .text s!"Effect({effectText e})"
  | .equal effect other => do
    let e ← find Store.effects effect
    let e' ← find Store.effects other
    return .bool (e == e')
  | .less effect other => do
    let e ← find Store.effects effect
    let e' ← find Store.effects other
    return .bool (e.val < e'.val)
  | .handler name spec => do storeHandler name (← handlerOf env spec)
  | .handlerOn name spec clause => do
    let h ← handlerOf env spec
    storeHandler name (← addClause env h clause)
  | .handlerTo name spec (x, e) => do
    let h ← handlerOf env spec
    storeHandler name (h.withValue (Closure.value x e env))
  | .handles spec effect => do
    let h ← handlerOf env spec
    let e ← find Store.effects effect
    return .bool (h.handles e)
  | .handlerDebug spec => do return .text (debugText (← handlerOf env spec))

end EffectForm

end OneShot.Script
