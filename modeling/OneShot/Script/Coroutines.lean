import OneShot.Script.Report

/-!
# Coroutines and registries

Forms that make, run and drop coroutines by name, yield from their bodies, and look into registries.

A coroutine cannot be dropped while a resume or cancellation of it is in progress. If it was taken
out of its table all the same, it is given up when the last of them comes back.
-/

namespace OneShot.Script

open Prog

/-- The settings that an object overrides, over the standard ones. A size is not negative. -/
def configOf (d : Datum) : Config :=
  let size := match d.field "stack_size" with
    | .int n => if n < 0 then Config.standard.stackSize else n.toNatClampNeg
    | _ => Config.standard.stackSize
  let namePrefix := match d.field "name_prefix" with
    | .text s => s
    | _ => Config.standard.namePrefix
  ⟨size, namePrefix⟩

/-- Forms about coroutines and registries. -/
inductive CoroutineForm where
  | new (name x : String) (body : Expr) (config : Datum)
  | resume (name : String) (e : Expr)
  | resumeOn (name registry : String) (e : Expr)
  | cancel (name : String)
  | status (name : String)
  | info (name : String)
  | id (name : String)
  | drop (name : String)
  | yield (e : Expr)
  | yieldBy (name : String) (e : Expr)
  | yielderId (name : String)
  | suspend (registry : String) (e : Expr)
  | size (registry : String)
  | isEmpty (registry : String)
  | pop (registry point : String)
  | popOf (registry name point : String)
  | push (registry point : String)
  | delete (registry point : String)
  | same (point other : String)
  | thread

namespace CoroutineForm

/-- The form with the given operator and arguments. -/
def read? (op : String) (args : List Datum) : Option CoroutineForm :=
  let e (i : Nat) : Expr := args.getD i .null
  let name (i : Nat) := (e i).name
  match op with
  | "co.new" => some (.new (name 0) (name 1) (e 2) (e 3))
  | "co.resume" => some (.resume (name 0) (e 1))
  | "co.resume_on" => some (.resumeOn (name 0) (name 1) (e 2))
  | "co.cancel" => some (.cancel (name 0))
  | "co.state" => some (.status (name 0))
  | "co.info" => some (.info (name 0))
  | "co.id" => some (.id (name 0))
  | "co.drop" => some (.drop (name 0))
  | "yield" => some (.yield (e 0))
  | "y.yield" => some (.yieldBy (name 0) (e 1))
  | "y.id" => some (.yielderId (name 0))
  | "suspend" => some (.suspend (name 0) (e 1))
  | "pts.len" => some (.size (name 0))
  | "pts.empty" => some (.isEmpty (name 0))
  | "pts.pop" => some (.pop (name 0) (name 1))
  | "pts.pop_of" => some (.popOf (name 0) (name 1) (name 2))
  | "pts.push" => some (.push (name 0) (name 1))
  | "pts.delete" => some (.delete (name 0) (name 1))
  | "pts.eq" => some (.same (name 0) (name 1))
  | "thread" => some .thread
  | _ => none

/-- The status of a coroutine. -/
def statusOf (c : RoutineId) : Prog Status := .query (.status c : Query Closure)

/-- Whether a resume or cancellation of a coroutine is in progress. -/
def isBusy (c : RoutineId) : Prog Bool := .query (.busy c : Query Closure)

/-- Takes a coroutine out of the table and drops it; whether it was there. -/
def dropNamed (name : String) : Prog Bool := do
  match (← .get).coroutines.get? name with
  | none => pure false
  | some c =>
    if ← isBusy c then
      fault .busy
    else
      .modify fun s => { s with coroutines := s.coroutines.erase name }
      discard (.perform (.dispose c .null))
      pure true

/-- Panics if threads cannot have names of these settings. The number of the coroutine is used up
all the same. -/
def requireNames (c : Config) : Prog Unit := do
  if !c.isNameable then
    Code.query (.skip : Query Closure)
    .panic (.text "thread name may not contain interior null bytes")

/-- Puts a coroutine into the table. One that got there under the same name meanwhile is given
up. -/
def enterNamed (name : String) (c : RoutineId) : Prog Unit := do
  let s ← .get
  .modify fun s => { s with coroutines := s.coroutines.insert name c }
  match s.coroutines.get? name with
  | some old => .query (.abandon old : Query Closure)
  | none => pure ()

/-- Carries out a resume or cancellation of a coroutine. If it was taken out of the table meanwhile,
nobody can name it any more. -/
def carryOut (c : RoutineId) (a : Act Closure Datum) : Prog Datum := do
  let o ← .outcomeOf a
  if !(← .get).coroutines.entries.any (·.2 == c) then
    .query (.abandon c : Query Closure)
  .ofOutcome o

/-- Carries out an operation on a registry. -/
def register (r : RegistryId) (op : Registry.Op RoutineId) : Prog (Option RoutineId) :=
  .query (.register r op : Query Closure)

/-- Saves a point that was taken, and has its coroutine as value. -/
def savePoint (point : String) : Option RoutineId → Prog Datum
  | some c => do
    .modify fun s => { s with points := s.points.insert point c }
    return .ofNat c.val
  | none => pure .null

/-- What a registry holds. -/
def registered (name : String) : Prog (Registry RoutineId) := do
  .query (.registered (← registry name) : Query Closure)

/-- The meaning of a form. -/
def meaning (env : Env) : CoroutineForm → Prog Datum
  | .new name x body config => do
    discard (dropNamed name)
    requireNames (configOf config)
    enterNamed name (← Code.query (.spawn (configOf config) (Closure.body name x body env)))
    return .null
  | .resume name e => do
    let d ← eval e env
    let c ← find Store.coroutines name
    carryOut c (.resume c d)
  | .resumeOn name r e => do
    let d ← eval e env
    let c ← find Store.coroutines name
    let r ← registry r
    carryOut c (.resumeOn r c d)
  | .cancel name => do
    let c ← find Store.coroutines name
    carryOut c (.cancel c .null)
  | .status name => do
    let c ← find Store.coroutines name
    return .text (← statusOf c).text
  | .info name => do
    let c ← find Store.coroutines name
    let s ← statusOf c
    return .list [.text s.name, .bool s.isTerminal]
  | .id name => do return .ofNat (← find Store.coroutines name).val
  | .drop name => do return .bool (← dropNamed name)
  | .yield e => do
    let c ← orFault .missing env.yielder
    let d ← eval e env
    .perform (.yield c d)
  | .yieldBy name e => do
    let c ← find Store.yielders name
    let d ← eval e env
    .perform (.yield c d)
  | .yielderId name => do return .ofNat (← find Store.yielders name).val
  | .suspend r e => do
    let d ← eval e env
    let r ← registry r
    .perform (.suspend r d)
  | .size r => do return .ofNat (← registered r).size
  | .isEmpty r => do return .bool (← registered r).isEmpty
  | .pop r point => do
    let r ← registry r
    savePoint point (← register r .pop)
  | .popOf r name point => do
    let c ← find Store.coroutines name
    let r ← registry r
    savePoint point (← register r (.popWhere (· == c)))
  | .push r point => do
    let c ← find Store.points point
    discard (register (← registry r) (.push c))
    return .null
  | .delete r point => do
    let c ← find Store.points point
    discard (register (← registry r) (.erase c))
    return .null
  | .same point other => do
    let c ← find Store.points point
    let c' ← find Store.points other
    return .bool (c == c')
  | .thread => do return .text (← Code.query (.thread : Query Closure))

end CoroutineForm

end OneShot.Script
