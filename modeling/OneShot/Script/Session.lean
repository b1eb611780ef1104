import OneShot.Script.Meaning

/-!
# Sessions

A session evaluates the steps of a program one after another on the main line. Then it clears up:
it drops the stash and every coroutine, and lets all bodies that were left behind run to their end.
-/

namespace OneShot.Script

open Prog

/-- A program: names for effects, functions, and the steps. -/
structure Program where
  effects : List String
  functions : List (String × Function)
  steps : List Expr

/-- What a session shows. -/
structure Report where
  /-- For each step its outcome and the statuses of the coroutines after it. -/
  steps : Datum
  /-- What was logged under each label. -/
  logs : List (String × List Datum)
  /-- How many resumes wait on the main context at the end. -/
  pending : Nat

namespace Program

/-- The program that a datum describes. -/
def ofDatum (d : Datum) : Program where
  effects := (d.field "effects").items.map Datum.name
  functions := (d.field "fns").fields.map fun (name, f) =>
    (name, ⟨(f.item 0).items.map Datum.name, f.item 1⟩)
  steps := (d.field "steps").items

/-- The store before the first step. -/
def store (p : Program) : Store where
  functions := p.functions.foldl (fun t (name, f) => t.insert name f) .empty
  cells := .empty
  logs := .empty
  effects := .empty
  coroutines := .empty
  yielders := .empty
  registries := .empty
  points := .empty
  contexts := .empty
  handlers := .empty
  stash := .empty
  errors := #[]

/-- The statuses of all coroutines in the table. -/
def statuses : Prog (List (String × Datum)) := do
  let s ← .get
  s.coroutines.entries.mapM fun (name, c) => do
    return (name, .text (← CoroutineForm.statusOf c).text)

/-- Evaluates a step, and reports its outcome and the statuses after it. -/
def reportStep (env : Env) (e : Expr) : Prog Datum := do
  let o ← outcome e env
  let fields := [("r", outcomeDatum o)]
  match ← statuses with
  | [] => return .object fields
  | cs => return .object (fields ++ [("co", .object cs)])

/-- Drops a coroutine at the end. One that is busy is only taken out of the table. -/
def dropLast (name : String) (c : RoutineId) : Prog Unit := do
  if ← CoroutineForm.isBusy c then
    .modify fun s => { s with coroutines := s.coroutines.erase name }
  else
    discard (CoroutineForm.dropNamed name)

/-- Drops the stash and every coroutine. -/
def cleanUp : Prog Unit := do
  let s ← .get
  s.stash.entries.forM fun (place, _) => do discard (EffectForm.clearStash place)
  let s ← .get
  s.coroutines.entries.forM fun (name, c) => dropLast name c

/-- What the main line does. -/
def code (p : Program) : Prog Datum := do
  let ctx ← ContextForm.create "main" .standard
  discard (ContextForm.create "global" .standard)
  let env : Env := ⟨[], ctx, none, "main", none⟩
  p.effects.forM fun name => do discard (EffectForm.meaning env (.new name))
  let reports ← p.steps.mapM (reportStep env)
  cleanUp
  return .list reports

/-- How many steps of the machine a program may take. -/
def stepLimit : Nat := 1000000000000

/-- The machine after the program. -/
def run (p : Program) : Machine Closure Datum Store :=
  (Machine.initial p.store p.code).run codeOf stepLimit

/-- What the session of a program shows, if the program comes to its end. -/
def report? (p : Program) : Option Report :=
  let m := p.run
  match m.isDone, (m.routine .main).outbox with
  | true, .full (.value (.plain steps)) =>
    let logs := m.store.logs.entries.map fun (label, ds) => (label, ds.reverse)
    let pending := match m.store.contexts.get? "main" with
      | some ctx => (m.registry ctx.place).size
      | none => 0
    some ⟨steps, logs, pending⟩
  | _, _ => none

end Program

end OneShot.Script
