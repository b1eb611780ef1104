import OneShot.Machine.Transfer

/-!
# Scopes

A scope resumes its handled body and takes the signals that come out.

* An effect that the scope binds goes to the handler function, with a continuation of the scope.
* An effect that it does not bind is forwarded: the body that runs the scope is suspended in turn,
  and hands the effect on with the scope's continuation. What it is resumed with is the result of
  the whole scope.
* A continuation that came up from an inner scope is resumed by a fresh scope with the same clauses,
  so effects performed after the resume still meet this scope. The value of the fresh scope answers
  the body that forwarded.

In each operation below, `i` is the routine that runs it and `s` the scope.
-/

namespace OneShot.Machine

variable {P V σ : Type}

/-- How many nested calls a thread hosts before the next one goes on on a fresh thread. -/
def maxNested : Nat := 32

/-- Begins a nested call. Its frame restores depth and thread. -/
def enter (m : Machine P V σ) (i : RoutineId) (config : Config) : Machine P V σ :=
  m.update i fun r =>
    let stack := .nested r.depth r.thread :: r.stack
    if r.depth < maxNested then
      { r with stack := stack, depth := r.depth + 1 }
    -- The thread is full: the call is the first one on a fresh thread.
    else
      { r with stack := stack, depth := 1, thread := config.nestedName }

/-- Resumes the handled body of a scope, and then takes its signal. The call takes over one hold of
the scope. -/
def enterScope (m : Machine P V σ) (i s : RoutineId) (b : Boxed V) : Machine P V σ :=
  match (m.routine s).scope with
  | some scope =>
    let m := (m.pushFrame i (.holding s)).enter i scope.ctx.config
    (m.pushFrame i (.dispatch s)).resumeOn i scope.ctx.place s (.boxed b)
  | none => m.fail i (.typeMismatch "scope")

/-- Opens a scope and enters it. -/
def openScope (m : Machine P V σ) (i : RoutineId) (scope : Scope P) (start : Start P V) :
    Machine P V σ :=
  let (s, m) := m.spawn scope.ctx.config start (some scope)
  (m.hold s).enterScope i s .start

/-- Runs a body in a new scope. -/
def handle (m : Machine P V σ) (i : RoutineId) (scope : Scope P) (body : P) : Machine P V σ :=
  m.openScope i scope (.handled body)

/-- Resumes a continuation. -/
def continueWith (m : Machine P V σ) (i : RoutineId) (k : Cont) (b : Boxed V) : Machine P V σ :=
  match k with
  | .direct s => m.enterScope i s b
  | .through s inner =>
    match (m.routine s).scope with
    | some scope =>
      -- Both this call and the fresh scope hold `s`, whose own value is still to come.
      ((m.hold s).pushFrame i (.holding s)).openScope i (scope.rejoining s) (.rejoin inner b)
    | none => m.fail i (.typeMismatch "scope")

/-- Performs an effect: the handled body that runs is suspended with it. -/
def perform (m : Machine P V σ) (i : RoutineId) (ctx : Context) (e : Effect) (b : Boxed V) :
    Machine P V σ :=
  (m.pushFrame i .performing).suspend i ctx.place (.signal (.perform e b))

/-- Enters a handler function, which owns the continuation. -/
def callOwning (m : Machine P V σ) (i : RoutineId) (k : Cont) (c : ContId → Code P V σ V) :
    Machine P V σ :=
  let (place, m) := m.keepCont k
  (m.pushFrame i (.owning place)).setControl i (.running (c place))

/-- Gives an effect to the scope's clause for it, or forwards it. -/
def claim (code : P → Entry V → Code P V σ V) (m : Machine P V σ) (i : RoutineId)
    (scope : Scope P) (e : Effect) (b : Boxed V) (k : Cont) : Machine P V σ :=
  match scope.clauses.lookup e, b with
  | some (.function p), .datum v => m.callOwning i k fun place => code p (.performed v place)
  | some (.arms arms), .raised c =>
    m.callOwning i k fun _ =>
      match arms.select c with
      | some p => code p (.raised c)
      | none => .perform (.raise scope.ctx c)
  | some _, _ => (m.release k).fail i (.typeMismatch "argument")
  -- Outside of any handled body of this context the suspend fails: nobody handles the effect.
  | none, _ =>
    (m.pushFrame i (.forwarding e)).suspend i scope.ctx.place (.signal (.forward e b k))

/-- The handled body of a scope has a value. -/
def conclude (code : P → Entry V → Code P V σ V) (m : Machine P V σ) (i s : RoutineId)
    (scope : Scope P) (b : Boxed V) : Machine P V σ :=
  match scope.finish, b with
  | .passOn, .datum v => m.reply i (.value (.plain v))
  | .call p, .datum v => m.setControl i (.running (code p (.value v)))
  -- The outer scope is taken out first, so no second value can get there.
  | .into (some outer), b =>
    (m.update s fun r => { r with scope := some { scope with finish := .into none } }).enterScope
      i outer b
  | .into none, _ => m.fail i .continuationReused
  | _, _ => m.fail i (.typeMismatch "value")

/-- Takes the signal of a handled body. -/
def dispatch (code : P → Entry V → Code P V σ V) (m : Machine P V σ) (i s : RoutineId)
    (signal : Signal V) : Machine P V σ :=
  match (m.routine s).scope, signal with
  | some scope, .perform e b => (m.hold s).claim code i scope e b (.direct s)
  | some scope, .forward e b k => (m.hold s).claim code i scope e b (.through s k)
  | some scope, .done b => m.conclude code i s scope b
  | none, _ => m.fail i (.typeMismatch "scope")

end OneShot.Machine
