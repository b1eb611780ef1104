import OneShot.Code

/-!
# The state of a machine

A machine runs *routines*. The first is the main line; every other one is a coroutine together with
the line of execution that runs its body. A routine has a stack of frames, so it can wait anywhere
inside nested calls.

The two sides of a coroutine exchange messages through two slots that hold one message each: the
`inbox`, into which the holder puts inputs, and the `outbox`, into which the body puts outputs. Only
routines in `ready` run, the first one before the others; a routine that waits for a message is not
ready.

A *scope* is one running `handle` call. Its handled body is a coroutine that hands out *signals*:
it performs an effect, forwards one that a scope inside it did not handle, or has a value. A
*continuation* is what a scope hands to a handler function: it names the scope and, for a forwarded
effect, the continuation that came up from inside. The calls that run in a scope and its
continuations *hold* the scope. When nobody holds it any more, its handled body is given up.
-/

namespace OneShot

/-- Room for one message. -/
inductive Slot (μ : Type) where
  /-- No message, and nobody waits for one. -/
  | empty
  | full (message : μ)
  /-- A routine waits for the next message. -/
  | awaited (reader : RoutineId)

/-- A value that travels between a scope and its handled body, marked with what it is. -/
inductive Boxed (V : Type) where
  /-- The first input of a handled body. -/
  | start
  /-- The argument of an effect, its answer, or the value of a body. -/
  | datum (v : V)
  /-- The argument of the exception effect. -/
  | raised (cause : Cause)
  /-- The result of an inner scope whose effect was forwarded. -/
  | result (v : V)

/-- What a handler function continues with: the rest of a scope from a performed effect on. -/
inductive Cont where
  /-- The handled body of the scope itself waits. -/
  | direct (scope : RoutineId)
  /-- The scope forwards for the continuation of a scope inside it. -/
  | through (scope : RoutineId) (inner : Cont)
deriving DecidableEq, Repr

/-- What a handled body hands to its scope. -/
inductive Signal (V : Type) where
  | perform (e : Effect) (argument : Boxed V)
  | forward (e : Effect) (argument : Boxed V) (k : Cont)
  | done (value : Boxed V)

/-- A message, or what a call gives back. -/
inductive Parcel (V : Type) where
  | plain (v : V)
  | boxed (b : Boxed V)
  | signal (s : Signal V)

/-- What a holder sends to a body. -/
inductive Input (V : Type) where
  | parcel (p : Parcel V)
  | cancel

/-- What a scope does with the value of its body. -/
inductive Finish (P : Type) where
  | passOn
  | call (p : P)
  /-- The scope runs a forwarded continuation: the value answers the body of the scope that
  forwarded, once. -/
  | into (outer : Option RoutineId)

/-- What a scope does with an effect that it binds. -/
inductive Clause (P : Type) where
  /-- Calls a procedure with the argument and a continuation. -/
  | function (p : P)
  /-- Chooses among arms; an error that none of them takes is raised again. -/
  | arms (arms : Arms P)

/-- A running `handle` call. The coroutine of its handled body names it. -/
structure Scope (P : Type) where
  ctx : Context
  clauses : List (Effect × Clause P)
  finish : Finish P
  /-- How many calls and continuations hold the scope. -/
  holders : Nat

namespace Scope

variable {P : Type}

/-- The scope of a body under a handler. -/
def ofHandler (ctx : Context) (h : Handler P) : Scope P where
  ctx := ctx
  clauses := h.functions.map fun (e, p) => (.declared e, .function p)
  finish := match h.value with
    | some p => .call p
    | none => .passOn
  holders := 0

/-- The scope of a body under the arms of an exception block. -/
def ofArms (ctx : Context) (arms : Arms P) : Scope P where
  ctx := ctx
  clauses := [(.exception, .arms arms)]
  finish := .passOn
  holders := 0

/-- The scope that runs a continuation which scope `s` forwarded: its clauses are the same, and the
value of the body answers that of `s`. -/
def rejoining (scope : Scope P) (s : RoutineId) : Scope P :=
  { scope with finish := .into (some s), holders := 0 }

end Scope

/-- What the body of a coroutine does when its first input comes. -/
inductive Start (P V : Type) where
  /-- Enters a procedure with the input. -/
  | body (p : P)
  /-- Runs a handled body. -/
  | handled (p : P)
  /-- Runs a forwarded continuation. -/
  | rejoin (k : Cont) (answer : Boxed V)

/-- What remains to be done when a call comes back. -/
inductive Frame (P V σ : Type) where
  /-- Code goes on with the outcome. -/
  | next (k : Outcome V V → Code P V σ V)
  /-- A registered resume comes back: its entry is withdrawn. -/
  | registered (p : Place) (c : RoutineId)
  /-- A nested call comes back: depth and thread are as they were. -/
  | nested (depth : Nat) (thread : String)
  /-- A scope takes the signal of its body. -/
  | dispatch (scope : RoutineId)
  /-- A call that ran in a scope comes back: it does not hold the scope any more. -/
  | holding (scope : RoutineId)
  /-- A handler function is left: its continuation is dropped if it is still there. -/
  | owning (k : ContId)
  /-- A performed effect is answered. -/
  | performing
  /-- A forwarded effect is answered. -/
  | forwarding (e : Effect)
  /-- A canceled coroutine has ended. -/
  | canceling (answer : V)
  /-- The value of a handled body becomes a signal. -/
  | handledBody
  /-- The result of an inner scope becomes a signal. -/
  | rejoining

/-- What a routine is doing. -/
inductive Control (P V σ : Type) where
  /-- Nothing yet: it waits for its first input. -/
  | fresh (s : Start P V)
  /-- Its first input has come. -/
  | starting (s : Start P V) (input : Parcel V)
  | running (c : Code P V σ V)
  /-- It gives an outcome to its topmost frame. -/
  | returning (o : Outcome V (Parcel V))
  /-- It waits in a yield for the next input of `c`. -/
  | reading (c : RoutineId)
  /-- It waits in a resume for the next output of `c`. -/
  | listening (c : RoutineId)
  /-- It waits for the body of `c` to end. -/
  | joining (c : RoutineId) (answer : V)
  | ended

/-- A coroutine and the line of execution that runs its body. -/
structure Routine (P V σ : Type) where
  status : Status
  inbox : Slot (Input V)
  outbox : Slot (Outcome V (Parcel V))
  /-- The routines that wait for the end of the body. -/
  joiners : List RoutineId
  /-- The scope whose handled body this is. -/
  scope : Option (Scope P)
  control : Control P V σ
  /-- The innermost frame first. -/
  stack : List (Frame P V σ)
  /-- How many nested calls the current thread hosts. -/
  depth : Nat
  /-- The name of the current thread. -/
  thread : String

/-- All that a running program consists of. -/
structure Machine (P V σ : Type) where
  /-- The store that all code shares. -/
  store : σ
  routines : Array (Routine P V σ)
  /-- The registries that the program has made. -/
  registries : Array (Registry RoutineId)
  /-- The registries of the contexts. -/
  contexts : Array (Registry RoutineId)
  /-- Where continuations are kept; an emptied place stays empty. -/
  conts : Array (Option Cont)
  /-- How many effects were declared. -/
  effects : Nat
  /-- The routines that can go on, the next one first. -/
  ready : List RoutineId

variable {P V σ : Type}

namespace Routine

/-- Stands for a routine that does not exist. -/
def absent : Routine P V σ where
  status := .done
  inbox := .empty
  outbox := .empty
  joiners := []
  scope := none
  control := .ended
  stack := []
  depth := 0
  thread := ""

instance : Inhabited (Routine P V σ) := ⟨absent⟩

/-- The main line at the start. -/
def main (code : Code P V σ V) : Routine P V σ where
  status := .running
  inbox := .empty
  outbox := .empty
  joiners := []
  scope := none
  control := .running code
  stack := []
  depth := 0
  thread := "main"

/-- A coroutine that waits for its first input. -/
def new (id : RoutineId) (config : Config) (start : Start P V) (scope : Option (Scope P)) :
    Routine P V σ where
  status := .notRunning
  inbox := .awaited id
  outbox := .empty
  joiners := []
  scope := scope
  control := .fresh start
  stack := []
  depth := 0
  thread := config.threadName id

/-- Whether the routine has ended, or has not begun. -/
def isIdle (r : Routine P V σ) : Bool :=
  match r.control with
  | .fresh _ | .ended => true
  | _ => false

end Routine

namespace Machine

/-- The machine before its first step. -/
def initial (store : σ) (code : Code P V σ V) : Machine P V σ where
  store := store
  routines := #[.main code]
  registries := #[]
  contexts := #[]
  conts := #[]
  effects := 0
  ready := [.main]

/-- The routine with the given number. -/
def routine (m : Machine P V σ) (i : RoutineId) : Routine P V σ := m.routines.getD i.val .absent

/-- Changes a routine. -/
def update (m : Machine P V σ) (i : RoutineId) (f : Routine P V σ → Routine P V σ) :
    Machine P V σ :=
  { m with routines := m.routines.modify i.val f }

/-- Whether `c` is a coroutine that code has made, and not the main line or a handled body. -/
def isCoroutine (m : Machine P V σ) (c : RoutineId) : Bool :=
  c != .main && (m.routine c).scope.isNone

/-- Whether a resume or cancellation of `c` is in progress: a routine waits for its output. -/
def isBusy (m : Machine P V σ) (c : RoutineId) : Bool :=
  match (m.routine c).outbox with
  | .awaited _ => true
  | _ => false

/-- The resumes that are registered at a place. -/
def registry (m : Machine P V σ) : Place → Registry RoutineId
  | .registry r => m.registries.getD r.val .empty
  | .context c => m.contexts.getD c.val .empty

/-- Replaces what is registered at a place. -/
def setRegistry (m : Machine P V σ) (p : Place) (g : Registry RoutineId) : Machine P V σ :=
  match p with
  | .registry r => { m with registries := m.registries.setIfInBounds r.val g }
  | .context c => { m with contexts := m.contexts.setIfInBounds c.val g }

/-- The status of a coroutine. -/
def status (m : Machine P V σ) (c : RoutineId) : Status := (m.routine c).status

/-- Changes the status of a coroutine. -/
def setStatus (m : Machine P V σ) (c : RoutineId) (s : Status) : Machine P V σ :=
  m.update c fun r => { r with status := s }

/-- Says what a routine does next. -/
def setControl (m : Machine P V σ) (i : RoutineId) (c : Control P V σ) : Machine P V σ :=
  m.update i fun r => { r with control := c }

/-- Puts a frame on the stack of a routine. -/
def pushFrame (m : Machine P V σ) (i : RoutineId) (f : Frame P V σ) : Machine P V σ :=
  m.update i fun r => { r with stack := f :: r.stack }

/-- A routine's operation comes back. -/
def reply (m : Machine P V σ) (i : RoutineId) (o : Outcome V (Parcel V)) : Machine P V σ :=
  m.setControl i (.returning o)

/-- A routine's operation fails. -/
def fail (m : Machine P V σ) (i : RoutineId) (f : Failure) : Machine P V σ :=
  m.reply i (.failure f)

/-- Lets a routine go on, after those that are ready already. -/
def wake (m : Machine P V σ) (i : RoutineId) : Machine P V σ := { m with ready := m.ready ++ [i] }

/-- A routine cannot go on for now. -/
def pause (m : Machine P V σ) (i : RoutineId) : Machine P V σ := { m with ready := m.ready.erase i }

/-- Makes a coroutine. -/
def spawn (m : Machine P V σ) (config : Config) (start : Start P V) (scope : Option (Scope P)) :
    RoutineId × Machine P V σ :=
  let id : RoutineId := ⟨m.routines.size⟩
  (id, { m with routines := m.routines.push (.new id config start scope) })

/-- Keeps a continuation in a new place. -/
def keepCont (m : Machine P V σ) (k : Cont) : ContId × Machine P V σ :=
  (⟨m.conts.size⟩, { m with conts := m.conts.push (some k) })

/-- Takes a continuation out of its place. -/
def takeCont (m : Machine P V σ) (k : ContId) : Option Cont × Machine P V σ :=
  (m.conts.getD k.val none, { m with conts := m.conts.setIfInBounds k.val none })

end Machine

end OneShot
