import OneShot.Arms
import OneShot.Context
import OneShot.Registry

/-!
# Code

What runs on a machine is a tree: at each node it ends, asks the machine something, or calls an
operation and goes on with the outcome. Trees are well-founded, but behaviour need not be: `call`
enters a *procedure*, whose code the machine looks up when it gets there. So a body that never ends,
or that depends on its inputs in any way, is a procedure that calls itself.

Sequencing is lawful: `bind_pure_right` and `bind_bind` make `Code` a `LawfulMonad`.

Code is generic in the procedures `P`, the values `V` that procedures pass around, and the store
`σ` that all code of a program shares.
-/

namespace OneShot

/-- How a computation ends. -/
inductive Outcome (V α : Type) where
  | value (a : α)
  | failure (f : Failure)
  | panic (payload : V)

namespace Outcome

variable {V α β : Type}

/-- Changes the value, if there is one. -/
def map (g : α → β) : Outcome V α → Outcome V β
  | .value a => .value (g a)
  | .failure f => .failure f
  | .panic p => .panic p

end Outcome

/-- Names the place where a continuation is kept. -/
structure ContId where
  val : Nat
deriving DecidableEq, Repr

/-- Handler functions for effects, and a procedure for the value of the handled body. -/
structure Handler (P : Type) where
  /-- The bound effects, each with a procedure that takes the argument and the continuation. -/
  functions : List (EffectId × P)
  /-- Without a procedure the value is passed through. -/
  value : Option P

namespace Handler

variable {P : Type}

/-- Binds no effect and passes the value through. -/
def identity : Handler P := ⟨[], none⟩

/-- Binds an effect, in place of an earlier binding. -/
def on (h : Handler P) (e : EffectId) (p : P) : Handler P :=
  { h with functions := (e, p) :: h.functions.filter (·.1 != e) }

/-- Replaces what is done with the value. -/
def withValue (h : Handler P) (p : P) : Handler P := { h with value := some p }

/-- Whether the effect is bound. -/
def handles (h : Handler P) (e : EffectId) : Bool := h.functions.any (·.1 == e)

/-- The bound effects, the oldest first. -/
def effects (h : Handler P) : List EffectId :=
  (h.functions.map (·.1)).mergeSort fun a b => a.val ≤ b.val

end Handler

/-- What a procedure is entered with. -/
inductive Entry (V : Type) where
  | nothing
  /-- A single value. -/
  | value (v : V)
  /-- The first input of a coroutine, and the coroutine itself. -/
  | start (input : V) (self : RoutineId)
  /-- The argument of a performed effect, and the continuation. -/
  | performed (argument : V) (cont : ContId)
  /-- A raised error. -/
  | raised (cause : Cause)

/-- An operation that may take long: other code runs before it comes back, or it never does. Only
coroutines that code has made can be named; a handled body belongs to its scope alone. -/
inductive Act (P V : Type) where
  /-- Runs a procedure. -/
  | call (p : P) (entry : Entry V)
  /-- Runs a coroutine until it yields or ends. -/
  | resume (c : RoutineId) (input : V)
  /-- The same, registered for the time of the resume. -/
  | resumeOn (r : RegistryId) (c : RoutineId) (input : V)
  /-- Cancels a suspended coroutine and waits for its end; `answer` is given back then. -/
  | cancel (c : RoutineId) (answer : V)
  /-- Gives a coroutine up, and waits for its end if it was suspended. A busy coroutine cannot be
  given up. -/
  | dispose (c : RoutineId) (answer : V)
  /-- Hands out a value through a coroutine, and waits for the next input. -/
  | yield (c : RoutineId) (output : V)
  /-- The same through the coroutine whose body runs, by its entry in the registry. -/
  | suspend (r : RegistryId) (output : V)
  /-- Performs an effect. -/
  | perform (ctx : Context) (e : EffectId) (argument : V)
  /-- Performs the exception effect. -/
  | raise (ctx : Context) (cause : Cause)
  /-- Runs a body under a handler. -/
  | handle (ctx : Context) (h : Handler P) (body : P)
  /-- Runs a body under the arms of an exception block. -/
  | tryWith (ctx : Context) (arms : Arms P) (body : P)
  /-- Resumes a continuation. -/
  | continueWith (k : ContId) (answer : V)

/-- A question to the machine, answered at once. -/
inductive Query (P : Type) where
  /-- Makes a coroutine. -/
  | spawn (config : Config) (body : P)
  /-- Uses up the number of a coroutine without making it. -/
  | skip
  | status (c : RoutineId)
  /-- Whether a resume or cancellation of the coroutine is in progress. -/
  | busy (c : RoutineId)
  /-- Gives a coroutine up, without waiting, unless it is busy. -/
  | abandon (c : RoutineId)
  /-- Makes an empty registry. -/
  | openRegistry
  /-- Looks at a registry. -/
  | registered (r : RegistryId)
  /-- Changes a registry. -/
  | register (r : RegistryId) (op : Registry.Op RoutineId)
  /-- Makes a context. -/
  | openContext (config : Config)
  /-- How many resumes wait on a context. -/
  | pending (ctx : Context)
  /-- Whether the continuation is still there. -/
  | holds (k : ContId)
  /-- Moves a continuation to a place of its own, if it is still there. -/
  | keep (k : ContId)
  /-- Drops a continuation. -/
  | discard (k : ContId)
  /-- The name of the thread that runs the code. -/
  | thread
  /-- A new effect. -/
  | declare

/-- The type of a question's answer. -/
abbrev Query.Reply {P : Type} : Query P → Type
  | .spawn _ _ => RoutineId
  | .skip => Unit
  | .status _ => Status
  | .busy _ => Bool
  | .abandon _ => Unit
  | .openRegistry => RegistryId
  | .registered _ => Registry RoutineId
  | .register _ _ => Option RoutineId
  | .openContext _ => Context
  | .pending _ => Nat
  | .holds _ => Bool
  | .keep _ => Option ContId
  | .discard _ => Unit
  | .thread => String
  | .declare => EffectId

/-- Code that ends with a value of type `α`, a failure or a panic. -/
inductive Code (P V σ α : Type) where
  | pure (a : α)
  | fail (f : Failure)
  | panic (payload : V)
  | act (a : Act P V) (next : Outcome V V → Code P V σ α)
  | ask (q : Query P) (next : q.Reply → Code P V σ α)
  /-- Changes the store; what follows sees it as it was before. -/
  | access (change : σ → σ) (next : σ → Code P V σ α)

namespace Code

variable {P V σ α β : Type}

/-- Runs the second code with the value of the first. Failures and panics end both. -/
def bind (c : Code P V σ α) (g : α → Code P V σ β) : Code P V σ β :=
  match c with
  | .pure a => g a
  | .fail f => .fail f
  | .panic p => .panic p
  | .act a next => .act a fun o => (next o).bind g
  | .ask q next => .ask q fun r => (next r).bind g
  | .access change next => .access change fun s => (next s).bind g

instance : Monad (Code P V σ) where
  pure := .pure
  bind := .bind

theorem bind_pure_right (c : Code P V σ α) : c.bind .pure = c := by
  induction c with
  | pure a => rfl
  | fail f => rfl
  | panic p => rfl
  | act a next ih => simp [Code.bind, ih]
  | ask q next ih => simp [Code.bind, ih]
  | access change next ih => simp [Code.bind, ih]

theorem bind_bind {γ : Type} (c : Code P V σ α) (g : α → Code P V σ β) (h : β → Code P V σ γ) :
    (c.bind g).bind h = c.bind fun a => (g a).bind h := by
  induction c with
  | pure a => rfl
  | fail f => rfl
  | panic p => rfl
  | act a next ih => simp [Code.bind, ih]
  | ask q next ih => simp [Code.bind, ih]
  | access change next ih => simp [Code.bind, ih]

instance : LawfulMonad (Code P V σ) :=
  LawfulMonad.mk' (Code P V σ) bind_pure_right (fun _ _ => rfl) bind_bind

/-- Ends as an outcome says. -/
def ofOutcome : Outcome V α → Code P V σ α
  | .value a => .pure a
  | .failure f => .fail f
  | .panic p => .panic p

/-- Calls an operation and ends as it does. -/
def perform (a : Act P V) : Code P V σ V := .act a ofOutcome

/-- Calls an operation and has its outcome as value. -/
def outcomeOf (a : Act P V) : Code P V σ (Outcome V V) := .act a .pure

/-- Asks the machine. -/
def query (q : Query P) : Code P V σ q.Reply := .ask q .pure

/-- The store. -/
def get : Code P V σ σ := .access id .pure

/-- Changes the store. -/
def modify (change : σ → σ) : Code P V σ Unit := .access change fun _ => .pure ()

end Code

end OneShot
