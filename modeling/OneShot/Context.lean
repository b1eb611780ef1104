/-!
# Contexts

Handlers and performs that belong to one computation share a context: the registry of the resumes
that wait, and the configuration of the threads on which bodies run.
-/

namespace OneShot

/-- Names a coroutine, and the line of execution that runs its body. Coroutines are numbered from 1
in the order in which they are made. -/
structure RoutineId where
  val : Nat
deriving DecidableEq, Repr

/-- The main line, which runs no body of a coroutine. -/
def RoutineId.main : RoutineId := ⟨0⟩

/-- Names a registry that a program has made. -/
structure RegistryId where
  val : Nat
deriving DecidableEq, Repr

/-- Names a context. -/
structure ContextId where
  val : Nat
deriving DecidableEq, Repr

/-- Where resumes are registered: in a registry of the program, or in that of a context, which only
handlers and performs use. -/
inductive Place where
  | registry (r : RegistryId)
  | context (c : ContextId)
deriving DecidableEq, Repr

/-- Settings for the threads on which bodies run. -/
structure Config where
  /-- The size of a thread's stack in bytes. -/
  stackSize : Nat
  /-- What the names of the threads start with. -/
  namePrefix : String
deriving DecidableEq, Repr

namespace Config

/-- Two mebibytes of stack, and `coroutine` as the start of names. -/
def standard : Config := ⟨2097152, "coroutine"⟩

instance : Inhabited Config := ⟨standard⟩

/-- The name of the thread on which the body of a coroutine starts. -/
def threadName (c : Config) (id : RoutineId) : String := s!"{c.namePrefix}-{id.val}"

/-- Whether threads can have such names: a name holds no character of number zero. -/
def isNameable (c : Config) : Bool := !c.namePrefix.toList.contains (Char.ofNat 0)

/-- The name of the threads on which deep calls go on. -/
def nestedName (c : Config) : String := s!"{c.namePrefix}-nested"

end Config

/-- What the handlers and performs of one computation share. -/
structure Context where
  id : ContextId
  config : Config
deriving DecidableEq, Repr

/-- Where the resumes of a context are registered. -/
def Context.place (ctx : Context) : Place := .context ctx.id

end OneShot
