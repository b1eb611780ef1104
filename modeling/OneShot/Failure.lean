import OneShot.Status

/-!
# Failures and causes

A `Failure` is what a call of this library fails with. Code of the user fails with a `Cause`: an
error of some kind, possibly caused by another one. A cause travels through the library inside
`Failure.body`, and a failure may itself be a cause, so the two types refer to each other.

`Failure.body` is transparent: its message is the message of the cause it carries, and its sources
are the *sources* of that cause. The carried cause itself is not one of the sources.
-/

namespace OneShot

/-- Names an effect that a program has declared. Effects are numbered from 1 in the order in which
they are declared. -/
structure EffectId where
  val : Nat
deriving DecidableEq, Repr

/-- An effect: one that a program has declared, or the exception effect, which is there for all. -/
inductive Effect where
  | exception
  | declared (e : EffectId)
deriving DecidableEq, Repr

namespace Effect

/-- The effect as messages show it. -/
def text : Effect → String
  | .exception => "effect#exn"
  | .declared e => s!"effect#{e.val}"

end Effect

/-- The kind of a user's error, by which exception arms choose. -/
structure Kind where
  name : String
deriving DecidableEq, Repr

/-- The kind of an error that is only a text. -/
def Kind.other : Kind := ⟨"other"⟩

mutual

/-- Why a call of the library failed. -/
inductive Failure where
  /-- The coroutine's status does not allow a resume. -/
  | cannotResume (status : Status)
  /-- The coroutine's status does not allow a cancellation. -/
  | cannotCancel (status : Status)
  /-- The coroutine's status does not allow a yield. -/
  | cannotYield (status : Status)
  /-- The coroutine was canceled while it waited, or before it tried to yield. -/
  | canceled
  /-- No waiting resume to yield to is registered. -/
  | noResumePoint
  /-- No enclosing scope handles the effect. -/
  | unhandledEffect (effect : Effect)
  /-- The continuation was resumed before. -/
  | continuationReused
  /-- A value has not the form that its receiver expects. -/
  | typeMismatch (expected : String)
  /-- The other side of a coroutine is gone. -/
  | detached
  /-- A thread could not be started, for a reason of the system. -/
  | spawn (reason : String)
  /-- A user's error, carried through unchanged. -/
  | body (cause : Cause)

/-- An error that code of the user fails with or raises. -/
inductive Cause where
  /-- An error that nothing caused. -/
  | plain (kind : Kind) (message : String)
  /-- An error that another one caused. -/
  | caused (kind : Kind) (message : String) (source : Cause)
  /-- A failure of the library, taken as an error. -/
  | failure (failure : Failure)

end

deriving instance DecidableEq for Failure
deriving instance DecidableEq for Cause

mutual

/-- The message of a failure. -/
def Failure.message : Failure → String
  | .cannotResume s => s!"coroutine cannot resume: {s.text}"
  | .cannotCancel s => s!"coroutine cannot be canceled: {s.text}"
  | .cannotYield s => s!"coroutine cannot yield: {s.text}"
  | .canceled => "coroutine canceled"
  | .noResumePoint => "no pending resume point to yield to"
  | .unhandledEffect e => s!"unhandled effect {e.text}"
  | .continuationReused => "continuation already resumed"
  | .typeMismatch expected => s!"value is not a {expected}"
  | .detached => "coroutine thread detached"
  | .spawn _ => "failed to spawn coroutine thread"
  | .body c => c.message

/-- The message of a cause. -/
def Cause.message : Cause → String
  | .plain _ message => message
  | .caused _ message _ => message
  | .failure f => f.message

end

mutual

/-- What caused a failure, the immediate source first. -/
def Failure.sources : Failure → List Cause
  | .spawn reason => [.plain Kind.other reason]
  | .body c => c.sources
  | _ => []

/-- What caused a cause, the immediate source first. -/
def Cause.sources : Cause → List Cause
  | .plain _ _ => []
  | .caused _ _ c => c :: c.sources
  | .failure f => f.sources

end

namespace Cause

/-- The cause and its sources. -/
def chain (c : Cause) : List Cause := c :: c.sources

/-- The kind under which a link of a chain is shown. -/
def kindName : Cause → String
  | .plain kind _ => kind.name
  | .caused kind _ _ => kind.name
  | .failure _ => "Error"

end Cause

namespace Failure

/-- Whether the failure says that the coroutine was canceled. A carried `canceled` does not
count. -/
def isCanceled : Failure → Bool
  | .canceled => true
  | _ => false

/-- The user's error that the failure carries. -/
def carried? : Failure → Option Cause
  | .body c => some c
  | _ => none

/-- The name of the case. -/
def name : Failure → String
  | .cannotResume _ => "CannotResume"
  | .cannotCancel _ => "CannotCancel"
  | .cannotYield _ => "CannotYield"
  | .canceled => "Canceled"
  | .noResumePoint => "NoResumePoint"
  | .unhandledEffect _ => "UnhandledEffect"
  | .continuationReused => "ContinuationReused"
  | .typeMismatch _ => "TypeMismatch"
  | .detached => "Detached"
  | .spawn _ => "Spawn"
  | .body _ => "Body"

end Failure

end OneShot
