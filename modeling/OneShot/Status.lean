/-!
# The status of a coroutine

A coroutine is created `notRunning`, alternates between `running` and `suspending`, and ends in one
of the three terminal statuses. Only a coroutine that is `notRunning` or `suspending` can be
resumed.
-/

namespace OneShot

/-- Where a coroutine is in its life. -/
inductive Status where
  | notRunning
  | running
  | suspending
  | canceled
  | panicked
  | done
deriving DecidableEq, Repr, Inhabited

namespace Status

/-- A coroutine in a terminal status has ended or is about to end. -/
def isTerminal : Status → Bool
  | .canceled | .panicked | .done => true
  | _ => false

/-- Whether a resume is accepted. -/
def isResumable : Status → Bool
  | .notRunning | .suspending => true
  | _ => false

/-- The status in words, as messages show it. -/
def text : Status → String
  | .notRunning => "not running"
  | .running => "running"
  | .suspending => "suspending"
  | .canceled => "canceled"
  | .panicked => "panicked"
  | .done => "done"

/-- The name of the status. -/
def name : Status → String
  | .notRunning => "NotRunning"
  | .running => "Running"
  | .suspending => "Suspending"
  | .canceled => "Canceled"
  | .panicked => "Panicked"
  | .done => "Done"

/-- All statuses, in the order of a coroutine's life. -/
def all : List Status := [.notRunning, .running, .suspending, .canceled, .panicked, .done]

/-- The status with the given name. -/
def ofName? (name : String) : Option Status := all.find? (·.name == name)

/-- A status is resumable, terminal, or `running`, and only one of the three. -/
theorem isResumable_eq (s : Status) : s.isResumable = (!s.isTerminal && s != .running) := by
  cases s <;> rfl

theorem ofName?_name (s : Status) : ofName? s.name = some s := by
  cases s <;> decide

end Status

end OneShot
