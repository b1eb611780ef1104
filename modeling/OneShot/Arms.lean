import OneShot.Failure

/-!
# Arms of an exception block

Each arm names what it catches: errors of a kind, or failures of the library. An arm catches an
error if it matches the error itself or one of its sources. The arm that matches closest to the
error is chosen, and of arms that match equally close the one added first. The `otherwise` arm is
chosen only if no other arm matches.
-/

namespace OneShot

/-- What an arm catches. -/
inductive Matcher where
  /-- Errors of this kind. -/
  | kind (kind : Kind)
  /-- Failures of the library, taken as errors. -/
  | failure
deriving DecidableEq, Repr

/-- Whether one link of a chain is caught. -/
def Matcher.accepts : Matcher → Cause → Bool
  | .kind k, .plain k' _ => k' = k
  | .kind k, .caused k' _ _ => k' = k
  | .failure, .failure _ => true
  | _, _ => false

/-- The arms of an exception block, with actions of type `α`. -/
structure Arms (α : Type) where
  /-- The arms for errors of certain kinds, in the order in which they were added. -/
  arms : List (Matcher × α)
  /-- The arm for all other errors. -/
  otherwise : Option α

namespace Arms

variable {α : Type}

/-- No arms. -/
def empty : Arms α := ⟨[], none⟩

/-- Adds an arm after the others. -/
def on (h : Arms α) (m : Matcher) (a : α) : Arms α := { h with arms := h.arms ++ [(m, a)] }

/-- Sets the arm for errors that no other arm catches. -/
def orElse (h : Arms α) (a : α) : Arms α := { h with otherwise := some a }

/-- Walks down a chain from depth `depth` to the first accepted link, giving up at `limit`. -/
def firstDepth (m : Matcher) (limit : Option Nat) : Nat → List Cause → Option Nat
  | _, [] => none
  | depth, c :: rest =>
    if limit.any (· ≤ depth) then none
    else if m.accepts c then some depth
    else firstDepth m limit (depth + 1) rest

/-- Goes through arms with the best one so far and its depth; only a closer one replaces it. -/
def closest (chain : List Cause) : Option (Nat × α) → List (Matcher × α) → Option (Nat × α)
  | best, [] => best
  | best, (m, a) :: rest =>
    match firstDepth m (best.map (·.1)) 0 chain with
    | some depth => closest chain (some (depth, a)) rest
    | none => closest chain best rest

/-- The arm for an error. -/
def select (h : Arms α) (c : Cause) : Option α :=
  ((closest c.chain none h.arms).map (·.2)).or h.otherwise

end Arms

end OneShot
