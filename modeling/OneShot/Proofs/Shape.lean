import OneShot.Machine.Lemmas

/-!
# The shape of a stack

What a routine is doing says what its stack looks like. Below the top there are only *inner* frames:
code that goes on, nested calls, holds of scopes and continuations of handler functions. At the
bottom of a handled body there is a *base* frame that makes a signal of the body's value. All other
frames stand at the top only, where they wait for an outcome of one kind.

* `Settled` is the shape below code that runs.
* `Fits` says that the outcome that is returned is of the kind for which the top of the stack waits.
* `Posture` says which of these a routine has to satisfy, by what it is doing.
-/

namespace OneShot

/-- What a boxed value is that a suspended body waits for, or that a handled body ends with. -/
inductive Mark where
  | datum
  | result
deriving DecidableEq

variable {P V σ : Type}

/-- What a boxed value is marked with. -/
def Boxed.mark? : Boxed V → Option Mark
  | .datum _ => some .datum
  | .result _ => some .result
  | _ => none

/-- Declared effects have data as arguments, and the exception effect has errors. -/
def Effect.Suits : Effect → Boxed V → Prop
  | .declared _, .datum _ => True
  | .exception, .raised _ => True
  | _, _ => False

/-- Handler functions are for declared effects, and arms for the exception effect. -/
def Clause.Suits : Effect → Clause P → Prop
  | .declared _, .function _ => True
  | .exception, .arms _ => True
  | _, _ => False

/-- What a scope makes of the value of its body: a forwarded continuation has a result. -/
def Scope.mark (scope : Scope P) : Mark :=
  match scope.finish with
  | .into _ => .result
  | _ => .datum

namespace Frame

/-- Whether code may run on top of the frame. -/
def isInner : Frame P V σ → Bool
  | .next _ | .nested _ _ | .holding _ | .owning _ => true
  | _ => false

/-- What a handled body ends with whose lowest frame this is. -/
def base? : Frame P V σ → Option Mark
  | .handledBody => some .datum
  | .rejoining => some .result
  | _ => none

/-- What a suspended body waits for whose topmost frame this is. -/
def need? : Frame P V σ → Option Mark
  | .performing => some .datum
  | .forwarding _ => some .result
  | _ => none

end Frame

namespace Outcome

/-- Code can have the outcome. -/
def IsPlain : Outcome V (Parcel V) → Prop
  | .value (.plain _) => True
  | .value _ => False
  | _ => True

/-- A suspended body that waits for something so marked can have the outcome. -/
def Carries (q : Mark) : Outcome V (Parcel V) → Prop
  | .value (.boxed b) => b.mark? = some q
  | .value _ => False
  | _ => True

/-- A scope can have the outcome from its body. -/
def IsSignal : Outcome V (Parcel V) → Prop
  | .value (.signal (.perform e b)) => e.Suits b
  | .value (.signal (.forward e b _)) => e.Suits b
  | .value (.signal (.done b)) => b.mark?.isSome
  | .value _ => False
  | _ => True

/-- A body can end with the outcome. A handled body ends with a value so marked. -/
def Ends : Option Mark → Outcome V (Parcel V) → Prop
  | none, o => o.IsPlain
  | some q, .value (.signal (.done b)) => b.mark? = some q
  | some _, .value _ => False
  | some _, _ => True

theorem IsPlain.cases {o : Outcome V (Parcel V)} (h : o.IsPlain) :
    (∃ v, o = .value (.plain v)) ∨ (∃ f, o = .failure f) ∨ ∃ p, o = .panic p := by
  cases o with
  | value a =>
    cases a with
    | plain v => exact .inl ⟨v, rfl⟩
    | _ => exact False.elim h
  | failure f => exact .inr (.inl ⟨f, rfl⟩)
  | panic p => exact .inr (.inr ⟨p, rfl⟩)

theorem Carries.cases {q : Mark} {o : Outcome V (Parcel V)} (h : o.Carries q) :
    (∃ b, o = .value (.boxed b) ∧ b.mark? = some q) ∨ (∃ f, o = .failure f) ∨
      ∃ p, o = .panic p := by
  cases o with
  | value a =>
    cases a with
    | boxed b => exact .inl ⟨b, rfl, h⟩
    | _ => exact False.elim h
  | failure f => exact .inr (.inl ⟨f, rfl⟩)
  | panic p => exact .inr (.inr ⟨p, rfl⟩)

theorem IsSignal.cases {o : Outcome V (Parcel V)} (h : o.IsSignal) :
    (∃ x, o = .value (.signal x)) ∨ (∃ f, o = .failure f) ∨ ∃ p, o = .panic p := by
  cases o with
  | value a =>
    cases a with
    | signal x => exact .inl ⟨x, rfl⟩
    | _ => exact False.elim h
  | failure f => exact .inr (.inl ⟨f, rfl⟩)
  | panic p => exact .inr (.inr ⟨p, rfl⟩)

@[simp] theorem isPlain_value (v : V) : (Outcome.value (.plain v) : Outcome V (Parcel V)).IsPlain :=
  trivial

@[simp] theorem isPlain_failure (f : Failure) :
    (Outcome.failure f : Outcome V (Parcel V)).IsPlain := trivial

@[simp] theorem isPlain_panic (p : V) : (Outcome.panic p : Outcome V (Parcel V)).IsPlain := trivial

end Outcome

/-- The frames below code that runs, in a routine whose body ends as `role` says. -/
def Settled (role : Option Mark) : List (Frame P V σ) → Prop
  | [] => role = none
  | f :: st => f.isInner = true ∧ Settled role st ∨ f.base?.isSome ∧ f.base? = role ∧ st = []

section Settled

variable {role : Option Mark} {st : List (Frame P V σ)}

@[simp] theorem settled_next (k : Outcome V V → Code P V σ V) :
    Settled role (.next k :: st) ↔ Settled role st := by
  simp [Settled, Frame.isInner, Frame.base?]

@[simp] theorem settled_nested (d : Nat) (t : String) :
    Settled role (.nested d t :: st : List (Frame P V σ)) ↔ Settled role st := by
  simp [Settled, Frame.isInner, Frame.base?]

@[simp] theorem settled_holding (s : RoutineId) :
    Settled role (.holding s :: st : List (Frame P V σ)) ↔ Settled role st := by
  simp [Settled, Frame.isInner, Frame.base?]

@[simp] theorem settled_owning (k : ContId) :
    Settled role (.owning k :: st : List (Frame P V σ)) ↔ Settled role st := by
  simp [Settled, Frame.isInner, Frame.base?]

@[simp] theorem settled_handledBody :
    Settled role (.handledBody :: st : List (Frame P V σ)) ↔ role = some .datum ∧ st = [] := by
  simp [Settled, Frame.isInner, Frame.base?, eq_comm]

@[simp] theorem settled_rejoining :
    Settled role (.rejoining :: st : List (Frame P V σ)) ↔ role = some .result ∧ st = [] := by
  simp [Settled, Frame.isInner, Frame.base?, eq_comm]

/-- No other frame stands below code. -/
theorem not_settled {f : Frame P V σ} (h : f.isInner = false) (h' : f.base? = none) :
    ¬ Settled role (f :: st) := by
  simp [Settled, h, h']

end Settled

/-- The frames below the one in which a routine takes the signal of scope `s`: the routine holds the
scope in a nested call. -/
def Entered (role : Option Mark) (s : RoutineId) : List (Frame P V σ) → Prop
  | .nested _ _ :: .holding t :: st => t = s ∧ Settled role st
  | _ => False

theorem Entered.settled {role : Option Mark} {s : RoutineId} {st : List (Frame P V σ)}
    (h : Entered role s st) : Settled role st := by
  match st, h with
  | .nested _ _ :: .holding _ :: st, h => simpa using h.2

theorem Entered.exists_eq {role : Option Mark} {s : RoutineId} {st : List (Frame P V σ)}
    (h : Entered role s st) :
    ∃ d t st', st = .nested d t :: .holding s :: st' ∧ Settled role st' := by
  match st, h with
  | .nested d t :: .holding _ :: st', h => exact ⟨d, t, st', by rw [h.1], h.2⟩

/-- The outcome that is returned is one for which the top of the stack waits. -/
def Fits (role : Option Mark) (o : Outcome V (Parcel V)) : List (Frame P V σ) → Prop
  | [] => o.Ends role
  | .performing :: st => o.Carries .datum ∧ Settled role st
  | .forwarding _ :: st => o.Carries .result ∧ Settled role st
  | .dispatch s :: st => o.IsSignal ∧ Entered role s st
  | .registered (.context _) s :: st =>
    ∃ st', st = .dispatch s :: st' ∧ o.IsSignal ∧ Entered role s st'
  | .registered (.registry _) _ :: st => o.IsPlain ∧ Settled role st
  | .canceling _ :: st => o.IsPlain ∧ Settled role st
  | f :: st => o.IsPlain ∧ Settled role (f :: st)

section Fits

variable {role : Option Mark} {o : Outcome V (Parcel V)} {st : List (Frame P V σ)}

/-- A plain outcome fits where code was running. -/
theorem Settled.fits (h : Settled role st) (ho : o.IsPlain) : Fits role o st := by
  cases st with
  | nil => cases h; exact ho
  | cons f st =>
    cases f with
    | next => exact ⟨ho, h⟩
    | nested => exact ⟨ho, h⟩
    | holding => exact ⟨ho, h⟩
    | owning => exact ⟨ho, h⟩
    | handledBody => exact ⟨ho, h⟩
    | rejoining => exact ⟨ho, h⟩
    | registered => exact absurd h (not_settled rfl rfl)
    | dispatch => exact absurd h (not_settled rfl rfl)
    | performing => exact absurd h (not_settled rfl rfl)
    | forwarding => exact absurd h (not_settled rfl rfl)
    | canceling => exact absurd h (not_settled rfl rfl)

/-- The shapes that a stack has under a resume or cancellation of a coroutine that code has made. -/
def Listening (role : Option Mark) : List (Frame P V σ) → Prop
  | .registered (.registry _) _ :: st => Settled role st
  | .canceling _ :: st => Settled role st
  | st => Settled role st

theorem Settled.listening (h : Settled role st) : Listening role st := by
  cases st with
  | nil => exact h
  | cons f st =>
    cases f with
    | registered => exact absurd h (not_settled rfl rfl)
    | canceling => exact absurd h (not_settled rfl rfl)
    | _ => exact h

theorem Listening.fits (h : Listening role st) (ho : o.IsPlain) : Fits role o st := by
  cases st with
  | nil => exact Settled.fits h ho
  | cons f st =>
    cases f with
    | registered p c =>
      cases p with
      | registry r => exact ⟨ho, h⟩
      | context c => exact absurd h (not_settled rfl rfl)
    | canceling a => exact ⟨ho, h⟩
    | _ => exact Settled.fits h ho

end Fits

/-- How the body of a coroutine ends that starts like this. -/
def Start.role : Start P V → Option Mark
  | .body _ => none
  | .handled _ => some .datum
  | .rejoin _ _ => some .result

/-- A forwarded continuation is resumed with the answer to an effect. -/
def Start.IsReady : Start P V → Prop
  | .rejoin _ b => b.mark? = some .datum
  | _ => True

namespace Routine

/-- How the body of the routine ends. -/
def role (r : Routine P V σ) : Option Mark := r.scope.map Scope.mark

/-- What a routine is doing goes with its stack. Routines that wait for a handled body, and handled
bodies that wait themselves, are looked at elsewhere. -/
def Posture (r : Routine P V σ) : Prop :=
  match r.control with
  | .fresh s => r.stack = [] ∧ r.scope = none ∧ ∃ p, s = .body p
  | .starting s _ => r.stack = [] ∧ s.role = r.role ∧ s.IsReady
  | .running _ => Settled r.role r.stack
  | .returning o => Fits r.role o r.stack
  | .reading _ => True
  | .listening _ => True
  | .joining _ _ => Settled r.role r.stack
  | .ended => r.stack = []

end Routine

end OneShot
