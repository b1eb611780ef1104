import OneShot.Machine.State

/-!
# Passing control between routines

A resume puts an input into the inbox of a coroutine and waits for an output; a yield puts an output
into the outbox and waits for an input. The status of the coroutine decides first whether either is
allowed, and changes before the message is sent.

In each operation below, `i` is the routine that runs it and `c` the coroutine it is about.
-/

namespace OneShot.Machine

variable {P V σ : Type}

/-- What a reader does with an input. A body that never started ends without taking a step. -/
def deliver (m : Machine P V σ) (reader : RoutineId) (input : Input V) : Machine P V σ :=
  match (m.routine reader).control, input with
  | .fresh s, .parcel p => m.setControl reader (.starting s p)
  | .fresh _, .cancel => m.setControl reader .ended
  | _, .parcel p => m.reply reader (.value p)
  | _, .cancel => m.fail reader .canceled

/-- What a listener does with an output. -/
def hear (m : Machine P V σ) (listener c : RoutineId) (o : Outcome V (Parcel V)) :
    Machine P V σ :=
  match o with
  | .panic _ => (m.setStatus c .panicked).reply listener o
  | _ => m.reply listener o

/-- Puts an input into the inbox of `c`. A second message would not find room, and is lost. -/
def sendInput (m : Machine P V σ) (c : RoutineId) (input : Input V) : Machine P V σ :=
  match (m.routine c).inbox with
  | .awaited reader =>
    ((m.update c fun r => { r with inbox := .empty }).deliver reader input).wake reader
  | .empty => m.update c fun r => { r with inbox := .full input }
  | .full _ => m

/-- Puts an output into the outbox of `c`. A second message would not find room, and is lost. -/
def sendOutput (m : Machine P V σ) (c : RoutineId) (o : Outcome V (Parcel V)) : Machine P V σ :=
  match (m.routine c).outbox with
  | .awaited listener =>
    ((m.update c fun r => { r with outbox := .empty }).hear listener c o).wake listener
  | .empty => m.update c fun r => { r with outbox := .full o }
  | .full _ => m

/-- Waits for the next input of `c`. -/
def read (m : Machine P V σ) (i c : RoutineId) : Machine P V σ :=
  match (m.routine c).inbox with
  | .full input => (m.update c fun r => { r with inbox := .empty }).deliver i input
  | .empty =>
    ((m.update c fun r => { r with inbox := .awaited i }).setControl i (.reading c)).pause i
  | .awaited _ => (m.setControl i (.reading c)).pause i

/-- Waits for the next output of `c`. -/
def listen (m : Machine P V σ) (i c : RoutineId) : Machine P V σ :=
  match (m.routine c).outbox with
  | .full o => (m.update c fun r => { r with outbox := .empty }).hear i c o
  | .empty =>
    ((m.update c fun r => { r with outbox := .awaited i }).setControl i (.listening c)).pause i
  | .awaited _ => (m.setControl i (.listening c)).pause i

/-- Resumes `c` with an input. -/
def resume (m : Machine P V σ) (i c : RoutineId) (p : Parcel V) : Machine P V σ :=
  if (m.status c).isResumable then
    ((m.setStatus c .running).sendInput c (.parcel p)).listen i c
  else
    m.fail i (.cannotResume (m.status c))

/-- Resumes `c` while an entry for it stands in a registry. -/
def resumeOn (m : Machine P V σ) (i : RoutineId) (place : Place) (c : RoutineId) (p : Parcel V) :
    Machine P V σ :=
  -- A refused resume has its entry too, until the frame withdraws it.
  ((m.setRegistry place ((m.registry place).push c)).pushFrame i (.registered place c)).resume i c p

/-- Gives `c` up, and says whether anyone waited for its next input. Whoever waits sees this as a
cancellation and goes on; a body that never started will not. Nothing changes if nobody waits and
the body has ended. -/
def close (m : Machine P V σ) (c : RoutineId) : Bool × Machine P V σ :=
  match (m.routine c).inbox with
  | .awaited reader =>
    let m := m.update c fun r => { r with status := .canceled, inbox := .empty }
    (true, (m.deliver reader .cancel).wake reader)
  | _ => (false, if (m.status c).isResumable then m.setStatus c .canceled else m)

/-- Gives `c` up, and leaves its body to itself. -/
def abandon (m : Machine P V σ) (c : RoutineId) : Machine P V σ := (m.close c).2

/-- One holder of scope `s` more. -/
def hold (m : Machine P V σ) (s : RoutineId) : Machine P V σ :=
  m.update s fun r => { r with scope := r.scope.map fun c => { c with holders := c.holders + 1 } }

/-- One holder of scope `s` less. The last one gives its body up, and lets go of the scope that the
body's value would have answered; there are at most `fuel` scopes in a row. -/
def letGoWithin : Nat → Machine P V σ → RoutineId → Machine P V σ
  | 0, m, _ => m
  | fuel + 1, m, s =>
    match (m.routine s).scope with
    | none => m
    | some c =>
      let m := m.update s fun r => { r with scope := some { c with holders := c.holders - 1 } }
      if c.holders ≤ 1 then
        match c.finish with
        | .into (some outer) => (letGoWithin fuel m outer).abandon s
        | _ => m.abandon s
      else
        m

/-- One holder of scope `s` less; the last one gives its body up. -/
def letGo (m : Machine P V σ) (s : RoutineId) : Machine P V σ := letGoWithin m.routines.size m s

/-- Drops a continuation, which held its scopes. -/
def release (m : Machine P V σ) : Cont → Machine P V σ
  | .direct s => m.letGo s
  | .through s inner => (m.letGo s).release inner

/-- Drops the continuation that a message carries, if any. -/
def releaseParcel (m : Machine P V σ) : Parcel V → Machine P V σ
  | .signal (.forward _ _ k) => m.release k
  | _ => m

/-- Drops the continuation that is kept at `k`, if it is still there. -/
def releaseAt (m : Machine P V σ) (k : ContId) : Machine P V σ :=
  match m.takeCont k with
  | (some c, m) => m.release c
  | (none, m) => m

/-- Hands out an output through `c` and waits for its next input. -/
def yield (m : Machine P V σ) (i c : RoutineId) (p : Parcel V) : Machine P V σ :=
  match m.status c with
  -- The status changes first, so whoever hears the output can resume at once.
  | .running => ((m.setStatus c .suspending).sendOutput c (.value p)).read i c
  | .canceled => (m.releaseParcel p).fail i .canceled
  | s => (m.releaseParcel p).fail i (.cannotYield s)

/-- Hands out an output through the coroutine whose body `i` runs, by its newest entry. The main
line runs no body. -/
def suspend (m : Machine P V σ) (i : RoutineId) (place : Place) (p : Parcel V) : Machine P V σ :=
  if i = .main then
    (m.releaseParcel p).fail i .noResumePoint
  else
    match (m.registry place).popWhere (· == i) with
    -- The entry is used up, also if the yield is then refused.
    | (some c, g) => (m.setRegistry place g).yield i c p
    | (none, _) => (m.releaseParcel p).fail i .noResumePoint

/-- Cancels `c` and waits for the end of its body. -/
def cancel (m : Machine P V σ) (i c : RoutineId) (answer : V) : Machine P V σ :=
  match m.status c with
  | .suspending =>
    (((m.setStatus c .canceled).pushFrame i (.canceling answer)).sendInput c .cancel).listen i c
  | s => m.fail i (.cannotCancel s)

/-- Waits for the end of the body of `c`. -/
def join (m : Machine P V σ) (i c : RoutineId) (answer : V) : Machine P V σ :=
  match (m.routine c).control with
  | .ended => m.reply i (.value (.plain answer))
  | _ =>
    ((m.update c fun r => { r with joiners := i :: r.joiners }).setControl i
      (.joining c answer)).pause i

/-- Gives `c` up, and waits for the end of its body if it was suspended. -/
def dispose (m : Machine P V σ) (i c : RoutineId) (answer : V) : Machine P V σ :=
  if m.isBusy c then
    m.fail i (.cannotCancel (m.status c))
  else
    match m.close c with
    | (true, m) => m.join i c answer
    | (false, m) => m.reply i (.value (.plain answer))

/-- The wait of a joiner is over. -/
def wakeJoiner (m : Machine P V σ) (i : RoutineId) : Machine P V σ :=
  match (m.routine i).control with
  | .joining _ answer => (m.reply i (.value (.plain answer))).wake i
  | _ => m

/-- The body of `c` ends. Its outcome goes to whoever waits for it; a cancellation stays visible in
the status unless the body panicked. -/
def finish (m : Machine P V σ) (c : RoutineId) (o : Outcome V (Parcel V)) : Machine P V σ :=
  let s := m.status c
  let ending : Status :=
    match o with
    | .panic _ => .panicked
    | _ => if s = .canceled then .canceled else .done
  let joiners := (m.routine c).joiners
  -- The status is final before anyone hears of the end.
  let m := (m.update c fun r =>
    { r with status := ending, control := .ended, joiners := [] }).pause c
  joiners.foldl wakeJoiner (m.sendOutput c o)

end OneShot.Machine
