import OneShot.Machine.Scopes

/-!
# Steps of a machine

One step of a machine is one step of the first routine that is ready. The routine executes a node of
its code, or gives an outcome to its topmost frame. `run` makes a bounded number of steps, and lets
the ready routines take turns; a machine without a ready routine has come to rest.
-/

namespace OneShot.Machine

variable {P V σ : Type}

/-- Answers a question of the code that routine `i` runs. -/
def answer (m : Machine P V σ) (i : RoutineId) : (q : Query P) → q.Reply × Machine P V σ
  | .spawn config body => m.spawn config (.body body) none
  | .skip => ((), { m with routines := m.routines.push .absent })
  | .status c => (m.status c, m)
  | .busy c => (m.isBusy c, m)
  | .abandon c => ((), if m.isCoroutine c && !m.isBusy c then m.abandon c else m)
  | .openRegistry => (⟨m.registries.size⟩, { m with registries := m.registries.push .empty })
  | .registered r => (m.registry (.registry r), m)
  | .register r op =>
    let (a, g) := (m.registry (.registry r)).apply op
    (a.item, m.setRegistry (.registry r) g)
  | .openContext config =>
    (⟨⟨m.contexts.size⟩, config⟩, { m with contexts := m.contexts.push .empty })
  | .pending ctx => ((m.registry ctx.place).size, m)
  | .holds k => ((m.conts.getD k.val none).isSome, m)
  | .keep k =>
    match m.takeCont k with
    | (some c, m) => let (place, m) := m.keepCont c; (some place, m)
    | (none, m) => (none, m)
  | .discard k => ((), m.releaseAt k)
  | .thread => ((m.routine i).thread, m)
  | .declare => (⟨m.effects + 1⟩, { m with effects := m.effects + 1 })

/-- Carries out an operation on `c` if it is a coroutine that code may name. -/
def onCoroutine (m : Machine P V σ) (i c : RoutineId)
    (operation : Machine P V σ → Machine P V σ) : Machine P V σ :=
  if m.isCoroutine c then operation m else m.fail i .detached

/-- Runs a body in a new scope, if the context of the scope was opened. -/
def onContext (m : Machine P V σ) (i : RoutineId) (scope : Scope P) (body : P) : Machine P V σ :=
  if scope.ctx.id.val < m.contexts.size then m.handle i scope body else m.fail i .detached

/-- Begins an operation of routine `i`. -/
def begin (code : P → Entry V → Code P V σ V) (m : Machine P V σ) (i : RoutineId) :
    Act P V → Machine P V σ
  | .call p entry => m.setControl i (.running (code p entry))
  | .resume c v => m.onCoroutine i c (·.resume i c (.plain v))
  | .resumeOn r c v => m.onCoroutine i c (·.resumeOn i (.registry r) c (.plain v))
  | .cancel c answer => m.onCoroutine i c (·.cancel i c answer)
  | .dispose c answer => m.onCoroutine i c (·.dispose i c answer)
  | .yield c v => m.onCoroutine i c (·.yield i c (.plain v))
  | .suspend r v =>
    if m.isCoroutine i then m.suspend i (.registry r) (.plain v) else m.fail i .noResumePoint
  | .perform ctx e v => m.perform i ctx (.declared e) (.datum v)
  | .raise ctx cause => m.perform i ctx .exception (.raised cause)
  | .handle ctx h body => m.onContext i (.ofHandler ctx h) body
  | .tryWith ctx arms body => m.onContext i (.ofArms ctx arms) body
  | .continueWith k v =>
    match m.takeCont k with
    | (some c, m) => m.continueWith i c (.datum v)
    | (none, m) => m.fail i .detached

/-- Executes a node of the code that routine `i` runs. -/
def exec (code : P → Entry V → Code P V σ V) (m : Machine P V σ) (i : RoutineId) :
    Code P V σ V → Machine P V σ
  | .pure v => m.reply i (.value (.plain v))
  | .fail f => m.fail i f
  | .panic p => m.reply i (.panic p)
  | .act a next => (m.pushFrame i (.next next)).begin code i a
  | .ask q next =>
    let (r, m) := m.answer i q
    m.setControl i (.running (next r))
  | .access change next =>
    let s := m.store
    { m with store := change s }.setControl i (.running (next s))

/-- A body begins with its first input. -/
def start (code : P → Entry V → Code P V σ V) (m : Machine P V σ) (i : RoutineId) :
    Start P V → Parcel V → Machine P V σ
  | .body p, .plain v => m.setControl i (.running (code p (.start v i)))
  | .body _, _ => m.fail i (.typeMismatch "input")
  | .handled p, _ => (m.pushFrame i .handledBody).setControl i (.running (code p .nothing))
  | .rejoin k b, _ => (m.pushFrame i .rejoining).continueWith i k b

/-- What code gets to see of an outcome. -/
def seen : Outcome V (Parcel V) → Outcome V V
  | .value (.plain v) => .value v
  | .value _ => .failure (.typeMismatch "value")
  | .failure f => .failure f
  | .panic p => .panic p

/-- Gives an outcome to a frame that was taken off the stack of routine `i`. -/
def unwind (code : P → Entry V → Code P V σ V) (m : Machine P V σ) (i : RoutineId)
    (o : Outcome V (Parcel V)) : Frame P V σ → Machine P V σ
  | .next k => m.setControl i (.running (k (seen o)))
  | .registered r c => (m.setRegistry r ((m.registry r).erase c)).reply i o
  | .nested depth thread =>
    (m.update i fun r => { r with depth := depth, thread := thread }).reply i o
  | .holding s => (m.letGo s).reply i o
  | .owning k => (m.releaseAt k).reply i o
  | .dispatch s =>
    match o with
    | .value (.signal signal) => m.dispatch code i s signal
    | .value _ => m.fail i (.typeMismatch "signal")
    | o => m.reply i o
  | .performing =>
    match o with
    | .value (.boxed (.datum v)) => m.reply i (.value (.plain v))
    | .value _ => m.fail i (.typeMismatch "answer")
    | o => m.reply i o
  | .forwarding e =>
    match o with
    | .value (.boxed (.result v)) => m.reply i (.value (.plain v))
    | .value _ => m.fail i (.typeMismatch "result")
    | .failure .noResumePoint => m.fail i (.unhandledEffect e)
    | o => m.reply i o
  | .canceling answer =>
    match o with
    | .value p => (m.releaseParcel p).reply i (.value (.plain answer))
    | .failure .canceled => m.reply i (.value (.plain answer))
    | o => m.reply i o
  | .handledBody =>
    match o with
    | .value (.plain v) => m.reply i (.value (.signal (.done (.datum v))))
    | .value _ => m.fail i (.typeMismatch "value")
    | o => m.reply i o
  | .rejoining =>
    match o with
    | .value (.plain v) => m.reply i (.value (.signal (.done (.result v))))
    | .value _ => m.fail i (.typeMismatch "value")
    | o => m.reply i o

/-- One step of routine `i`. A routine that cannot go on is no longer ready. -/
def stepOf (code : P → Entry V → Code P V σ V) (m : Machine P V σ) (i : RoutineId) :
    Machine P V σ :=
  match (m.routine i).control with
  | .starting s p => m.start code i s p
  | .running c => m.exec code i c
  | .returning o =>
    match (m.routine i).stack with
    -- Nobody resumes the main line: its outcome stays in its outbox.
    | [] => m.finish i o
    | f :: stack => (m.update i fun r => { r with stack := stack }).unwind code i o f
  | _ => m.pause i

/-- One step of the machine, unless it is at rest. -/
def step (code : P → Entry V → Code P V σ V) (m : Machine P V σ) : Option (Machine P V σ) :=
  match m.ready with
  | [] => none
  | i :: _ => some (m.stepOf code i)

/-- The turn goes from the first ready routine to the next one. -/
def passTurn (m : Machine P V σ) : Machine P V σ :=
  match m.ready with
  | [] => m
  | i :: rest => { m with ready := rest ++ [i] }

/-- How many steps are made before the turn passes on. -/
def turnLength : Nat := 1000

/-- Makes steps until the machine is at rest, at most `fuel` of them. No routine that is ready waits
for ever, not even for one that waits for it in a loop. -/
def run (code : P → Entry V → Code P V σ V) : Nat → Machine P V σ → Machine P V σ
  | 0, m => m
  | fuel + 1, m =>
    match m.step code with
    | some m' => run code fuel (if fuel % turnLength = 0 then m'.passTurn else m')
    | none => m

/-- Whether the machine is at rest and no routine has stopped half-way. -/
def isDone (m : Machine P V σ) : Bool :=
  m.ready.isEmpty && m.routines.toList.all (·.isIdle)

end OneShot.Machine
