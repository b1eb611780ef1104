import OneShot.Proofs.Waiting

/-!
# Walking the tree of a body

What a body does can be seen as a tree, which may be infinite: it reacts to an input by handing out
a value, and then goes on with the next input, or by ending. Such trees are the states of a map
`react` that says how each one reacts.

The code of a body follows a tree (`Body.Follows`) if each of its reactions, after whatever it
computes in between, is that of the tree. `runs_drive` says that one who resumes a coroutine with
one input after the other gets what `Position.walk` finds in the tree: the values that are handed
out, then the end, and then refusals. The body makes no step unless its resumer waits for it.
-/

namespace OneShot

variable {P V σ S : Type}

/-! ## Trees -/

/-- How a tree reacts to an input. -/
inductive Reaction (S V : Type) where
  /-- It hands out a value, and goes on as another tree. -/
  | yields (out : V) (s : S)
  | ends (o : Outcome V V)

/-- The status in which an outcome leaves a coroutine. -/
def Outcome.finalStatus {V α : Type} : Outcome V α → Status
  | .panic _ => .panicked
  | _ => .done

/-- Where the body of a coroutine is in a tree. -/
inductive Position (S : Type) where
  | fresh (s : S)
  | waiting (s : S)
  | ended (s : Status)

namespace Position

/-- The status of the coroutine. -/
def status : Position S → Status
  | .fresh _ => .notRunning
  | .waiting _ => .suspending
  | .ended s => s

/-- What a resume with an input gives back, and where the body is then. -/
def next (react : S → V → Reaction S V) : Position S → V → Outcome V V × Position S
  | .fresh s, v | .waiting s, v =>
    match react s v with
    | .yields out s' => (.value out, .waiting s')
    | .ends o => (o, .ended o.finalStatus)
  | .ended s, _ => (.failure (.cannotResume s), .ended s)

/-- What resumes with one input after the other give back, each with the status that it leaves. -/
def walk (react : S → V → Reaction S V) : Position S → List V → List (Outcome V V × Status)
  | _, [] => []
  | pos, v :: vs =>
    let (o, pos') := pos.next react v
    (o, pos'.status) :: walk react pos' vs

/-- Where the body is after all inputs. -/
def after (react : S → V → Reaction S V) (pos : Position S) (vs : List V) : Position S :=
  vs.foldl (fun pos v => (pos.next react v).2) pos

end Position

/-! ## Bodies that follow trees -/

/-- How code ends, if it ends at once. -/
def Code.outcome? : Code P V σ V → Option (Outcome V V)
  | .pure v => some (.value v)
  | .fail f => some (.failure f)
  | .panic p => some (.panic p)
  | _ => none

/-- Whether a question only looks at the machine. -/
def Query.looks : Query P → Bool
  | .status _ | .busy _ | .registered _ | .pending _ | .holds _ | .thread => true
  | _ => false

/-- What goes on with an outcome. -/
abbrev Rest (P V σ : Type) := Outcome V V → Code P V σ V

/-- Where code of coroutine `c` comes to, with the calls around it. -/
inductive Stop (P V σ : Type) where
  /-- It hands out a value. -/
  | yields (out : V) (next : Rest P V σ) (rest : List (Rest P V σ))
  | ends (o : Outcome V V)

/-- What the resumer of the coroutine gets. -/
def Stop.outcome : Stop P V σ → Outcome V (Parcel V)
  | .yields out _ _ => .value (.plain out)
  | .ends o => o.map .plain

/-- Code that runs inside of calls comes to a stop, whatever it finds in the store and in the rest of
the machine. -/
inductive ComesTo (code : P → Entry V → Code P V σ V) (c : RoutineId) :
    Code P V σ V → List (Rest P V σ) → Stop P V σ → Prop where
  | yields {out : V} {next : Rest P V σ} {rest : List (Rest P V σ)} :
    ComesTo code c (.act (.yield c out) next) rest (.yields out next rest)
  | ends {x : Code P V σ V} {o : Outcome V V} (hx : x.outcome? = some o) :
    ComesTo code c x [] (.ends o)
  | back {x : Code P V σ V} {o : Outcome V V} {next : Rest P V σ} {rest : List (Rest P V σ)}
    {stop : Stop P V σ} (hx : x.outcome? = some o) (h : ComesTo code c (next o) rest stop) :
    ComesTo code c x (next :: rest) stop
  | call {p : P} {entry : Entry V} {next : Rest P V σ} {rest : List (Rest P V σ)}
    {stop : Stop P V σ} (h : ComesTo code c (code p entry) (next :: rest) stop) :
    ComesTo code c (.act (.call p entry) next) rest stop
  | access {change : σ → σ} {next : σ → Code P V σ V} {rest : List (Rest P V σ)}
    {stop : Stop P V σ} (h : ∀ s, ComesTo code c (next s) rest stop) :
    ComesTo code c (.access change next) rest stop
  | look {q : Query P} {next : q.Reply → Code P V σ V} {rest : List (Rest P V σ)}
    {stop : Stop P V σ} (hq : q.looks = true) (h : ∀ a, ComesTo code c (next a) rest stop) :
    ComesTo code c (.ask q next) rest stop

/-- The coroutine waits for an input, and nobody waits for it. -/
structure Routine.IsOpen (c : RoutineId) (r : Routine P V σ) : Prop where
  inbox : r.inbox = .awaited c
  outbox : r.outbox = .empty
  scope : r.scope = none
  joiners : r.joiners = []

/-- A call of the routine comes back. -/
def Routine.returns (r : Routine P V σ) (o : Outcome V V) : Routine P V σ :=
  { r with control := .returning (o.map .plain) }

/-- What a body that waits does with its next input: code, and the calls around it. -/
abbrev Body (P V σ : Type) := V → Code P V σ V × List (Rest P V σ)

/-- The relation is kept when body and tree react to the same input. -/
def IsSimulation (code : P → Entry V → Code P V σ V) (c : RoutineId) (react : S → V → Reaction S V)
    (R : Body P V σ → S → Prop) : Prop :=
  ∀ b s, R b s → ∀ v,
    match react s v with
    | .yields out s' => ∃ next rest, ComesTo code c (b v).1 (b v).2 (.yields out next rest) ∧
        R (fun w => (next (.value w), rest)) s'
    | .ends o => ComesTo code c (b v).1 (b v).2 (.ends o)

/-- The body reacts to all inputs, now and later, as the tree does. -/
def Body.Follows (code : P → Entry V → Code P V σ V) (c : RoutineId) (react : S → V → Reaction S V)
    (b : Body P V σ) (s : S) : Prop :=
  ∃ R, IsSimulation code c react R ∧ R b s

/-- The body of a coroutine that begins with a procedure. -/
def Body.ofProcedure (code : P → Entry V → Code P V σ V) (c : RoutineId) (p : P) : Body P V σ :=
  fun v => (code p (.start v c), [])

theorem Body.Follows.react {code : P → Entry V → Code P V σ V} {c : RoutineId}
    {react : S → V → Reaction S V} {b : Body P V σ} {s : S} (h : Body.Follows code c react b s)
    (v : V) :
    match react s v with
    | .yields out s' => ∃ next rest, ComesTo code c (b v).1 (b v).2 (.yields out next rest) ∧
        Body.Follows code c react (fun w => (next (.value w), rest)) s'
    | .ends o => ComesTo code c (b v).1 (b v).2 (.ends o) := by
  obtain ⟨R, hR, hb⟩ := h
  have hv := hR b s hb v
  split at hv
  · obtain ⟨next, rest, hstop, hnext⟩ := hv
    exact ⟨next, rest, hstop, R, hR, hnext⟩
  · exact hv

/-! ## Bodies for all trees -/

/-- Acts as a tree reacts. -/
def Reaction.code {P : Type} (self : RoutineId) (enter : S → P) : Reaction S V → Code P V σ V
  | .yields out s =>
    .act (.yield self out) fun
      | .value v => .perform (.call (enter s) (.value v))
      | o => .ofOutcome o
  | .ends o => .ofOutcome o

/-- The procedures that act as the trees of `react` do. They know the coroutine that runs them. -/
def treeCode (react : S → V → Reaction S V) :
    S × RoutineId → Entry V → Code (S × RoutineId) V σ V
  | (s, _), .start v self => (react s v).code self (·, self)
  | (s, self), .value v => (react s v).code self (·, self)
  | _, _ => .fail .detached

theorem ComesTo.ofOutcome {code : P → Entry V → Code P V σ V} {c : RoutineId} (o : Outcome V V)
    (n : Nat) : ComesTo code c (.ofOutcome o) (.replicate n .ofOutcome) (.ends o) := by
  have ho : (Code.ofOutcome o : Code P V σ V).outcome? = some o := by cases o <;> rfl
  induction n with
  | zero => exact .ends ho
  | succ n ih => exact .back ho ih

/-- Every tree is followed by a body. -/
theorem follows_treeCode (react : S → V → Reaction S V) (c d : RoutineId) (s : S) :
    Body.Follows (σ := σ) (treeCode react) c react (.ofProcedure (treeCode react) c (s, d)) s := by
  -- Each reaction is acted out inside of the calls that the earlier ones have made.
  refine ⟨fun b s => ∃ n, ∀ v stop, ComesTo (treeCode react) c ((react s v).code c (·, c))
    (.replicate n .ofOutcome) stop → ComesTo (treeCode react) c (b v).1 (b v).2 stop, ?_,
    0, fun v stop h => h⟩
  rintro b s ⟨n, hb⟩ v
  have hv := hb v
  cases hr : react s v with
  | yields out s' =>
    rw [hr] at hv
    refine ⟨_, _, hv _ .yields, n + 1, fun w stop h => ?_⟩
    exact .call h
  | ends o =>
    rw [hr] at hv
    exact hv _ (.ofOutcome o n)

namespace Machine

open Control

variable {code : P → Entry V → Code P V σ V} {m m₁ m₂ m' : Machine P V σ} {i c : RoutineId}
  {ri rc : Routine P V σ} {l : List RoutineId} {react : S → V → Reaction S V}

/-! ## Two routines -/

/-- What a machine shows of a resumer and of the coroutine that it resumes. -/
structure Shows (m : Machine P V σ) (i c : RoutineId) (ri rc : Routine P V σ)
    (l : List RoutineId) : Prop where
  ne : i ≠ c
  resumer_lt : i.val < m.routines.size
  body_lt : c.val < m.routines.size
  resumer : m.routine i = ri
  body : m.routine c = rc
  ready : m.ready = l

namespace Shows

variable (h : m.Shows i c ri rc l)
include h

theorem updateResumer (f : Routine P V σ → Routine P V σ) :
    (m.update i f).Shows i c (f ri) rc l where
  ne := h.ne
  resumer_lt := by rw [size_update]; exact h.resumer_lt
  body_lt := by rw [size_update]; exact h.body_lt
  resumer := by rw [routine_update_self h.resumer_lt, h.resumer]
  body := by rw [routine_update_of_ne h.ne, h.body]
  ready := h.ready

theorem updateBody (f : Routine P V σ → Routine P V σ) :
    (m.update c f).Shows i c ri (f rc) l where
  ne := h.ne
  resumer_lt := by rw [size_update]; exact h.resumer_lt
  body_lt := by rw [size_update]; exact h.body_lt
  resumer := by rw [routine_update_of_ne h.ne.symm, h.resumer]
  body := by rw [routine_update_self h.body_lt, h.body]
  ready := h.ready

theorem wake (j : RoutineId) : (m.wake j).Shows i c ri rc (l ++ [j]) :=
  ⟨h.ne, h.resumer_lt, h.body_lt, h.resumer, h.body, congrArg (· ++ [j]) h.ready⟩

theorem pause (j : RoutineId) : (m.pause j).Shows i c ri rc (l.erase j) :=
  ⟨h.ne, h.resumer_lt, h.body_lt, h.resumer, h.body, congrArg (List.erase · j) h.ready⟩

theorem access (s : σ) : { m with store := s }.Shows i c ri rc l :=
  ⟨h.ne, h.resumer_lt, h.body_lt, h.resumer, h.body, h.ready⟩

theorem pushFrame (f : Frame P V σ) :
    (m.pushFrame i f).Shows i c { ri with stack := f :: ri.stack } rc l :=
  h.updateResumer _

theorem setControl (d : Control P V σ) : (m.setControl i d).Shows i c { ri with control := d } rc l :=
  h.updateResumer _

end Shows

/-- The body after an input was handed over to it. -/
def woken (rc : Routine P V σ) (i : RoutineId) (a : Parcel V) : Routine P V σ :=
  { rc with
    status := .running
    inbox := .empty
    outbox := .awaited i
    control := rc.control.take (.parcel a) }

/-- A resume that is accepted hands over the input, and waits. -/
theorem Shows.resume (h : m.Shows i c ri rc [i]) (hres : rc.status.isResumable = true)
    (hin : rc.inbox = .awaited c) (hout : rc.outbox = .empty) (a : Parcel V) :
    (m.resume i c a).Shows i c { ri with control := .listening c } (woken rc i a) [c] := by
  have h₁ := h.updateBody fun r => { r with status := .running }
  have h₂ := h₁.updateBody fun r => { r with inbox := .empty }
  have h₃ := (h₂.updateBody fun r => { r with control := rc.control.take (.parcel a) }).wake c
  have hsend : (m.setStatus c .running).sendInput c (.parcel a) =
      (((m.setStatus c .running).update c fun r => { r with inbox := .empty }).deliver c
        (.parcel a)).wake c := by
    unfold sendInput
    rw [show ((m.setStatus c .running).routine c).inbox = .awaited c by rw [setStatus, h₁.body, hin]]
  have h₄ : ((m.setStatus c .running).sendInput c (.parcel a)).Shows i c ri
      { rc with
        status := .running
        inbox := .empty
        control := rc.control.take (.parcel a) } [i, c] := by
    rw [hsend, deliver_eq, setStatus, h₂.body]
    exact h₃
  have hlisten : m.resume i c a = ((((m.setStatus c .running).sendInput c (.parcel a)).update c
      fun r => { r with outbox := .awaited i }).setControl i (.listening c)).pause i := by
    unfold Machine.resume listen
    rw [status, h.body, if_pos hres, h₄.body]
    simp only [hout]
  rw [hlisten]
  have h₅ := ((h₄.updateBody fun r => { r with outbox := .awaited i }).setControl
    (.listening c)).pause i
  simpa [woken] using h₅

/-- An output reaches the resumer, which goes on. -/
theorem Shows.sendOutput (h : m.Shows i c ri rc l) (hout : rc.outbox = .awaited i)
    (o : Outcome V (Parcel V)) :
    (m.sendOutput c o).Shows i c { ri with control := .returning o }
      { rc with
        outbox := .empty
        status := match o with
          | .panic _ => .panicked
          | _ => rc.status } (l ++ [i]) := by
  have h₁ := h.updateBody fun r => { r with outbox := .empty }
  have hsend : m.sendOutput c o =
      ((m.update c fun r => { r with outbox := .empty }).hear i c o).wake i := by
    unfold Machine.sendOutput
    rw [h.body, hout]
  rw [hsend]
  cases o with
  | panic a =>
    exact ((h₁.updateBody fun r => { r with status := .panicked }).setControl
      (.returning (.panic a))).wake i
  | value a => exact (h₁.setControl (.returning (.value a))).wake i
  | failure f => exact (h₁.setControl (.returning (.failure f))).wake i

/-- A body hands out a value, and waits for the next input. -/
theorem Shows.yield (h : m.Shows i c ri rc [c]) (hrun : rc.status = .running)
    (hin : rc.inbox = .empty) (hout : rc.outbox = .awaited i) (a : Parcel V) :
    (m.yield c c a).Shows i c { ri with control := .returning (.value a) }
      { rc with
        status := .suspending
        inbox := .awaited c
        outbox := .empty
        control := .reading c } [i] := by
  have h₁ := (h.updateBody fun r => { r with status := .suspending }).sendOutput hout (.value a)
  have hyield : m.yield c c a =
      ((((m.setStatus c .suspending).sendOutput c (.value a)).update c fun r =>
        { r with inbox := .awaited c }).setControl c (.reading c)).pause c := by
    unfold Machine.yield read
    rw [status, h.body, hrun]
    dsimp only
    rw [setStatus, h₁.body]
    simp only [hin]
  rw [hyield]
  have h₂ := ((h₁.updateBody fun r => { r with inbox := .awaited c }).updateBody fun r =>
    { r with control := .reading c }).pause c
  simpa [setStatus, Machine.setControl] using h₂

/-- A body ends, and its resumer hears how. -/
theorem Shows.finish (h : m.Shows i c ri rc [c]) (hrun : rc.status = .running)
    (hout : rc.outbox = .awaited i) (hjoin : rc.joiners = []) (o : Outcome V (Parcel V)) :
    (m.finish c o).Shows i c { ri with control := .returning o }
      { rc with
        status := o.finalStatus
        outbox := .empty
        control := .ended } [i] := by
  have h₁ := ((h.updateBody fun r =>
    { r with status := o.finalStatus, control := .ended, joiners := [] }).pause c).sendOutput hout o
  have hfinish : m.finish c o = ((m.update c fun r =>
      { r with status := o.finalStatus, control := .ended, joiners := [] }).pause c).sendOutput
        c o := by
    unfold Machine.finish
    simp only [status, h.body, hrun, hjoin, List.foldl_nil]
    cases o <;> rfl
  rw [hfinish]
  cases o <;> simpa [hjoin, Outcome.finalStatus] using h₁

/-! ## Runs in which the body rests -/

/-- Coroutine `c` makes no step unless routine `i` waits for it. -/
def restsUnlessAwaited (i c : RoutineId) (m _ : Machine P V σ) : Bool :=
  m.ready.head? != some c ||
    match (m.routine i).control with
    | .listening d => d == c
    | _ => false

/-- The machine runs to the second one, and all steps on the way pass a test. -/
def RunsTo (code : P → Entry V → Code P V σ V) (test : Machine P V σ → Machine P V σ → Bool)
    (m m' : Machine P V σ) : Prop :=
  ∃ n, m.runUnder code test n = some m'

namespace RunsTo

variable {test : Machine P V σ → Machine P V σ → Bool}

theorem refl (m : Machine P V σ) : RunsTo code test m m := ⟨0, rfl⟩

theorem head (hstep : m.step code = some m₁) (htest : test m m₁ = true)
    (h : RunsTo code test m₁ m') : RunsTo code test m m' := by
  obtain ⟨n, hn⟩ := h
  exact ⟨n + 1, by simp [runUnder, hstep, htest, hn]⟩

theorem trans (h : RunsTo code test m m₁) (h' : RunsTo code test m₁ m') :
    RunsTo code test m m' := by
  obtain ⟨n, hn⟩ := h
  induction n generalizing m with
  | zero => exact Option.some.inj hn ▸ h'
  | succ n ih =>
    unfold runUnder at hn
    split at hn
    · next m₂ hstep =>
      split at hn
      · next htest => exact head hstep htest (ih hn)
      · cases hn
    · cases hn

end RunsTo

namespace Shows

/-- A step of the resumer. -/
theorem resumer_step (h : m.Shows i c ri rc [i]) (h' : RunsTo code (restsUnlessAwaited i c)
    (m.stepOf code i) m') : RunsTo code (restsUnlessAwaited i c) m m' := by
  refine .head (by simp [step, h.ready]) ?_ h'
  simpa [restsUnlessAwaited, h.ready] using .inl h.ne

/-- A step of the body, for which the resumer waits. -/
theorem body_step (h : m.Shows i c ri rc [c]) (hri : ri.control = .listening c)
    (h' : RunsTo code (restsUnlessAwaited i c) (m.stepOf code c) m') :
    RunsTo code (restsUnlessAwaited i c) m m' := by
  refine .head (by simp [step, h.ready]) ?_ h'
  simp [restsUnlessAwaited, h.resumer, hri]

end Shows

/-- The coroutine runs, and routine `i` waits for it. -/
structure Awaited (i : RoutineId) (r : Routine P V σ) : Prop where
  running : r.status = .running
  inbox : r.inbox = .empty
  outbox : r.outbox = .awaited i
  scope : r.scope = none
  joiners : r.joiners = []

theorem exec_of_outcome? {x : Code P V σ V} {o : Outcome V V} (hx : x.outcome? = some o) :
    m.exec code c x = m.reply c (o.map .plain) := by
  cases x <;> cases hx <;> rfl

theorem seen_map_plain (o : Outcome V V) : seen (o.map .plain) = o := by cases o <;> rfl

theorem answer_of_looks {q : Query P} (hq : q.looks = true) : (m.answer c q).2 = m := by
  cases q <;> first | rfl | cases hq

/-- The body where it has come to a stop. -/
def stopped (rc : Routine P V σ) (c : RoutineId) : Stop P V σ → Routine P V σ
  | .yields _ next rest =>
    { rc with
      status := .suspending
      inbox := .awaited c
      outbox := .empty
      control := .reading c
      stack := (next :: rest).map .next }
  | .ends o => { rc with status := o.finalStatus, outbox := .empty, control := .ended, stack := [] }

theorem finalStatus_map (o : Outcome V V) :
    (o.map Parcel.plain : Outcome V (Parcel V)).finalStatus = o.finalStatus := by
  cases o <;> rfl

variable (code) in
/-- The body gives an outcome of its code to what stands on its stack. -/
theorem Shows.replies {x : Code P V σ V} {o : Outcome V V} (h : m.Shows i c ri rc [c])
    (hri : ri.control = .listening c) (hcontrol : rc.control = .running x)
    (hx : x.outcome? = some o) :
    (m.reply c (o.map .plain)).Shows i c ri { rc with control := .returning (o.map .plain) } [c] ∧
      ∀ m', RunsTo code (restsUnlessAwaited i c) ((m.reply c (o.map .plain)).stepOf code c) m' →
        RunsTo code (restsUnlessAwaited i c) m m' := by
  have hreply := h.updateBody fun r => { r with control := .returning (o.map .plain) }
  have hfirst : m.stepOf code c = m.reply c (o.map .plain) := by
    rw [stepOf_running (by rw [h.body, hcontrol]), exec_of_outcome? hx]
  refine ⟨hreply, fun m' hruns => h.body_step hri ?_⟩
  rw [hfirst]
  exact hreply.body_step hri hruns

/-- A stop does not depend on what the body runs and what stands on its stack. -/
theorem stopped_congr (rc : Routine P V σ) (c : RoutineId) (k : Control P V σ)
    (st : List (Frame P V σ)) (stop : Stop P V σ) :
    stopped { rc with control := k, stack := st } c stop = stopped rc c stop := by
  cases stop <;> rfl

/-- The body comes to its stop, and the resumer goes on. -/
theorem runs_to_stop {x : Code P V σ V} {rest : List (Rest P V σ)} {stop : Stop P V σ}
    (hx : ComesTo code c x rest stop) (hmain : c ≠ .main) (h : m.Shows i c ri rc [c])
    (hri : ri.control = .listening c) (hrc : Awaited i rc) (hcontrol : rc.control = .running x)
    (hstack : rc.stack = rest.map .next) :
    ∃ m', RunsTo code (restsUnlessAwaited i c) m m' ∧
      m'.Shows i c { ri with control := .returning stop.outcome } (stopped rc c stop) [i] := by
  induction hx generalizing m rc with
  | @yields out next rest =>
    have hpush := h.updateBody fun r => { r with stack := .next next :: r.stack }
    have hco : (m.pushFrame c (.next next)).isCoroutine c = true := by
      rw [isCoroutine, pushFrame, hpush.body]
      simp [hmain, hrc.scope]
    have hstep : m.stepOf code c = (m.pushFrame c (.next next)).yield c c (.plain out) := by
      rw [stepOf_running (by rw [h.body, hcontrol]), exec, begin, onCoroutine, if_pos hco]
    have hyield := hpush.yield hrc.running hrc.inbox hrc.outbox (.plain out)
    refine ⟨_, h.body_step hri (.refl _), ?_⟩
    rw [hstep]
    simpa [stopped, Stop.outcome, pushFrame, hstack] using hyield
  | @ends x o hx =>
    obtain ⟨hreply, hruns⟩ := h.replies code hri hcontrol hx
    have hend : (m.reply c (o.map .plain)).stepOf code c =
        (m.reply c (o.map .plain)).finish c (o.map .plain) :=
      stepOf_ending (by rw [hreply.body]) (by rw [hreply.body]; exact hstack)
    have hfinish := hreply.finish hrc.running hrc.outbox hrc.joiners (o.map .plain)
    refine ⟨_, hruns _ (.refl _), ?_⟩
    rw [hend]
    simpa [stopped, Stop.outcome, hstack, finalStatus_map] using hfinish
  | @back x o next rest stop hx hnext ih =>
    obtain ⟨hreply, hruns⟩ := h.replies code hri hcontrol hx
    have hst : ((m.reply c (o.map .plain)).routine c).stack = .next next :: rest.map .next := by
      rw [hreply.body, hstack]
      rfl
    have hback := (hreply.updateBody fun r => { r with stack := rest.map .next }).updateBody
      fun r => { r with control := .running (next o) }
    obtain ⟨m', hgoes, hshows⟩ := ih hback ⟨hrc.running, hrc.inbox, hrc.outbox, hrc.scope,
      hrc.joiners⟩ rfl rfl
    refine ⟨m', hruns m' ?_, stopped_congr rc .. ▸ hshows⟩
    rw [stepOf_next (by rw [hreply.body]) hst, seen_map_plain]
    exact hgoes
  | @call p entry next rest stop _ ih =>
    have hcall := (h.updateBody fun r => { r with stack := .next next :: r.stack }).updateBody
      fun r => { r with control := .running (code p entry) }
    have hstep : m.stepOf code c =
        (m.pushFrame c (.next next)).setControl c (.running (code p entry)) := by
      rw [stepOf_running (by rw [h.body, hcontrol])]
      rfl
    obtain ⟨m', hruns, hshows⟩ := ih hcall ⟨hrc.running, hrc.inbox, hrc.outbox, hrc.scope,
      hrc.joiners⟩ rfl (by simp [hstack])
    exact ⟨m', h.body_step hri (hstep ▸ hruns), stopped_congr rc .. ▸ hshows⟩
  | @access change next rest stop _ ih =>
    have haccess := (h.access (change m.store)).updateBody
      fun r => { r with control := .running (next m.store) }
    have hstep : m.stepOf code c =
        { m with store := change m.store }.setControl c (.running (next m.store)) := by
      rw [stepOf_running (by rw [h.body, hcontrol])]
      rfl
    obtain ⟨m', hruns, hshows⟩ := ih m.store haccess ⟨hrc.running, hrc.inbox, hrc.outbox,
      hrc.scope, hrc.joiners⟩ rfl hstack
    exact ⟨m', h.body_step hri (hstep ▸ hruns), stopped_congr rc .. ▸ hshows⟩
  | @look q next rest stop hq _ ih =>
    have hlook := h.updateBody fun r => { r with control := .running (next (m.answer c q).1) }
    have hstep : m.stepOf code c = m.setControl c (.running (next (m.answer c q).1)) := by
      rw [stepOf_running (by rw [h.body, hcontrol]), exec]
      dsimp only
      rw [answer_of_looks hq]
    obtain ⟨m', hruns, hshows⟩ := ih _ hlook ⟨hrc.running, hrc.inbox, hrc.outbox,
      hrc.scope, hrc.joiners⟩ rfl hstack
    exact ⟨m', h.body_step hri (hstep ▸ hruns), stopped_congr rc .. ▸ hshows⟩

/-! ## Resuming a body -/

/-- Where a coroutine that rests is in a tree. -/
def Stands (code : P → Entry V → Code P V σ V) (react : S → V → Reaction S V) (c : RoutineId)
    (r : Routine P V σ) : Position S → Prop
  | .fresh s => r.IsOpen c ∧ r.status = .notRunning ∧ ∃ p, r.control = .fresh (.body p) ∧
      r.stack = [] ∧ Body.Follows code c react (.ofProcedure code c p) s
  | .waiting s => r.IsOpen c ∧ r.status = .suspending ∧ ∃ next rest, r.control = .reading c ∧
      r.stack = (next :: rest).map .next ∧
        Body.Follows code c react (fun w => (next (.value w), rest)) s
  | .ended s => r.scope = none ∧ r.inbox = .empty ∧ r.control = .ended ∧ r.status = s ∧
      s.isResumable = false

theorem Stands.status_eq {pos : Position S} (h : Stands code react c rc pos) :
    rc.status = pos.status := by
  cases pos with
  | fresh s => exact h.2.1
  | waiting s => exact h.2.1
  | ended s => exact h.2.2.2.1

theorem Stands.scope_eq {pos : Position S} (h : Stands code react c rc pos) : rc.scope = none := by
  cases pos with
  | fresh s => exact h.1.scope
  | waiting s => exact h.1.scope
  | ended s => exact h.1

theorem isResumable_finalStatus {V α : Type} (o : Outcome V α) :
    o.finalStatus.isResumable = false := by
  cases o <;> rfl

/-- A body that has got an input reacts to it. -/
theorem reacts {b : Body P V σ} {s : S} (hb : Body.Follows code c react b s) (hmain : c ≠ .main)
    (h : m.Shows i c ri rc [c]) (hri : ri.control = .listening c) (hrc : Awaited i rc) {v : V}
    (hcontrol : rc.control = .running (b v).1) (hstack : rc.stack = (b v).2.map .next) :
    ∃ m' rc', RunsTo code (restsUnlessAwaited i c) m m' ∧
      m'.Shows i c (ri.returns ((Position.waiting s).next react v).1) rc' [i] ∧
      Stands code react c rc' ((Position.waiting s).next react v).2 := by
  have hv := hb.react v
  cases hr : react s v with
  | yields out s' =>
    rw [hr] at hv
    obtain ⟨next, rest, hstop, hnext⟩ := hv
    obtain ⟨m', hruns, hshows⟩ := runs_to_stop hstop hmain h hri hrc hcontrol hstack
    have hpos : (Position.waiting s).next react v = (.value out, .waiting s') := by
      simp only [Position.next, hr]
    rw [hpos]
    exact ⟨m', _, hruns, hshows, ⟨rfl, rfl, hrc.scope, hrc.joiners⟩, rfl, next, rest, rfl, rfl, hnext⟩
  | ends o =>
    rw [hr] at hv
    obtain ⟨m', hruns, hshows⟩ := runs_to_stop hv hmain h hri hrc hcontrol hstack
    have hpos : (Position.waiting s).next react v = (o, .ended o.finalStatus) := by
      simp only [Position.next, hr]
    rw [hpos]
    exact ⟨m', _, hruns, hshows, hrc.scope, hrc.inbox, rfl, rfl, isResumable_finalStatus o⟩

/-- A resume that is accepted comes back with the reaction of the body. -/
theorem resume_reacts {b : Body P V σ} {s : S} (hb : Body.Follows code c react b s)
    (hmain : c ≠ .main) (h : m.Shows i c ri rc [i]) (hopen : rc.IsOpen c)
    (hres : rc.status.isResumable = true) {v : V}
    (hbegin : ∀ m' : Machine P V σ, m'.routine c = woken rc i (.plain v) → m'.stepOf code c =
      (m'.update c fun r => { r with stack := (b v).2.map .next }).setControl c
        (.running (b v).1)) :
    ∃ m' rc', RunsTo code (restsUnlessAwaited i c) (m.resume i c (.plain v)) m' ∧
      m'.Shows i c (ri.returns ((Position.waiting s).next react v).1) rc' [i] ∧
      Stands code react c rc' ((Position.waiting s).next react v).2 := by
  have hresume := h.resume hres hopen.inbox hopen.outbox (.plain v)
  have hfirst := (hresume.updateBody fun r => { r with stack := (b v).2.map .next }).updateBody
    fun r => { r with control := .running (b v).1 }
  obtain ⟨m', rc', hruns, hshows, hstands⟩ := reacts hb hmain hfirst rfl
    ⟨rfl, rfl, rfl, hopen.scope, hopen.joiners⟩ rfl rfl
  refine ⟨m', rc', hresume.body_step rfl ?_, hshows, hstands⟩
  rw [hbegin _ hresume.body]
  exact hruns

/-- Every resume comes back, with what the tree says. -/
theorem resume_next {pos : Position S} (hstands : Stands code react c rc pos) (hmain : c ≠ .main)
    (h : m.Shows i c ri rc [i]) (v : V) :
    ∃ m' rc', RunsTo code (restsUnlessAwaited i c) (m.resume i c (.plain v)) m' ∧
      m'.Shows i c (ri.returns (pos.next react v).1) rc' [i] ∧
      Stands code react c rc' (pos.next react v).2 := by
  cases pos with
  | fresh s =>
    obtain ⟨hopen, hstatus, p, hcontrol, hstack, hb⟩ := hstands
    refine resume_reacts hb hmain h hopen (by rw [hstatus]; rfl) fun m' hm' => ?_
    have hstart : (m'.routine c).control = .starting (.body p) (.plain v) := by
      rw [hm', woken, hcontrol]
      rfl
    have hnil : m'.update c (fun r => { r with stack := [] }) = m' := by
      refine (update_congr (m := m') (g := id) ?_).trans (update_id m' c)
      rw [hm']
      simp [woken, hstack]
    rw [stepOf_starting hstart]
    simp only [Body.ofProcedure, List.map_nil, hnil]
    rfl
  | waiting s =>
    obtain ⟨hopen, hstatus, next, rest, hcontrol, hstack, hb⟩ := hstands
    refine resume_reacts hb hmain h hopen (by rw [hstatus]; rfl) fun m' hm' => ?_
    refine stepOf_next (o := .value (.plain v)) ?_ ?_
    · rw [hm', woken, hcontrol]
      rfl
    · rw [hm', woken, hstack]
      rfl
  | ended s =>
    obtain ⟨-, -, -, hstatus, hres⟩ := id hstands
    have hrefused : m.resume i c (.plain v) = m.fail i (.cannotResume s) := by
      unfold Machine.resume
      rw [status, h.body, hstatus, if_neg (by simp [hres])]
    rw [hrefused]
    exact ⟨_, rc, .refl _, h.setControl _, hstands⟩

/-- Resumes a coroutine with one input after the other, and looks at its status each time. -/
def drive (c : RoutineId) :
    List V → (List (Outcome V V × Status) → Code P V σ V) → Code P V σ V
  | [], k => k []
  | v :: vs, k =>
    .act (.resume c v) fun o =>
      .ask (.status c) fun s => drive c vs fun results => k ((o, s) :: results)

/-- All resumes come back, with what a walk in the tree finds. -/
theorem runs_drive_of_stands {pos : Position S} (hstands : Stands code react c rc pos)
    (hmain : c ≠ .main) (vs : List V) {k : List (Outcome V V × Status) → Code P V σ V}
    (h : m.Shows i c ri rc [i]) (hri : ri.control = .running (drive c vs k)) :
    ∃ m' rc', RunsTo code (restsUnlessAwaited i c) m m' ∧
      m'.Shows i c { ri with control := .running (k (pos.walk react vs)) } rc' [i] ∧
      Stands code react c rc' (pos.after react vs) := by
  induction vs generalizing pos k m ri rc with
  | nil =>
    refine ⟨m, rc, .refl m, ?_, hstands⟩
    have hsame : { ri with control := .running (k []) } = ri := by
      rw [← show ri.control = .running (k []) from hri]
    simpa [Position.walk, hsame] using h
  | cons v vs ih =>
    generalize hnext : (fun o => Code.ask (.status c) fun s =>
      drive c vs fun results => k ((o, s) :: results)) = next
    have hcontrol : ri.control = .running (.act (.resume c v) next) := by rw [hri, ← hnext]; rfl
    -- The resume is called,
    have hpush := h.pushFrame (.next next)
    have hco : (m.pushFrame i (.next next)).isCoroutine c = true := by
      rw [isCoroutine, hpush.body]
      simp [hmain, hstands.scope_eq]
    have hcall : m.stepOf code i = (m.pushFrame i (.next next)).resume i c (.plain v) := by
      rw [stepOf_running (by rw [h.resumer, hcontrol]), exec, begin, onCoroutine, if_pos hco]
    obtain ⟨m₁, rc₁, hruns₁, hshows₁, hstands₁⟩ := resume_next hstands hmain hpush v
    -- its outcome goes to the code that called it,
    have hback : m₁.stepOf code i = (m₁.update i fun r => { r with stack := ri.stack }).setControl i
        (.running (next (pos.next react v).1)) := by
      have hc : (m₁.routine i).control = .returning ((pos.next react v).1.map .plain) := by
        rw [hshows₁.resumer]
        rfl
      have hst : (m₁.routine i).stack = .next next :: ri.stack := by
        rw [hshows₁.resumer]
        rfl
      rw [stepOf_next hc hst, seen_map_plain]
    have hshows₂ := (hshows₁.updateResumer fun r => { r with stack := ri.stack }).setControl
      (.running (next (pos.next react v).1))
    rw [← hback] at hshows₂
    -- and that code looks at the status.
    have hlook : (m₁.stepOf code i).stepOf code i = (m₁.stepOf code i).setControl i (.running
        (drive c vs fun results =>
          k (((pos.next react v).1, (pos.next react v).2.status) :: results))) := by
      rw [stepOf_running (by rw [hshows₂.resumer]), ← hnext, exec]
      simp only [answer, status, hshows₂.body, hstands₁.status_eq]
    have hshows₃ := hshows₂.setControl (.running (drive c vs fun results =>
      k (((pos.next react v).1, (pos.next react v).2.status) :: results)))
    rw [← hlook] at hshows₃
    obtain ⟨m', rc', hruns, hshows, hstands'⟩ := ih hstands₁ hshows₃ rfl
    refine ⟨m', rc', ?_, hshows, hstands'⟩
    refine h.resumer_step (hcall ▸ hruns₁.trans ?_)
    exact hshows₁.resumer_step (hshows₂.resumer_step hruns)

/-- Whoever makes a coroutine and resumes it with one input after the other gets what a walk in the
tree of the body finds, and the coroutine is then where the walk has come to. -/
theorem runs_drive {config : Config} {p : P} {s : S} {vs : List V}
    {k : RoutineId → List (Outcome V V × Status) → Code P V σ V} (hready : m.ready = [i])
    (hi : (m.routine i).control = .running (.ask (.spawn config p) fun c => drive c vs (k c)))
    (hbody : Body.Follows code m.next react (.ofProcedure code m.next p) s) :
    ∃ n m', m.runUnder code (restsUnlessAwaited i m.next) n = some m' ∧ m'.ready = [i] ∧
      (m'.routine i).control =
        .running (k m.next ((Position.fresh s).walk react vs)) ∧
      Stands code react m.next (m'.routine m.next) ((Position.fresh s).after react vs) := by
  have hlt : i.val < m.routines.size := lt_of_ne_ended (by simp [hi])
  have hne : i ≠ m.next := by
    rintro rfl
    exact Nat.lt_irrefl _ hlt
  have hmain : m.next ≠ .main := fun heq => by
    have hval : m.routines.size = 0 := congrArg RoutineId.val heq
    omega
  set m₁ := (m.spawn config (.body p) none).2 with hm₁
  have hroutine : ∀ j, m₁.routine j =
      if j.val = m.routines.size then .new j config (.body p) none else m.routine j :=
    routine_spawn m config (.body p) none
  have hi₁ : m₁.routine i = m.routine i := by rw [hroutine, if_neg (Nat.ne_of_lt hlt)]
  have hspawn : m₁.Shows i m.next (m.routine i) (.new m.next config (.body p) none) [i] := by
    refine ⟨hne, ?_, ?_, hi₁, by rw [hroutine]; exact if_pos rfl, hready⟩
    · simp only [hm₁, spawn, Array.size_push]
      omega
    · simp [hm₁, spawn, next]
  have hstep : m.stepOf code i = m₁.setControl i (.running (drive m.next vs (k m.next))) := by
    rw [stepOf_running hi]
    rfl
  have hstands : Stands code react m.next (.new m.next config (.body p) none) (.fresh s) :=
    ⟨⟨rfl, rfl, rfl, rfl⟩, rfl, p, rfl, rfl, hbody⟩
  obtain ⟨m', rc', hruns, hshows, hstands'⟩ := runs_drive_of_stands hstands hmain vs
    (hspawn.setControl (.running (drive m.next vs (k m.next)))) rfl
  obtain ⟨n, hn⟩ : RunsTo code (restsUnlessAwaited i m.next) m m' := by
    refine .head (by simp [step, hready]) ?_ (hstep ▸ hruns)
    simpa [restsUnlessAwaited, hready] using .inl hne
  refine ⟨n, m', hn, hshows.ready, ?_, hshows.body ▸ hstands'⟩
  rw [hshows.resumer]

/-! A body that adds up what it gets. -/

/-- Hands out the sum of its inputs, and ends with it when the input is zero. -/
def addsUp (sum v : Nat) : Reaction Nat Nat :=
  if v = 0 then .ends (.value sum) else .yields (sum + v) (sum + v)

/-- Makes the body that adds up, and resumes it with some inputs. -/
def resumesAdder (vs : List Nat) : Code (Nat × RoutineId) Nat Unit Nat :=
  .ask (.spawn .standard (0, .main)) fun c => drive c vs fun results => .pure results.length

theorem runs_drive_resumesAdder :
    (Position.fresh 0).walk addsUp [3, 4, 0, 5] =
        [(.value 3, .suspending), (.value 7, .suspending), (.value 7, .done),
          (.failure (.cannotResume .done), .done)] ∧
      ∃ n m', (initial () (resumesAdder [3, 4, 0, 5])).runUnder (treeCode addsUp)
          (restsUnlessAwaited .main ⟨1⟩) n = some m' ∧ m'.ready = [.main] ∧
        (m'.routine .main).control = .running (.pure 4) ∧
        Stands (treeCode addsUp) addsUp ⟨1⟩ (m'.routine ⟨1⟩) (.ended .done) := by
  have hruns := runs_drive (m := initial () (resumesAdder [3, 4, 0, 5])) (i := .main)
    (k := fun _ results => .pure results.length) rfl rfl (follows_treeCode addsUp ⟨1⟩ .main 0)
  exact ⟨rfl, hruns⟩

end Machine

end OneShot
