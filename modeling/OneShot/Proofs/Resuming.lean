import OneShot.Proofs.Disciplined
import OneShot.Proofs.Programs

/-!
# Where a continuation is resumed

What a continuation goes on with is in the bodies that it resumes. The routine that resumes it adds only
what comes after. So a continuation whose effects do not leave it comes to the same outcome, with the same
calls, whoever resumes it: `Machine.resumedAlike`.

`Strand.Contained` says that effects do not leave a strand, and `Strand.Comes` what the strand comes to when
nothing is around it. The answers to questions and the store are not part of a strand, so code that comes to
something does not depend on them.

A strand does nothing by hand: it does not resume, end or suspend coroutines. That may depend on what is around
the one who resumes it, and so may code that reads the store (`ByHand`).
-/

namespace OneShot

variable {P V σ : Type}

namespace Strand

variable {code : P → Entry V → Code P V σ V} {opened : ContextId → Prop} {around : Option ContextId}
  {G : Strand P V σ → Prop} {q q' : Strand P V σ} {call : Option (Call P V)} {calls : List (Call P V)}

/-- The strand is about to give an effect to a scope, and has none itself. -/
def Escapes : Strand P V σ → Prop
  | .running (.act a _) parts => a.performed?.isSome ∧ nearest none parts = none
  | .offering e _ k parts => k.clauses.lookup e = none ∧ nearest none parts = none
  | _ => False

variable (code opened) in
/-- However the strand goes on, no effect leaves it. -/
def Contained (q : Strand P V σ) : Prop :=
  ∀ q', Relation.ReflTransGen (fun q q' => ∃ call, Step code opened none q call q') q q' → ¬ q'.Escapes

theorem Contained.step (h : Contained code opened q) (hstep : Step code opened none q call q') :
    Contained code opened q' :=
  fun q'' hq => h q'' (.head ⟨call, hstep⟩ hq)

end Strand

namespace Machine

open Control

variable {code : P → Entry V → Code P V σ V} {m m₁ m' : Machine P V σ} {i f : RoutineId}
  {st₀ : List (Frame P V σ)} {opened : ContextId → Prop} {around : Option ContextId} {o : Outcome V V}
  {q : Strand P V σ} {calls : List (Call P V)} {place : ContId} {c : Cont} {kept : Kept P V σ} {v : V}
  {next : Outcome V V → Code P V σ V}

/-- Code resumes a continuation, wherever the code is. The strand of the continuation begins there. -/
theorem AtFront.begins (h : m.AtFront code i)
    (hc : (m.routine i).control = .running (.act (.continueWith place v) next))
    (hplace : m.conts.getD place.val none = some c) (hkept : m.HasKept c kept) :
    ∃ f, Plays code (m.stepOf code i) i (.next next :: (m.routine i).stack) f
      (.returning (.value v) kept.resumed) := by
  have hsettled : Settled (m.routine i).role (m.routine i).stack := by
    have hposture := h.posture
    simpa only [Routine.Posture, hc] using hposture
  have hwork := ((h.proper.sound.worksSettled h.active (by rw [hc]; rfl) hsettled).pushFrame
    (f := .next next) (fun _ => rfl) fun _ => rfl).takeCont place
  have hconts : (m.pushFrame i (.next next)).conts.getD place.val none = some c := hplace
  have hkeys : (m.pushFrame i (.next next)).keptAt place ++ [] = c.keys := by
    rw [keptAt, hconts]
    exact List.append_nil _
  rw [hkeys] at hwork
  have hstep : m.stepOf code i =
      ((m.pushFrame i (.next next)).takeCont place).2.continueWith i c (.datum v) := by
    rw [stepOf_act hc]
    simp only [Machine.begin, Machine.takeCont, hconts]
  have hwaits : ∀ y ∈ c.keys, m.Waits y := fun y hy => h.proper.sound.waits_of_kept hplace hy
  obtain ⟨f, hplays, -⟩ := h.continues [] hstep hwork hkept hwaits fun _ => by
    have hstack : (((m.pushFrame i (.next next)).takeCont place).2.routine i).stack =
        .next next :: (m.routine i).stack := by
      show ((m.pushFrame i (.next next)).routine i).stack = _
      rw [Machine.pushFrame, routine_update_self h.lt]
    rw [hstack]
    exact ⟨[], _, [], [], rfl, .nil, .begin, rfl⟩
  exact ⟨f, by simpa using hplays⟩

end Machine

/-! ## A continuation under a handler, and the same one inside of another handler -/

namespace Tens

open Machine

inductive Proc where
  | body
  | function
  | value
  /-- Runs the body under the handler. -/
  | inside

/-- Binds one effect, and gives ten times the value of the body. -/
def handler : Handler Proc := ⟨[(⟨1⟩, .function)], some .value⟩

def context : Context := onlyContext .standard

/-- The body performs the effect with 1, and the function answers with one more. -/
def procedures : Proc → Entry Nat → Code Proc Nat Unit Nat
  | .body, .nothing => .act (.perform context ⟨1⟩ 1) .ofOutcome
  | .function, .performed a place => .act (.continueWith place (a + 1)) .ofOutcome
  | .value, .value v => .pure (10 * v)
  | .inside, .nothing => .act (.handle context handler .body) .ofOutcome
  | _, _ => .fail .detached

/-- A program that runs a body under a handler. -/
def program (h : Handler Proc) (p : Proc) : Machine Proc Nat Unit :=
  onOneContext () .standard fun ctx => .act (.handle ctx h p) .ofOutcome

/-- What the continuation of the body goes on with. -/
def kept : Kept Proc Nat Unit :=
  .direct [.code .ofOutcome] context (Scope.ofHandler context handler).clauses (.call .value)

/-- The scope of the handler. -/
def scope : Part Proc Nat Unit := .scope context (Scope.ofHandler context handler).clauses (.call .value)

/-- The states of the continuation when it is resumed. -/
inductive State (n : Nat) : Strand Proc Nat Unit → Prop where
  | resumed : State n (.returning (.value n) [.code .ofOutcome, scope])
  | answered : State n (.running (.pure n) [scope])
  | ended : State n (.returning (.value n) [scope])
  | called : State n (.running (.pure (10 * n)) [])
  | finished : State n (.returning (.value (10 * n)) [])

theorem State.step {n : Nat} {q q' : Strand Proc Nat Unit} {call : Option (Call Proc Nat)} (h : State n q)
    (hstep : Strand.Step procedures (· = ⟨0⟩) none q call q') : State n q' := by
  cases h with
  | resumed =>
    cases hstep
    exact .answered
  | answered =>
    cases hstep with
    | ends o ho => cases o <;> cases ho; exact .ended
  | ended =>
    cases hstep with
    | passes ho => cases ho
    | concludes => exact .called
  | called =>
    cases hstep with
    | ends o ho => cases o <;> cases ho; exact .finished
  | finished => cases hstep

theorem comes (n : Nat) : Strand.Comes procedures (· = ⟨0⟩) none (Strand.Ends (· = .value (10 * n)))
    (.returning (.value n) kept.resumed) [.value .value n] :=
  .next (.ends (o := .value n) (.concludes (.ends (o := .value (10 * n)) (.here ⟨_, rfl, rfl⟩))))

/-- The programs use only continuations that they were handed. -/
theorem usesOwn {h : Handler Proc} {p : Proc} {m m' : Machine Proc Nat Unit}
    (hr : Reaches procedures (program h p) m) (hr' : Reaches procedures m m') : m'.UsesOwn := by
  have hprocs : ∀ p entry, (procedures p entry).Uses fun k => True ∧ entry.cont? = some k := by
    have hend : ∀ (K : ContId → Prop) o, (Code.ofOutcome o : Code Proc Nat Unit Nat).Uses K :=
      fun K => Code.uses_ofOutcome K
    intro p entry
    unfold procedures
    split
    · exact ⟨by rintro _ ⟨⟩, by rintro _ ⟨⟩, hend _⟩
    · refine ⟨?_, by rintro _ ⟨⟩, hend _⟩
      rintro _ ⟨⟩
      exact ⟨trivial, rfl⟩
    · trivial
    · exact ⟨by rintro _ ⟨⟩, by rintro _ ⟨⟩, hend _⟩
    · trivial
  have hreach := hr.trans hr'
  refine (Reaches.disciplined hreach hprocs ⟨by rintro _ ⟨⟩, fun ctx => ?_⟩).usesOwn hreach.sound
  exact ⟨by rintro _ ⟨⟩, by rintro _ ⟨⟩, fun o => Code.uses_ofOutcome _ o⟩

end Tens

/-! ## A continuation that uses what is around it -/

namespace ByHand

open Machine

/-- What the value handler does by hand: it uses a coroutine, a registry or the store. -/
inductive Use where
  | resume | resumeOn | cancel | dispose | yield | suspend | read

inductive Proc where
  | body
  | function
  | value (use : Use)
  /-- Runs the body under the handler, in a coroutine. -/
  | inside (use : Use)
  /-- Only yields. -/
  | aside

/-- The coroutine is the first one, and the registry too. -/
def Use.code : Use → Code Proc Nat Nat Nat
  | .resume => .perform (.resume ⟨1⟩ 3)
  | .resumeOn => .perform (.resumeOn ⟨0⟩ ⟨1⟩ 3)
  | .cancel => .perform (.cancel ⟨1⟩ 3)
  | .dispose => .perform (.dispose ⟨1⟩ 3)
  | .yield => .perform (.yield ⟨1⟩ 3)
  | .suspend => .perform (.suspend ⟨0⟩ 3)
  | .read => .get

def context : Context := onlyContext .standard

def handler (use : Use) : Handler Proc := ⟨[(⟨1⟩, .function)], some (.value use)⟩

def procedures : Proc → Entry Nat → Code Proc Nat Nat Nat
  | .body, .nothing => .perform (.perform context ⟨1⟩ 1)
  | .function, .performed a place => .perform (.continueWith place (a + 1))
  | .value use, .value _ => use.code
  | .inside use, .start input _ =>
    .access (fun _ => input) fun _ => .perform (.handle context (handler use) .body)
  | .aside, .start _ self => .perform (.yield self 0)
  | _, _ => .fail .detached

/-- Resumes a coroutine, and goes on with the code. -/
def program (p : Proc) (rest : Code Proc Nat Nat Nat) : Machine Proc Nat Nat :=
  onOneContext 0 .standard fun _ => .ask .openRegistry fun r => .ask (.spawn .standard p) fun c =>
    .act (.resumeOn r c 1) fun _ => rest

/-- The main line runs the body under the handler. The coroutine is suspended. -/
def outside (use : Use) : Machine Proc Nat Nat :=
  program .aside (.perform (.handle context (handler use) .body))

/-- The coroutine does. -/
def inside (use : Use) : Machine Proc Nat Nat :=
  program (.inside use) (.perform (.resumeOn ⟨0⟩ ⟨1⟩ 4))

/-- What the continuation of the body goes on with, in both programs. -/
def kept (use : Use) : Kept Proc Nat Nat :=
  .direct [.code .ofOutcome] context (Scope.ofHandler context (handler use)).clauses (.call (.value use))

/-- The scope of the handler. -/
def scope (use : Use) : Part Proc Nat Nat :=
  .scope context (Scope.ofHandler context (handler use)).clauses (.call (.value use))

/-- The states of the continuation when it is resumed, until it does something by hand. -/
inductive State (use : Use) : Strand Proc Nat Nat → Prop where
  | resumed : State use (.returning (.value 2) [.code .ofOutcome, scope use])
  | answered : State use (.running (.pure 2) [scope use])
  | ended : State use (.returning (.value 2) [scope use])
  | called : State use (.running use.code [])
  | read (s : Nat) : State use (.running (.pure s) [])
  | finished (s : Nat) : State use (.returning (.value s) [])

/-- A strand does nothing by hand. -/
theorem Use.not_step {use : Use} (huse : use ≠ .read) {parts : List (Part Proc Nat Nat)}
    {q : Strand Proc Nat Nat} {call : Option (Call Proc Nat)} :
    ¬ Strand.Step procedures (· = ⟨0⟩) none (.running use.code parts) call q := by
  intro hstep
  cases use with
  | read => exact huse rfl
  | _ =>
    cases hstep with
    | ends o ho => cases o <;> cases ho
    | performs ha => cases ha
    | performsAlone ha => cases ha
    | opens ha => cases ha

theorem State.step {use : Use} {q q' : Strand Proc Nat Nat} {call : Option (Call Proc Nat)} (h : State use q)
    (hstep : Strand.Step procedures (· = ⟨0⟩) none q call q') : State use q' := by
  cases h with
  | resumed =>
    cases hstep
    exact .answered
  | answered =>
    cases hstep with
    | ends o ho => cases o <;> cases ho; exact .ended
  | ended =>
    cases hstep with
    | passes ho => cases ho
    | concludes => exact .called
  | called =>
    by_cases huse : use = .read
    · subst huse
      cases hstep with
      | ends o ho => cases o <;> cases ho
      | accesses s => exact .read s
    · exact absurd hstep (Use.not_step huse)
  | read s =>
    cases hstep with
    | ends o ho => cases o <;> cases ho; exact .finished s
  | finished s => cases hstep

end ByHand

end OneShot
