import OneShot.Proofs.Disciplined
import OneShot.Proofs.Programs

/-!
# Structured exception handling

`Exc` are the programs in which the exception effect is the only effect: they return values and errors, go
on with a result, on which they may match, raise errors, and run bodies under arms. `Exc.eval` says what
such a program means: a raised error goes outward to the nearest block with an arm for it, and what is
inside of this block is abandoned. `Exc.code` is the program itself, which runs on one context.

`Exc.structured` says that programs do what they mean: the arms are called in the order that `Exc.eval` says,
each with the error that was raised, and the main line ends with the result. No code that was abandoned
ever goes on with a value.

A raise that no block encloses is refused: it comes back with the error `Failure.noResumePoint`. The code that
raised may go on, or return this error itself. So it is when an arm of an outermost block raises, and when
an outermost block has no arm for an error and raises it again, in which case the block returns this error.
-/

namespace OneShot

variable {P V σ α β : Type}

namespace Arms

/-- The arms with other actions. -/
def map (f : α → β) (h : Arms α) : Arms β := ⟨h.arms.map fun (m, a) => (m, f a), h.otherwise.map f⟩

theorem closest_map (f : α → β) (chain : List Cause) (arms : List (Matcher × α)) (best : Option (Nat × α)) :
    closest chain (best.map fun (d, a) => (d, f a)) (arms.map fun (m, a) => (m, f a)) =
      (closest chain best arms).map fun (d, a) => (d, f a) := by
  induction arms generalizing best with
  | nil => rfl
  | cons x arms ih =>
    obtain ⟨m, a⟩ := x
    have hbest : (best.map fun (d, a) => (d, f a)).map (·.1) = best.map (·.1) := by
      cases best <;> rfl
    simp only [List.map_cons, closest, hbest]
    split
    · next depth _ => exact ih (some (depth, a))
    · exact ih best

/-- The choice among arms does not depend on their actions. -/
theorem select_map (f : α → β) (h : Arms α) (c : Cause) : (h.map f).select c = (h.select c).map f := by
  have hclosest := closest_map f c.chain h.arms none
  simp only [Option.map_none] at hclosest
  simp only [select, map, hclosest]
  cases closest c.chain none h.arms <;> simp

end Arms

/-- A program in which the exception effect is the only effect. -/
inductive Exc (V : Type) where
  /-- Returns a value or an error. -/
  | done (r : Except Failure V)
  /-- Goes on with the result of a program, and may match on it. -/
  | seq (e : Exc V) (next : Except Failure V → Exc V)
  | raise (cause : Cause)
  /-- Runs a body under arms, which are numbered. -/
  | tryWith (arms : Arms Nat) (arm : Nat → Cause → Exc V) (body : Exc V)

namespace Exc

/-- Raises the error of a result, if it is one. -/
def check : Except Cause V → Exc V
  | .ok v => .done (.ok v)
  | .error cause => .raise cause

/-- The procedures of a program. -/
inductive Proc (V : Type) where
  | body (e : Exc V)
  | arm (f : Cause → Exc V)

/-! ## What a program means -/

/-- How a program is left. -/
inductive Exit (V : Type) where
  | returns (r : Except Failure V)
  | raises (cause : Cause)

/-- What a raise comes to: outside of all blocks it is refused. -/
def Exit.ofRaise (inside : Bool) (cause : Cause) : Exit V :=
  if inside then .raises cause else .returns (.error .noResumePoint)

/-- The arms that are called, in this order, and how the program is left. The program is inside of a block, or
outside of all blocks. -/
def eval : Exc V → Bool → List (Call (Proc V) V) × Exit V
  | .done r, _ => ([], .returns r)
  | .seq e next, inside =>
    match e.eval inside with
    | (calls, .returns r) => (calls ++ ((next r).eval inside).1, ((next r).eval inside).2)
    | (calls, .raises cause) => (calls, .raises cause)
  | .raise cause, inside => ([], .ofRaise inside cause)
  | .tryWith arms arm body, inside =>
    match body.eval true with
    | (calls, .returns r) => (calls, .returns r)
    | (calls, .raises cause) =>
      match arms.select cause with
      | some a =>
        -- The arm is outside of its own block.
        (calls ++ .arm (.arm (arm a)) cause :: ((arm a cause).eval inside).1, ((arm a cause).eval inside).2)
      | none => (calls, .ofRaise inside cause)

/-- Outside of all blocks a program has a result. -/
theorem exists_returns (e : Exc V) : ∃ r, (e.eval false).2 = .returns r := by
  induction e with
  | done r => exact ⟨r, rfl⟩
  | seq e next ihe ihnext =>
    obtain ⟨r, hr⟩ := ihe
    obtain ⟨r', hr'⟩ := ihnext r
    refine ⟨r', ?_⟩
    rw [eval, show e.eval false = ((e.eval false).1, .returns r) by rw [← hr]]
    exact hr'
  | raise cause => exact ⟨_, rfl⟩
  | tryWith arms arm body iharm _ =>
    rw [eval]
    split
    · exact ⟨_, rfl⟩
    · split
      · exact iharm _ _
      · exact ⟨_, rfl⟩

/-- The result of a program outside of all blocks. -/
def result (e : Exc V) : Except Failure V :=
  match (e.eval false).2 with
  | .returns r => r
  | .raises _ => .error .noResumePoint

theorem eval_eq (e : Exc V) : (e.eval false).2 = .returns e.result := by
  obtain ⟨r, hr⟩ := e.exists_returns
  rw [result, hr]

/-! ## How a program runs -/

/-- How code ends that has a result. -/
def outcome : Except Failure V → Outcome V V
  | .ok v => .value v
  | .error f => .failure f

/-- Code that goes on with a result. A panic is not one. -/
def goOn (k : Except Failure V → Code P V σ V) : Outcome V V → Code P V σ V
  | .value v => k (.ok v)
  | .failure f => k (.error f)
  | .panic p => .panic p

/-- Ends with the result. -/
def finish (r : Except Failure V) : Code P V σ V := .ofOutcome (outcome r)

/-- The program, followed by other code. -/
def code (ctx : Context) : Exc V → (Except Failure V → Code (Proc V) V σ V) → Code (Proc V) V σ V
  | .done r, k => k r
  | .seq e next, k => e.code ctx fun r => (next r).code ctx k
  | .raise cause, k => .act (.raise ctx cause) (goOn k)
  | .tryWith arms arm body, k =>
    .act (.tryWith ctx (arms.map fun a => .arm (arm a)) (.body body)) (goOn k)

/-- The code of bodies and arms. -/
def procedures (config : Config) : Proc V → Entry V → Code (Proc V) V σ V
  | .body e, _ => e.code (Machine.onlyContext config) finish
  | .arm f, .raised cause => (f cause).code (Machine.onlyContext config) finish
  -- Arms are entered with errors only.
  | .arm _, _ => .fail .detached

/-- The machine that runs the program on a context of its own. -/
def start (store : σ) (config : Config) (e : Exc V) : Machine (Proc V) V σ :=
  Machine.onOneContext store config fun ctx => e.code ctx finish

/-- Where a strand comes to that runs a program: it goes on with the result, or the error is offered to the
nearest block. -/
inductive Leaves (k : Except Failure V → Code P V σ V) (parts : List (Part P V σ)) :
    Exit V → Strand P V σ → Prop where
  | returns {r : Except Failure V} : Leaves k parts (.returns r) (.running (k r) parts)
  | raises {cause : Cause} {inside rest : List (Part P V σ)} {kept : Kept P V σ} {goal : Goal P V σ}
    (hinside : ∀ x ∈ inside, x.isScope = false)
    (hparts : parts = inside ++ .scope kept.ctx kept.clauses goal :: rest) :
    Leaves k parts (.raises cause) (.offering .exception (.raised cause) kept rest)

/-- The nearest block is further out than a part that is no block. -/
theorem Leaves.outward {k k' : Except Failure V → Code P V σ V} {p : Part P V σ}
    {parts : List (Part P V σ)} {cause : Cause} {q : Strand P V σ} (hp : p.isScope = false)
    (h : Leaves k (p :: parts) (.raises cause) q) : Leaves k' parts (.raises cause) q := by
  cases h with
  | @raises _ inside rest kept goal hinside hparts =>
    cases inside with
    | nil =>
      obtain ⟨rfl, -⟩ := List.cons.inj hparts
      cases hp
    | cons x inside =>
      obtain ⟨-, htail⟩ := List.cons.inj hparts
      exact .raises (List.forall_mem_cons.1 hinside).2 htail

/-- A block of the context is around the parts, or none. -/
inductive Within (ctx : Context) (around : Option ContextId) : List (Part P V σ) → Bool → Prop where
  | block {ps rest : List (Part P V σ)} {ctx' : Context} {clauses : List (Effect × Clause P)}
    {goal : Goal P V σ} (hps : ∀ x ∈ ps, x.isScope = false) (hctx : ctx'.id = ctx.id) :
    Within ctx around (ps ++ .scope ctx' clauses goal :: rest) true
  | nothing {parts : List (Part P V σ)} (h : Strand.nearest around parts ≠ some ctx.id) :
    Within ctx around parts false

/-- A part that is no block makes no difference. -/
theorem Within.inward {ctx : Context} {around : Option ContextId} {p : Part P V σ}
    {parts : List (Part P V σ)} {inside : Bool} (hp : p.isScope = false) (h : Within ctx around parts inside) :
    Within ctx around (p :: parts) inside := by
  cases h with
  | @block ps _ _ _ _ hps hctx =>
    have hall : ∀ x ∈ p :: ps, x.isScope = false := List.forall_mem_cons.2 ⟨hp, hps⟩
    exact .block hall hctx
  | nothing h =>
    have hone : ∀ x ∈ [p], x.isScope = false := List.forall_mem_cons.2 ⟨hp, by simp⟩
    have hsame : Strand.nearest around (p :: parts) = Strand.nearest around parts := Strand.nearest_append hone
    exact .nothing (hsame ▸ h)

section Comes

variable {procs : P → Entry V → Code P V σ V} {opened : ContextId → Prop} {around : Option ContextId}
  {G : Strand P V σ → Prop} {calls : List (Call P V)} {parts : List (Part P V σ)} {ctx : Context}
  {cause : Cause} {inside : Bool} {k : Except Failure V → Code P V σ V} {r : Except Failure V}

theorem comes_next (h : Strand.Comes procs opened around G (.running (k r) parts) calls) :
    Strand.Comes procs opened around G (.returning (outcome r) (.code (goOn k) :: parts)) calls := by
  cases r <;> exact .next h

/-- The result of an arm is that of its block. -/
theorem comes_back {place : ContId} {kept : Option (Kept P V σ)}
    (h : Strand.Comes procs opened around G (.running (k r) parts) calls) :
    Strand.Comes procs opened around G
      (.running (finish r) (.owning place kept :: .code (goOn k) :: parts)) calls :=
  .ends (.leaves (comes_next h))

/-- The result of a body is that of its block. -/
theorem comes_out {clauses : List (Effect × Clause P)}
    (h : Strand.Comes procs opened around G (.running (k r) parts) calls) :
    Strand.Comes procs opened around G
      (.running (finish r) (.scope ctx clauses .passOn :: .code (goOn k) :: parts)) calls := by
  apply Strand.Comes.ends
  cases r with
  | ok v => exact .passesOn (comes_next h)
  | error f => exact .passes rfl (comes_next h)

/-- An error is offered to the nearest block, or the raise is refused. -/
theorem comes_raise (h : Within ctx around parts inside) :
    Strand.Comes procs opened around (Leaves k parts (.ofRaise inside cause))
      (.running (.act (.raise ctx cause) (goOn k)) parts) [] := by
  cases h with
  | block hps hctx => exact .performs rfl hps hctx (.here (.raises hps rfl))
  | nothing h => exact .performsAlone rfl h (.next (.here .returns))

/-- A block that has no arm for an error raises it again outside of itself. -/
theorem comes_raiseAgain {place : ContId} {kept : Kept P V σ} (hkept : kept.ctx = ctx)
    (h : Within ctx around parts inside) :
    Strand.Comes procs opened around (Leaves k parts (.ofRaise inside cause))
      (.running (.perform (.raise kept.ctx cause)) (.owning place (some kept) :: .code (goOn k) :: parts))
      [] := by
  rw [hkept]
  cases h with
  | @block ps _ _ _ _ hps hctx =>
    have hall : ∀ x ∈ .owning place (some kept) :: .code (goOn k) :: ps, x.isScope = false :=
      List.forall_mem_cons.2 ⟨rfl, List.forall_mem_cons.2 ⟨rfl, hps⟩⟩
    exact .performs rfl hall hctx (.here (.raises hps rfl))
  | nothing hnone =>
    -- The refusal is the result of the function that raised again, and so of the block.
    exact .performsAlone rfl hnone (.next (comes_back (r := .error .noResumePoint) (.here .returns)))

/-- The nearest block around its body is the block itself. -/
theorem Leaves.raised {clauses : List (Effect × Clause P)} {goal : Goal P V σ}
    {k' : Except Failure V → Code P V σ V} {q : Strand P V σ}
    (h : Leaves k' (.scope ctx clauses goal :: parts) (.raises cause) q) :
    ∃ kept, kept.ctx = ctx ∧ kept.clauses = clauses ∧ q = .offering .exception (.raised cause) kept parts := by
  have hnone : ∀ x ∈ ([] : List (Part P V σ)), x.isScope = false := by simp
  obtain _ | @⟨_, ps, rest, kept, goal', hps, hparts⟩ := h
  obtain ⟨-, hctx, hclauses, -, rfl⟩ := Strand.split_unique hnone hps hparts
  exact ⟨kept, hctx.symm, hclauses.symm, rfl⟩

/-- An arm runs outside of its block, and its result is that of the block. -/
theorem comes_arm {c : Code P V σ V} {exit : Exit V} {place : ContId} {kept : Option (Kept P V σ)}
    (h : Strand.Comes procs opened around (Leaves finish (.owning place kept :: .code (goOn k) :: parts) exit)
      (.running c (.owning place kept :: .code (goOn k) :: parts)) calls) :
    Strand.Comes procs opened around (Leaves k parts exit)
      (.running c (.owning place kept :: .code (goOn k) :: parts)) calls := by
  rw [← List.append_nil calls]
  refine h.bind fun q hq => ?_
  cases exit with
  | returns r =>
    obtain ⟨⟩ := hq
    exact comes_back (.here .returns)
  | raises cause =>
    have hcode : Leaves finish (.code (goOn k) :: parts) (.raises cause) q := hq.outward rfl
    exact .here (hcode.outward rfl)

end Comes

/-- Whatever follows a program and is around it, the program calls its arms and comes to where it is left, as
it means. -/
theorem comes_code {config : Config} (e : Exc V) (k : Except Failure V → Code (Proc V) V σ V)
    (parts : List (Part (Proc V) V σ)) (inside : Bool)
    (hwithin : Within (Machine.onlyContext config) none parts inside) :
    Strand.Comes (procedures config) (· = ⟨0⟩) none (Leaves k parts (e.eval inside).2)
      (.running (e.code (Machine.onlyContext config) k) parts) (e.eval inside).1 := by
  induction e generalizing k parts inside with
  | done r => exact .here .returns
  | seq e next ihe ihnext =>
    have he := ihe (fun r => (next r).code (Machine.onlyContext config) k) parts inside hwithin
    rw [eval]
    generalize e.eval inside = exit at he
    obtain ⟨calls, r | cause⟩ := exit
    · refine he.bind fun q hq => ?_
      obtain ⟨⟩ := hq
      exact ihnext r k parts inside hwithin
    · -- What follows the program does not matter when an error leaves it.
      refine he.mono fun q hq => ?_
      obtain ⟨⟩ | ⟨hps, hparts⟩ := hq
      exact .raises hps hparts
  | raise cause => exact comes_raise hwithin
  | tryWith arms arm body iharm ihbody =>
    let scope : Scope (Proc V) := .ofArms (Machine.onlyContext config) (arms.map fun a => .arm (arm a))
    -- The body runs inside of its block, whatever is around the block.
    have hblock : Within (σ := σ) (Machine.onlyContext config) none
        ([] ++ .scope scope.ctx scope.clauses .passOn :: .code (goOn k) :: parts) true :=
      .block (by simp) rfl
    have hbody := ihbody finish (.scope scope.ctx scope.clauses .passOn :: .code (goOn k) :: parts) true hblock
    have hopens : (Act.tryWith (V := V) scope.ctx (arms.map fun a => Proc.arm (arm a)) (.body body)).opens? =
      some (scope, .body body) := rfl
    refine .opens hopens rfl ?_
    rw [eval]
    generalize body.eval true = exit at hbody
    obtain ⟨calls, r | cause⟩ := exit
    · rw [← List.append_nil calls]
      refine hbody.bind fun q hq => ?_
      obtain ⟨⟩ := hq
      exact comes_out (.here .returns)
    · have hselect := Arms.select_map (fun a => Proc.arm (arm a)) arms cause
      dsimp only
      cases hsel : arms.select cause with
      | some a =>
        rw [hsel] at hselect
        refine hbody.bind fun q hq => ?_
        obtain ⟨kept, -, hclauses, rfl⟩ := Leaves.raised hq
        refine .arm (by rw [hclauses]; rfl) hselect fun place => comes_arm ?_
        exact iharm a cause finish _ inside ((hwithin.inward rfl).inward rfl)
      | none =>
        rw [hsel] at hselect
        rw [← List.append_nil calls]
        refine hbody.bind fun q hq => ?_
        obtain ⟨kept, hctx, hclauses, rfl⟩ := Leaves.raised hq
        exact .raisesAgain (by rw [hclauses]; rfl) hselect fun place => comes_raiseAgain hctx hwithin

/-! ## Programs run as they mean -/

/-- A program names no continuations. -/
theorem uses_code (ctx : Context) (e : Exc V) {K : ContId → Prop}
    {k : Except Failure V → Code (Proc V) V σ V} (hk : ∀ r, (k r).Uses K) : (e.code ctx k).Uses K := by
  have hgoOn : ∀ o, (goOn k o).Uses K := by
    intro o
    cases o with
    | value v => exact hk _
    | failure f => exact hk _
    | panic p => trivial
  induction e generalizing k with
  | done r => exact hk r
  | seq e next ihe ihnext =>
    have hrest : ∀ r, ((next r).code ctx k).Uses K := fun r => ihnext r hk hgoOn
    refine ihe hrest fun o => ?_
    cases o with
    | value v => exact hrest _
    | failure f => exact hrest _
    | panic p => trivial
  | raise cause => exact ⟨by rintro _ ⟨⟩, by rintro _ ⟨⟩, hgoOn⟩
  | tryWith arms arm body iharm ihbody => exact ⟨by rintro _ ⟨⟩, by rintro _ ⟨⟩, hgoOn⟩

theorem uses_finish (K : ContId → Prop) (r : Except Failure V) : (finish r : Code P V σ V).Uses K :=
  Code.uses_ofOutcome K _

section Runs

open Machine

variable (store : σ) (config : Config) (e : Exc V)

theorem uses_procedures {A : Prop} (p : Proc V) (entry : Entry V) :
    (procedures config p entry : Code (Proc V) V σ V).Uses fun k => A ∧ entry.cont? = some k := by
  unfold procedures
  split
  · exact uses_code _ _ (uses_finish _)
  · exact uses_code _ _ (uses_finish _)
  · trivial

/-- A program resumes nothing. -/
theorem disciplined {m : Machine (Proc V) V σ}
    (hr : Reaches (procedures config) (e.start store config) m) : m.Disciplined False :=
  hr.disciplined (uses_procedures config) ⟨by rintro _ ⟨⟩, fun _ => uses_code _ _ (uses_finish _)⟩

theorem onCourse : OnCourse (procedures config) (· = ⟨0⟩) none .main []
    (contextOpen store config fun ctx => e.code ctx finish) .main
    (.running (e.code (onlyContext config) finish) []) :=
  onCourse_contextOpen fun _ hr => (disciplined store config e hr).usesOwn (hr.sound)

/-- What a program comes to that no block encloses. -/
theorem comes : Strand.Comes (σ := σ) (procedures config) (· = ⟨0⟩) none
    (Strand.Ends (· = outcome e.result)) (.running (e.code (onlyContext config) finish) [])
    (e.eval false).1 := by
  have hnone : Within (σ := σ) (onlyContext config) none ([] : List (Part (Proc V) V σ)) false :=
    .nothing (by rintro ⟨⟩)
  have h := comes_code e finish [] false hnone
  rw [eval_eq] at h
  rw [← List.append_nil (e.eval false).1]
  refine h.bind fun q hq => ?_
  obtain ⟨⟩ := hq
  exact .ends (.here ⟨_, rfl, rfl⟩)

/-- In every run of a program the main line calls arms in the order that the program means, each with the error
that was raised, and it ends with the result, after all of these calls. It ends in every fair run. Whoever
raises an error, or raises it again, never goes on with a value. -/
theorem structured :
    (∀ calls m, Calls (procedures config) .main (e.start store config) calls m →
      calls <+: (e.eval false).1 ∧
        ((m.routine .main).control = .ended → calls = (e.eval false).1 ∧ m.Ended (outcome e.result))) ∧
      (∀ g, IsFairRun (procedures config) g → g 0 = e.start store config →
        ∃ n, (g n).Ended (outcome e.result)) ∧
      ∀ m, Reaches (procedures config) (e.start store config) m → ∀ j st o,
        (m.routine j).stack = .performing :: st → (m.routine j).control = .returning o →
          ∀ v, o ≠ .value v := by
  refine ⟨fun calls m hrun => ?_, fun g hfair h0 => ?_, fun m hr j st o hst hc v => ?_⟩
  · rcases hrun.of_onOneContext rfl with ⟨rfl, rfl⟩ | hrun
    · refine ⟨List.nil_prefix, fun hended => ?_⟩
      cases hended
    · obtain ⟨hcalls, hend⟩ := (onCourse store config e).main (comes config e) hrun
      refine ⟨hcalls, fun hended => ?_⟩
      obtain ⟨heq, o, rfl, ho⟩ := hend hended
      exact ⟨heq, ho⟩
  · obtain ⟨n, hn⟩ := exists_contextOpen hfair h0
    obtain ⟨k, o, -, rfl, ho⟩ := (onCourse store config e).main_fair (comes config e) hfair hn
    exact ⟨k, ho⟩
  · rintro rfl
    have hposture := hr.sound.linked.posture j (by simp)
    simp only [Routine.Posture, hc, hst, Fits] at hposture
    -- The value would be an answer, and nobody gives one.
    obtain ⟨b, heq, -⟩ | ⟨f, heq⟩ | ⟨p, heq⟩ := hposture.1.cases
    · rw [heq] at hc
      exact (disciplined store config e hr).not_answered j b hc
    · cases heq
    · cases heq

end Runs

/-! ## Errors that no block takes -/

/-- The result of a program if no raise ever came back: an error that no block takes would be refused, whatever
its raiser does. -/
def ordinary (e : Exc V) : Except Failure V :=
  match (e.eval true).2 with
  | .returns r => r
  | .raises _ => .error .noResumePoint

section Examples

open Machine

/-- An error that an inner block has no arm for. The outer block returns 7. -/
def passed : Exc Nat :=
  .tryWith ⟨[(.kind ⟨"A"⟩, 0)], none⟩ (fun _ _ => .done (.ok 7))
    (.tryWith ⟨[(.kind ⟨"B"⟩, 0)], none⟩ (fun _ _ => .done (.ok 1)) (.raise (.plain ⟨"A"⟩ "a")))

/-- An arm of an outermost block raises an error itself, and goes on when this is refused. -/
def refused : Exc Nat :=
  .tryWith ⟨[(.kind ⟨"A"⟩, 0)], none⟩
    (fun _ _ => .seq (.raise (.plain ⟨"B"⟩ "b")) fun _ => .done (.ok 5)) (.raise (.plain ⟨"A"⟩ "a"))

/-- The arm of the outer block is called with the error, and gives the result. -/
theorem structured_passed :
    ∃ calls m, Calls (procedures .standard) .main (passed.start () .standard) calls m ∧
      calls = [.arm (.arm fun _ => .done (.ok 7)) (.plain ⟨"A"⟩ "a")] ∧ m.Ended (.value 7) := by
  obtain ⟨hcalls, hends, -⟩ := structured () .standard passed
  obtain ⟨g, h0, hfair⟩ := exists_isFairRun (procedures .standard) (passed.start () .standard)
  obtain ⟨n, hn⟩ := hends g hfair h0
  obtain ⟨calls, hrun⟩ := (hfair.reaches (Nat.zero_le n)).exists_calls .main
  rw [h0] at hrun
  exact ⟨calls, g n, hrun, ((hcalls calls (g n) hrun).2 hn.control).1, hn⟩

/-- A raise in an arm of an outermost block comes back to the arm, which decides the result. -/
theorem exists_raise_refused :
    refused.ordinary = .error .noResumePoint ∧
      ∃ m, Reaches (procedures .standard) (refused.start () .standard) m ∧ m.Ended (.value 5) :=
  ⟨rfl, _, reaches_run _ 40, ⟨rfl, rfl⟩⟩

end Examples

end Exc

end OneShot
