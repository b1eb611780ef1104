import OneShot.Proofs.Meanings

/-!
# One-shot deep handlers

`Deep` is the code of bodies, handler functions and value handlers that return values, fail, perform effects,
run bodies under handlers, and call each other. The code of a handler function may also resume its
continuation, once. All failures are propagated. `Deep.meaning` says what such code means, in terms of deep
handlers (`Meaning.handle`), and `Deep.code` is the code itself, which runs on one context.

Procedures may call themselves, so a program need not end, and its meaning is a limit: `Program.upTo` follows
procedures to a given depth. A program that ends has its result at some depth (`Program.Means`).
-/

namespace OneShot

variable {P V σ : Type}

/-- Code with effects. The flag says whether it is that of a handler function that has not resumed its
continuation. -/
inductive Deep (P V : Type) : Bool → Type where
  | value {owns : Bool} (v : V) : Deep P V owns
  | fail {owns : Bool} (f : Failure) : Deep P V owns
  /-- Performs an effect, and goes on with the answer. -/
  | perform {owns : Bool} (e : EffectId) (argument : V) (next : V → Deep P V owns) : Deep P V owns
  /-- Runs a body under a handler, and goes on with the result. -/
  | handle {owns : Bool} (h : Handler P) (body : P) (next : V → Deep P V owns) : Deep P V owns
  /-- Calls a procedure, and goes on with the result. -/
  | call {owns : Bool} (p : P) (next : V → Deep P V owns) : Deep P V owns
  /-- Resumes the continuation, and goes on with what the handled body comes to. -/
  | resume (answer : V) (next : V → Deep P V false) : Deep P V true

namespace Deep

/-- The procedures of a program: as bodies, as handler functions with the argument of an effect, and as value
handlers. -/
structure Program (P V : Type) where
  body : P → Deep P V false
  function : P → V → Deep P V true
  value : P → V → Deep P V false

/-! ## What a program means -/

/-- What procedures mean. A handler function is given a continuation. -/
structure Meanings (P V : Type) where
  body : P → Meaning P V
  function : P → V → (V → Meaning P V) → Meaning P V
  value : P → V → Meaning P V

namespace Meanings

variable (M : Meanings P V) (h : Handler P)

/-- The functions of the effects that a handler binds. -/
def functions (e : EffectId) : Option (V → (V → Meaning P V) → Meaning P V) :=
  (h.functions.lookup e).map fun p a k => .calls (.function p a) (M.function p a k)

/-- What a handler does with a value. -/
def finish (v : V) : Meaning P V :=
  match h.value with
  | some p => .calls (.value p v) (M.value p v)
  | none => .done (.ok v)

end Meanings

/-- What code means when it has a continuation. -/
def meaning (M : Meanings P V) : {owns : Bool} → Deep P V owns → (V → Meaning P V) → Meaning P V
  | _, .value v, _ => .done (.ok v)
  | _, .fail f, _ => .done (.error f)
  | _, .perform e a next, k => .performs e a false fun v => (next v).meaning M k
  | _, .handle h body next, k =>
    ((M.body body).handle (M.functions h) (M.finish h)).bind fun v => (next v).meaning M k
  | _, .call p next, k => (M.body p).bind fun v => (next v).meaning M k
  | _, .resume v next, k => (k v).bind fun v => (next v).meaning M fun _ => .unknown

namespace Program

variable (pr : Program P V)

/-- What procedures mean when calls are followed to a given depth. -/
def upTo : Nat → Meanings P V
  | 0 => ⟨fun _ => .unknown, fun _ _ _ => .unknown, fun _ _ => .unknown⟩
  | n + 1 =>
    { body p := (pr.body p).meaning (upTo n) fun _ => .unknown
      function p a k := (pr.function p a).meaning (upTo n) k
      value p v := (pr.value p v).meaning (upTo n) fun _ => .unknown }

/-- The program ends: it calls these procedures, and has this result. -/
def Means (d : Deep P V false) (calls : List (Call P V)) (r : Except Failure V) : Prop :=
  ∃ n, (d.meaning (pr.upTo n) fun _ => .unknown).result = some (calls, r)

end Program

/-! ## How a program runs -/

/-- Code that goes on with a value. Failures and panics are propagated. -/
def propagate (k : V → Code P V σ V) : Outcome V V → Code P V σ V
  | .value v => k v
  | .failure f => .fail f
  | .panic p => .panic p

/-- The code on a context. A handler function is given the place of its continuation. -/
def code (ctx : Context) (place : ContId) : {owns : Bool} → Deep P V owns → Code P V σ V
  | _, .value v => .pure v
  | _, .fail f => .fail f
  | _, .perform e a next => .act (.perform ctx e a) (propagate fun v => (next v).code ctx place)
  | _, .handle h body next => .act (.handle ctx h body) (propagate fun v => (next v).code ctx place)
  | _, .call p next => .act (.call p .nothing) (propagate fun v => (next v).code ctx place)
  | _, .resume v next => .act (.continueWith place v) (propagate fun v => (next v).code ctx place)

/-- The code of procedures. Code without a continuation does not use the place that it is given. -/
def Program.procedures (pr : Program P V) (ctx : Context) : P → Entry V → Code P V σ V
  | p, .nothing => (pr.body p).code ctx ⟨0⟩
  | p, .performed a place => (pr.function p a).code ctx place
  | p, .value v => (pr.value p v).code ctx ⟨0⟩
  -- Procedures are not entered in other ways.
  | _, _ => .fail .detached

section Strands

open Strand
open Exc (outcome)
open Meaning (after)

variable {procs : P → Entry V → Code P V σ V} {opened : ContextId → Prop} {around : Option ContextId}
  {ctx : Context} {M : Meanings P V} {k : V → Meaning P V} {parts : List (Part P V σ)} {place : ContId}
  {owns : Bool}

variable (procs opened around ctx M) in
/-- Procedures do as they mean. -/
structure Faithful : Prop where
  body : ∀ p, Behaves procs opened around ctx (M.body p) (.running (procs p .nothing))
  function : ∀ p a k (kept : Kept P V σ),
    (∀ v, Behaves procs opened around ctx (k v) fun rest => .returning (.value v) (kept.resumed ++ rest)) →
      ∀ place, Behaves procs opened around ctx (M.function p a k)
        fun rest => .running (procs p (.performed a place)) (.owning place (some kept) :: rest)
  value : ∀ p v, Behaves procs opened around ctx (M.value p v) (.running (procs p (.value v)))

variable (procs opened around ctx k place) in
/-- What stands below code: a handler function owns a continuation that does as it means. -/
inductive Below : Bool → List (Part P V σ) → Prop where
  | nothing : Below false []
  | owning (kept : Kept P V σ) (hkept : ∀ v, Behaves procs opened around ctx (k v)
      fun rest => .returning (.value v) (kept.resumed ++ rest)) : Below true [.owning place (some kept)]

theorem Below.not_scope (h : Below procs opened around ctx k place owns parts) :
    ∀ x ∈ parts, x.isScope = false := by
  cases h with
  | nothing => simp
  | owning kept _ => simp [Part.isScope]

theorem Below.leaves (h : Below procs opened around ctx k place owns parts) (o : Outcome V V)
    (rest : List (Part P V σ)) :
    Leads procs opened around (.returning o (parts ++ rest)) (.returning o rest) := by
  cases h with
  | nothing => exact .refl _
  | owning kept _ => exact fun G calls hcomes => .leaves hcomes

/-- Code that goes on with the result of other code does as it means. -/
theorem behaves_next {next : V → Code P V σ V} {F : V → Meaning P V}
    (hparts : ∀ o rest, Leads procs opened around (.returning o (parts ++ rest)) (.returning o rest))
    (hnext : ∀ v, Behaves procs opened around ctx (F v) fun rest => .running (next v) (parts ++ rest))
    (r : Except Failure V) : Behaves procs opened around ctx (after F r)
      fun rest => .returning (outcome r) (.code (propagate next) :: (parts ++ rest)) := by
  cases r with
  | ok v => exact (hnext v).of_leads fun rest G calls hcomes => .next hcomes
  | error f =>
    refine .done fun rest G calls hcomes => .next ?_
    exact .ends (o := .failure f) (hparts _ _ _ _ hcomes)

theorem lookup_ofHandler (ctx : Context) (h : Handler P) (e : EffectId) :
    (Scope.ofHandler ctx h).clauses.lookup (.declared e) = (h.functions.lookup e).map .function := by
  unfold Scope.ofHandler
  dsimp only
  induction h.functions with
  | nil => rfl
  | cons x functions ih =>
    obtain ⟨e', p⟩ := x
    by_cases heq : e = e'
    · simp [heq]
    · have hne : Effect.declared e ≠ .declared e' := by simpa using heq
      simp only [List.map_cons, List.lookup_cons, beq_false_of_ne heq, beq_false_of_ne hne]
      exact ih

/-- The scope of a handler does as the handler. -/
theorem Faithful.implements (hM : Faithful procs opened around ctx M) (h : Handler P) :
    Implements procs opened around ctx (Scope.ofHandler ctx h).clauses (M.functions h) := by
  intro e
  rw [lookup_ofHandler, Meanings.functions]
  cases h.functions.lookup e with
  | none => exact .inl ⟨rfl, rfl⟩
  | some p => exact .inr ⟨p, M.function p, rfl, rfl, hM.function p⟩

theorem Faithful.finish (hM : Faithful procs opened around ctx M) (h : Handler P) (v : V)
    (clauses : List (Effect × Clause P)) :
    Behaves procs opened around ctx (M.finish h v)
      fun rest => .returning (.value v) (.scope ctx clauses (Scope.ofHandler ctx h).goal :: rest) := by
  unfold Meanings.finish Scope.ofHandler Scope.goal
  cases h.value with
  | some p =>
    exact .calls (fun _ => .running (procs p (.value v))) (fun rest G calls hcomes => .concludes (hcomes ⟨0⟩))
      fun _ => hM.value p v
  | none => exact .done fun rest G calls hcomes => .passesOn hcomes

/-- Code does as it means, whatever stands below it. -/
theorem Faithful.behaves (hM : Faithful procs opened around ctx M) (hctx : opened ctx.id)
    (d : Deep P V owns) (hbelow : Below procs opened around ctx k place owns parts) :
    Behaves procs opened around ctx (d.meaning M k) fun rest => .running (d.code ctx place) (parts ++ rest) := by
  induction d generalizing k parts with
  | value v =>
    exact .done fun rest G calls hcomes => .ends (o := .value v) (hbelow.leaves _ _ _ _ hcomes)
  | fail f =>
    exact .done fun rest G calls hcomes => .ends (o := .failure f) (hbelow.leaves _ _ _ _ hcomes)
  | perform e a next ih =>
    exact .performs _ parts hbelow.not_scope (fun _ => .refl _)
      (behaves_next hbelow.leaves fun v => ih v hbelow)
  | handle h body next ih =>
    have hscope := (hM.body body).handle (hM.implements h) fun v => hM.finish h v _
    have hnext := behaves_next hbelow.leaves fun v => ih v hbelow
    refine (hscope.bind (List.forall_mem_cons.2 ⟨rfl, hbelow.not_scope⟩) hnext).of_leads
      fun rest G calls hcomes => ?_
    have hopens : (Act.handle ctx h body : Act P V).opens? = some (.ofHandler ctx h, body) := rfl
    exact .opens hopens hctx hcomes
  | call p next ih =>
    have hnext := behaves_next hbelow.leaves fun v => ih v hbelow
    refine ((hM.body p).bind (List.forall_mem_cons.2 ⟨rfl, hbelow.not_scope⟩) hnext).of_leads
      fun rest G calls hcomes => ?_
    exact .enters hcomes
  | resume v next ih =>
    obtain _ | ⟨kept, hkept⟩ := hbelow
    -- What follows the resume does not own the continuation any more.
    have howned : ∀ x ∈ [Part.owning (P := P) (V := V) (σ := σ) place none], x.isScope = false := by
      simp [Part.isScope]
    have hleaves : ∀ o rest, Leads procs opened around
        (.returning o ([.owning place none] ++ rest)) (.returning o rest) :=
      fun o rest G calls hcomes => .leaves hcomes
    have hnext := behaves_next hleaves fun v =>
      (ih v (k := fun _ => .unknown) .nothing).through howned fun r => hleaves _
    refine ((hkept v).bind (List.forall_mem_cons.2 ⟨rfl, howned⟩) hnext).of_leads
      fun rest G calls hcomes => ?_
    exact .resumes hcomes

/-- Procedures do as they mean, to any depth. -/
theorem Program.faithful (pr : Program P V) (hctx : opened ctx.id) (n : Nat) :
    Faithful (σ := σ) (pr.procedures ctx) opened around ctx (pr.upTo n) := by
  induction n with
  | zero => exact ⟨fun _ => .unknown, fun _ _ _ _ _ _ => .unknown, fun _ _ => .unknown⟩
  | succ n ih =>
    exact
      { body p := ih.behaves hctx (pr.body p) .nothing
        function p a k kept hkept place := ih.behaves hctx (pr.function p a) (.owning kept hkept)
        value p v := ih.behaves hctx (pr.value p v) .nothing }

/-- A program that nothing is around comes to its result. -/
theorem Program.Means.comes {pr : Program P V} {d : Deep P V false} {calls : List (Call P V)}
    {r : Except Failure V} (h : pr.Means d calls r) (hctx : opened ctx.id) (haround : around ≠ some ctx.id) :
    Comes (σ := σ) (pr.procedures ctx) opened around (Ends (· = outcome r)) (.running (d.code ctx ⟨0⟩) [])
      calls := by
  obtain ⟨n, hn⟩ := h
  have hbehaves : Behaves (σ := σ) (pr.procedures ctx) opened around ctx
      (d.meaning (pr.upTo n) fun _ => .unknown) (.running (d.code ctx ⟨0⟩)) :=
    (pr.faithful hctx n).behaves hctx d .nothing
  exact hbehaves.comes haround hn

end Strands

/-! ## Programs run as they mean -/

section Runs

open Machine
open Exc (outcome)

/-- Code names no continuation but the one that its handler function owns. -/
theorem uses_code (ctx : Context) (place : ContId) {owns : Bool} (d : Deep P V owns) {K : ContId → Prop}
    (hK : owns = true → K place) : (d.code (σ := σ) ctx place).Uses K := by
  have hgoOn : ∀ {owns : Bool} {next : V → Deep P V owns},
      (∀ v, ((next v).code (σ := σ) ctx place).Uses K) →
        ∀ o, (propagate (fun v => (next v).code (σ := σ) ctx place) o).Uses K := by
    intro _ next hnext o
    cases o with
    | value v => exact hnext v
    | failure f => trivial
    | panic p => trivial
  induction d with
  | value v => trivial
  | fail f => trivial
  | perform e a next ih => exact ⟨by rintro _ ⟨⟩, by rintro _ ⟨⟩, hgoOn fun v => ih v hK⟩
  | handle h body next ih => exact ⟨by rintro _ ⟨⟩, by rintro _ ⟨⟩, hgoOn fun v => ih v hK⟩
  | call p next ih => exact ⟨by rintro _ ⟨⟩, by rintro _ ⟨⟩, hgoOn fun v => ih v hK⟩
  | resume v next ih =>
    refine ⟨?_, by rintro _ ⟨⟩, hgoOn fun v => ih v (by rintro ⟨⟩)⟩
    rintro _ ⟨⟩
    exact hK rfl

namespace Program

variable (store : σ) (config : Config) (pr : Program P V) (d : Deep P V false)

/-- The machine that runs the code on a context of its own. -/
def start : Machine P V σ := onOneContext store config fun ctx => d.code ctx ⟨0⟩

theorem uses_procedures (ctx : Context) (p : P) (entry : Entry V) :
    (pr.procedures ctx p entry : Code P V σ V).Uses fun k => True ∧ entry.cont? = some k := by
  cases entry with
  | nothing => exact uses_code _ _ _ (by rintro ⟨⟩)
  | performed a place => exact uses_code _ _ _ fun _ => ⟨trivial, rfl⟩
  | value v => exact uses_code _ _ _ (by rintro ⟨⟩)
  | _ => trivial

variable {d} in
/-- In every run of a program that ends, the main line calls the handler functions and value handlers that the
program means, in this order and with these arguments, and it ends with the result, after all of these calls. It
ends in every fair run. -/
theorem Means.runs {pr : Program P V} {calls : List (Call P V)} {r : Except Failure V} (h : pr.Means d calls r) :
    (∀ cs m, Calls (pr.procedures (onlyContext config)) .main (start store config d) cs m →
      cs <+: calls ∧ ((m.routine .main).control = .ended → cs = calls ∧ m.Ended (outcome r))) ∧
      ∀ g, IsFairRun (pr.procedures (onlyContext config)) g → g 0 = start store config d →
        ∃ n, (g n).Ended (outcome r) := by
  refine runs_onOneContext (fun m hr => ?_) (h.comes rfl (by rintro ⟨⟩))
  have hd : (Code.ask (.openContext config) fun ctx => d.code ctx ⟨0⟩ : Code P V σ V).Uses fun _ => False :=
    ⟨by rintro _ ⟨⟩, fun _ => uses_code _ _ _ (by rintro ⟨⟩)⟩
  exact (Reaches.disciplined hr (pr.uses_procedures _) hd).usesOwn hr.sound

end Program

/-! ## A handler function that performs an effect, and an effect that is passed on -/

namespace Nested

inductive Proc where
  | outside
  | inside
  | tell
  | ask
  | double

/-- The inner handler binds effect 1 only. Its function performs effect 2 before it resumes. -/
def program : Program Proc Nat where
  body
    | .outside => .handle ⟨[(⟨1⟩, .ask)], none⟩ .inside fun v => .value (v + 1)
    | .inside => .perform ⟨1⟩ 1 fun a => .perform ⟨2⟩ a fun b => .value (a + b)
    | _ => .fail .detached
  function
    | .ask, a => .perform ⟨2⟩ a fun b => .resume b fun v => .value (v + 100)
    | .tell, a => .resume (a + 10) fun v => .value (v * 2)
    | _, _ => .fail .detached
  value
    | .double, v => .value (v * 2)
    | _, _ => .fail .detached

def main : Deep Proc Nat false := .handle ⟨[(⟨2⟩, .tell)], some .double⟩ .outside .value

/-- The program means 1064, and comes to it in its fair runs. -/
theorem runs_main :
    program.Means main [.function .ask 1, .function .tell 1, .function .tell 11, .value .double 133] (.ok 1064) ∧
      ∃ m, Calls (program.procedures (onlyContext .standard)) .main (Program.start () .standard main)
        [.function .ask 1, .function .tell 1, .function .tell 11, .value .double 133] m ∧
          m.Ended (.value 1064) := by
  have hmeans : program.Means main [.function .ask 1, .function .tell 1, .function .tell 11, .value .double 133]
      (.ok 1064) := ⟨4, rfl⟩
  obtain ⟨hcalls, hends⟩ := hmeans.runs () .standard
  obtain ⟨g, h0, hfair⟩ := exists_isFairRun (program.procedures (onlyContext .standard))
    (Program.start () .standard main)
  obtain ⟨n, hn⟩ := hends g hfair h0
  obtain ⟨cs, hrun⟩ := (hfair.reaches (Nat.zero_le n)).exists_calls .main
  rw [h0] at hrun
  obtain ⟨rfl, -⟩ := (hcalls cs (g n) hrun).2 hn.control
  exact ⟨hmeans, g n, hrun, hn⟩

end Nested

end Runs

end Deep

end OneShot
