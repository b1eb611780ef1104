import OneShot.Proofs.Exceptions

/-!
# What computations with effects mean

The meaning of a computation is a tree: it has a result, or it calls a procedure, or it performs an effect
and goes on with the answer. `Meaning.handle` is a deep handler, as equations between such trees: an effect
that is bound goes to its function, with a continuation that runs under the same handler; any other effect
is passed on, and what follows it runs under the same handler.

A strand does not run a handler again. It passes an effect on with the parts it has come through, and puts
each of their scopes in a scope of its own when they are resumed. `Behaves` says that strands come to what a
meaning says nevertheless, whatever is around them. It is a statement for each kind of node; so what is
around a computation can be added to it part by part: code that goes on with the result (`Behaves.bind`),
or a scope (`Behaves.handle`).
-/

namespace OneShot

variable {P V σ : Type}

/-- What a computation does. -/
inductive Meaning (P V : Type) where
  /-- It has a result. -/
  | done (r : Except Failure V)
  /-- It calls a handler function or a value handler, and goes on. -/
  | calls (x : Call P V) (rest : Meaning P V)
  /-- It performs an effect, and goes on with the answer. Handlers may have passed the effect on. -/
  | performs (e : EffectId) (argument : V) (passed : Bool) (next : V → Meaning P V)
  /-- It has not been followed any further. -/
  | unknown

namespace Meaning

variable {m : Meaning P V} {F F' : V → Meaning P V}
  {function : EffectId → Option (V → (V → Meaning P V) → Meaning P V)} {value : V → Meaning P V}

/-- Goes on with a value. A failure is propagated. -/
def after (F : V → Meaning P V) : Except Failure V → Meaning P V
  | .ok v => F v
  | .error f => .done (.error f)

/-- A computation, and what goes on with its value. -/
def bind (F : V → Meaning P V) : Meaning P V → Meaning P V
  | .done r => after F r
  | .calls x rest => .calls x (rest.bind F)
  | .performs e a passed next => .performs e a passed fun v => (next v).bind F
  | .unknown => .unknown

/-- An effect with its continuation goes to the function that is bound to it, or is passed on. -/
def offer (function : EffectId → Option (V → (V → Meaning P V) → Meaning P V)) (e : EffectId) (a : V)
    (k : V → Meaning P V) : Meaning P V :=
  match function e with
  | some f => f a k
  | none => .performs e a true k

/-- A computation under a handler: the functions of the effects that the handler binds, and what it does with
the value. The continuation of an effect runs under the handler again. -/
def handle (function : EffectId → Option (V → (V → Meaning P V) → Meaning P V)) (value : V → Meaning P V) :
    Meaning P V → Meaning P V
  | .done r => after value r
  | .calls x rest => .calls x (rest.handle function value)
  | .performs e a _ next => offer function e a fun v => (next v).handle function value
  | .unknown => .unknown

/-- What a computation calls, and its result, if nothing is around it. An effect that handlers have passed on
is not handled, and one that no handler is around is refused. -/
def result : Meaning P V → Option (List (Call P V) × Except Failure V)
  | .done r => some ([], r)
  | .calls x rest => rest.result.map fun (xs, r) => (x :: xs, r)
  | .performs e _ true _ => some ([], .error (.unhandledEffect (.declared e)))
  | .performs _ _ false _ => some ([], .error .noResumePoint)
  | .unknown => none

theorem after_bind (r : Except Failure V) : (after F r).bind F' = after (fun v => (F v).bind F') r := by
  cases r <;> rfl

theorem bind_bind (m : Meaning P V) : (m.bind F).bind F' = m.bind fun v => (F v).bind F' := by
  induction m with
  | done r => exact after_bind r
  | calls x rest ih => exact congrArg (calls x) ih
  | performs e a passed next ih => exact congrArg (performs e a passed) (funext ih)
  | unknown => rfl

theorem bind_done (m : Meaning P V) : m.bind (fun v => .done (.ok v)) = m := by
  induction m with
  | done r => cases r <;> rfl
  | calls x rest ih => exact congrArg (calls x) ih
  | performs e a passed next ih => exact congrArg (performs e a passed) (funext ih)
  | unknown => rfl

/-- What goes on under a handler can be left to what the handler does with the value. -/
theorem handle_bind (m : Meaning P V) :
    (m.bind F).handle function value = m.handle function fun v => (F v).handle function value := by
  induction m with
  | done r => cases r <;> rfl
  | calls x rest ih => exact congrArg (calls x) ih
  | performs e a passed next ih =>
    have hnext : (fun v => ((next v).bind F).handle function value) =
        fun v => (next v).handle function fun v => (F v).handle function value := funext ih
    simp only [bind, handle, hnext]
  | unknown => rfl

end Meaning

namespace Strand

/-- Whatever the second strand comes to, the first one comes to, with the same calls. -/
def Leads (code : P → Entry V → Code P V σ V) (opened : ContextId → Prop) (around : Option ContextId)
    (q q' : Strand P V σ) : Prop :=
  ∀ G calls, Comes code opened around G q' calls → Comes code opened around G q calls

open Meaning (after offer after_bind bind_bind bind_done handle_bind)
open Exc (outcome)

/-- A computation of this meaning is run by the strand, which is given what is around the computation. -/
inductive Behaves (code : P → Entry V → Code P V σ V) (opened : ContextId → Prop)
    (around : Option ContextId) (ctx : Context) :
    Meaning P V → (List (Part P V σ) → Strand P V σ) → Prop where
  /-- The computation has a result. -/
  | done {r : Except Failure V} {q : List (Part P V σ) → Strand P V σ}
    (h : ∀ rest, Leads code opened around (q rest) (.returning (outcome r) rest)) :
    Behaves code opened around ctx (.done r) q
  /-- It calls a procedure. How it goes on does not depend on where a continuation is kept. -/
  | calls {x : Call P V} {m : Meaning P V} {q : List (Part P V σ) → Strand P V σ}
    (q' : ContId → List (Part P V σ) → Strand P V σ)
    (h : ∀ rest G calls, (∀ place, Comes code opened around G (q' place rest) calls) →
      Comes code opened around G (q rest) (x :: calls))
    (hm : ∀ place, Behaves code opened around ctx m (q' place)) :
    Behaves code opened around ctx (.calls x m) q
  /-- Its code performs an effect. No scope is inside of the code that goes on with the answer. -/
  | performs {e : EffectId} {a : V} {next : V → Meaning P V} {q : List (Part P V σ) → Strand P V σ}
    (n : Outcome V V → Code P V σ V) (ps : List (Part P V σ)) (hps : ∀ x ∈ ps, x.isScope = false)
    (h : ∀ rest, Leads code opened around (q rest) (.running (.act (.perform ctx e a) n) (ps ++ rest)))
    (hnext : ∀ r, Behaves code opened around ctx (after next r)
      fun rest => .returning (outcome r) (.code n :: (ps ++ rest))) :
    Behaves code opened around ctx (.performs e a false next) q
  /-- Its outermost scope passes an effect on, which it does not bind. What is kept goes on with the
  answer, and then what is outside of this scope goes on. -/
  | passes {e : EffectId} {a : V} {first next : V → Meaning P V} {q : List (Part P V σ) → Strand P V σ}
    (kept : Kept P V σ) (ps : List (Part P V σ)) (hps : ∀ x ∈ ps, x.isScope = false)
    (hctx : kept.ctx.id = ctx.id) (hlookup : kept.clauses.lookup (.declared e) = none)
    (h : ∀ rest, Leads code opened around (q rest) (.offering (.declared e) (.datum a) kept (ps ++ rest)))
    (hfirst : ∀ v, Behaves code opened around ctx (first v)
      fun rest => .returning (.value v) (kept.resumed ++ rest))
    (hnext : ∀ r, Behaves code opened around ctx (after next r)
      fun rest => .returning (outcome r) (ps ++ rest)) :
    Behaves code opened around ctx (.performs e a true fun v => (first v).bind next) q
  /-- Nothing is said about what has not been followed. -/
  | unknown {q : List (Part P V σ) → Strand P V σ} : Behaves code opened around ctx .unknown q

section Behaves

variable {code : P → Entry V → Code P V σ V} {opened : ContextId → Prop} {around : Option ContextId}
  {ctx : Context} {m : Meaning P V} {F : V → Meaning P V} {q q' : List (Part P V σ) → Strand P V σ}
  {ps : List (Part P V σ)}

theorem Leads.refl (q : Strand P V σ) : Leads code opened around q q := fun _ _ h => h

theorem Leads.trans {q q' q'' : Strand P V σ} (h : Leads code opened around q q')
    (h' : Leads code opened around q' q'') : Leads code opened around q q'' :=
  fun G calls hq => h G calls (h' G calls hq)

namespace Behaves

/-- What a strand leads to can be said of the strand. -/
theorem of_leads (hq : ∀ rest, Leads code opened around (q rest) (q' rest))
    (h : Behaves code opened around ctx m q') : Behaves code opened around ctx m q := by
  cases h with
  | done h => exact .done fun rest => (hq rest).trans (h rest)
  | calls q'' h hm => exact .calls q'' (fun rest G calls hcomes => hq rest _ _ (h rest G calls hcomes)) hm
  | performs n ps hps h hnext => exact .performs n ps hps (fun rest => (hq rest).trans (h rest)) hnext
  | passes kept ps hps hctx hlookup h hfirst hnext =>
    exact .passes kept ps hps hctx hlookup (fun rest => (hq rest).trans (h rest)) hfirst hnext
  | unknown => exact .unknown

/-- A result is that of its strand. -/
theorem returns (r : Except Failure V) :
    Behaves code opened around ctx (.done r : Meaning P V) fun rest => .returning (outcome r) rest :=
  .done fun _ => .refl _

/-- Parts without a scope go on with the value of a computation. -/
theorem bind (h : Behaves code opened around ctx m q) (hps : ∀ x ∈ ps, x.isScope = false)
    (hF : ∀ r, Behaves code opened around ctx (after F r) fun rest => .returning (outcome r) (ps ++ rest)) :
    Behaves code opened around ctx (m.bind F) fun rest => q (ps ++ rest) := by
  induction h with
  | done h => exact (hF _).of_leads fun rest => h (ps ++ rest)
  | calls q' h _ ih => exact .calls (fun place rest => q' place (ps ++ rest)) (fun rest => h (ps ++ rest)) ih
  | performs n inside hinside h _ ih =>
    -- The parts are taken along, outside of those of the computation.
    refine .performs n (inside ++ ps) (by simpa [or_imp, forall_and] using ⟨hinside, hps⟩)
      (fun rest => ?_) fun r => ?_
    · rw [List.append_assoc]
      exact h (ps ++ rest)
    · simp only [List.append_assoc]
      rw [← after_bind]
      exact ih r
  | passes kept inside hinside hctx hlookup h hfirst _ _ ih =>
    simp only [Meaning.bind, bind_bind]
    refine .passes kept (inside ++ ps) (by simpa [or_imp, forall_and] using ⟨hinside, hps⟩) hctx hlookup
      (fun rest => ?_) hfirst fun r => ?_
    · rw [List.append_assoc]
      exact h (ps ++ rest)
    · simp only [List.append_assoc]
      rw [← after_bind]
      exact ih r
  | unknown => exact .unknown

/-- Parts that hand the outcome on make no difference. -/
theorem through (h : Behaves code opened around ctx m q) (hps : ∀ x ∈ ps, x.isScope = false)
    (hpass : ∀ r rest, Leads code opened around (.returning (outcome r) (ps ++ rest))
      (.returning (outcome r) rest)) : Behaves code opened around ctx m fun rest => q (ps ++ rest) := by
  rw [← bind_done m]
  refine h.bind hps fun r => ?_
  have hafter : after (fun v => .done (.ok v)) r = (.done r : Meaning P V) := by cases r <;> rfl
  rw [hafter]
  exact .done (hpass r)

end Behaves

/-! ## Handlers -/

section Handle

variable {clauses : List (Effect × Clause P)} {goal : Goal P V σ} {value : V → Meaning P V}
  {function : EffectId → Option (V → (V → Meaning P V) → Meaning P V)}

variable (code opened around ctx clauses function) in
/-- The clauses of a scope are functions of this meaning: each of them calls its procedure, which does as it
means when the kept parts do as the continuation. -/
def Implements : Prop :=
  ∀ e, (clauses.lookup (.declared e) = none ∧ function e = none) ∨
    ∃ (p : P) (f : V → (V → Meaning P V) → Meaning P V), clauses.lookup (.declared e) = some (.function p) ∧
      function e = some (fun a k => .calls (.function p a) (f a k)) ∧
      ∀ (a : V) (k : V → Meaning P V) (kept : Kept P V σ), (∀ v, Behaves code opened around ctx (k v)
          fun rest => .returning (.value v) (kept.resumed ++ rest)) →
        ∀ place, Behaves code opened around ctx (f a k)
          fun rest => .running (code p (.performed a place)) (.owning place (some kept) :: rest)

/-- A scope is offered an effect. What it keeps goes on under the same handler. -/
theorem Implements.behaves (himpl : Implements code opened around ctx clauses function) {e : EffectId}
    {a : V} {k : V → Meaning P V} (kept : Kept P V σ) (hclauses : kept.clauses = clauses)
    (hctx : kept.ctx.id = ctx.id) (hkept : ∀ v, Behaves code opened around ctx (k v)
      fun rest => .returning (.value v) (kept.resumed ++ rest)) :
    Behaves code opened around ctx (offer function e a k)
      fun rest => .offering (.declared e) (.datum a) kept rest := by
  unfold offer
  obtain ⟨hlookup, hfunction⟩ | ⟨p, f, hlookup, hfunction, hf⟩ := himpl e
  · rw [hfunction]
    -- Nothing is outside of the scope yet.
    have hk : k = fun v => (k v).bind fun v => .done (.ok v) := funext fun v => (bind_done _).symm
    rw [hk]
    refine .passes kept [] (by simp) hctx (hclauses ▸ hlookup) (fun _ => .refl _) hkept fun r => ?_
    have hafter : after (fun v => .done (.ok v)) r = (.done r : Meaning P V) := by cases r <;> rfl
    rw [hafter]
    exact .returns r
  · rw [hfunction]
    refine .calls (fun place rest => .running (code p (.performed a place)) (.owning place (some kept) :: rest))
      (fun rest G calls hcomes => ?_) (hf a k kept hkept)
    exact .function (hclauses ▸ hlookup) hcomes

/-- A scope around a computation does what a handler around its meaning does, however the scope came
about: it does as the handler with each value. -/
theorem Behaves.handle (h : Behaves code opened around ctx m q)
    (himpl : Implements code opened around ctx clauses function)
    (hvalue : ∀ v, Behaves code opened around ctx (value v)
      fun rest => .returning (.value v) (.scope ctx clauses goal :: rest)) :
    Behaves code opened around ctx (m.handle function value) fun rest => q (.scope ctx clauses goal :: rest) := by
  induction h generalizing goal value with
  | @done r _ h =>
    cases r with
    | ok v => exact (hvalue v).of_leads fun rest => h (.scope ctx clauses goal :: rest)
    | error f =>
      refine .done fun rest G calls hcomes => h _ _ _ ?_
      exact .passes rfl hcomes
  | calls q' h _ ih =>
    exact .calls (fun place rest => q' place (.scope ctx clauses goal :: rest))
      (fun rest => h (.scope ctx clauses goal :: rest)) fun place => ih place hvalue
  | performs n ps hps h _ ih =>
    have hkept : ∀ v, Behaves code opened around ctx _
        fun rest => .returning (.value v) (.code n :: (ps ++ .scope ctx clauses goal :: rest)) :=
      fun v => ih (.ok v) hvalue
    refine (himpl.behaves (.direct (.code n :: ps) ctx clauses goal) rfl rfl fun v => ?_).of_leads
      fun rest G calls hcomes => h _ _ _ (.performs rfl hps rfl hcomes)
    simpa [Kept.resumed, List.append_assoc, after] using hkept v
  | passes kept ps hps hctx hlookup h _ _ ihfirst ihnext =>
    -- The scope that passed the effect on runs in a scope of its own when it is resumed. The value
    -- of that scope answers the parts outside of it, and these are under the handler.
    have hinto : ∀ v, Behaves code opened around ctx _
        fun rest => .returning (.value v) (.scope ctx clauses (.into ps goal) :: rest) := fun v =>
      (ihnext (.ok v) hvalue).of_leads fun rest G calls hcomes => .answers hcomes
    have hkept := fun v => ihfirst v hinto
    refine (himpl.behaves (.through kept ps ctx clauses goal) rfl rfl fun v => ?_).of_leads
      fun rest G calls hcomes => h _ _ _ (.forwards hlookup hps hctx.symm hcomes)
    rw [handle_bind]
    simpa [Kept.resumed, List.append_assoc, after] using hkept v
  | unknown => exact .unknown

end Handle

/-! ## Results -/

/-- If nothing is around a computation, it comes to its result. -/
theorem Behaves.comes (h : Behaves code opened around ctx m q) (haround : around ≠ some ctx.id)
    {calls : List (Call P V)} {r : Except Failure V} (hr : m.result = some (calls, r)) :
    Comes code opened around (Ends (· = outcome r)) (q []) calls := by
  induction h generalizing calls r with
  | done h =>
    obtain ⟨rfl, rfl⟩ : [] = calls ∧ _ = r := by simpa [Meaning.result] using hr
    exact h [] _ _ (.here ⟨_, rfl, rfl⟩)
  | calls q' h _ ih =>
    obtain ⟨⟨calls', r'⟩, hrest, heq⟩ := Option.map_eq_some_iff.1 hr
    obtain ⟨rfl, rfl⟩ : _ :: calls' = calls ∧ r' = r := by simpa using heq
    exact h [] _ _ fun place => ih place hrest
  | performs n ps hps h _ ih =>
    obtain ⟨rfl, rfl⟩ : [] = calls ∧ .error .noResumePoint = r := by simpa [Meaning.result] using hr
    have hnearest : nearest around (ps ++ []) ≠ some ctx.id := by
      rw [nearest_append hps]
      exact haround
    refine h [] _ _ (.performsAlone rfl hnearest ?_)
    exact ih (.error .noResumePoint) rfl
  | @passes e _ _ _ _ kept ps hps hctx hlookup h _ _ _ ih =>
    obtain ⟨rfl, rfl⟩ : [] = calls ∧ .error (.unhandledEffect (.declared e)) = r := by
      simpa [Meaning.result] using hr
    have hnearest : nearest around (ps ++ []) ≠ some kept.ctx.id := by
      rw [nearest_append hps, hctx]
      exact haround
    refine h [] _ _ (.unhandled hlookup hnearest ?_)
    exact ih (.error (.unhandledEffect (.declared e))) rfl
  | unknown => cases hr

end Behaves

end Strand

end OneShot
