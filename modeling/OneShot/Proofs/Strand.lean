import OneShot.Proofs.Ownership
import OneShot.Proofs.Routing

/-!
# Strands

A computation that uses effects, handlers and continuations only is a *strand*: one thing is done at a
time, and what remains to be done is a list of parts, the innermost first. A part is code that goes on with
an outcome, a scope, or the end of a handler function, which owns a continuation. No routine, no slot and
no registry occurs here.

An effect goes outward over the parts to the nearest scope, and from there to the next one, until a scope
binds it. On its way it takes the parts along: they are the continuation. `Strand.Step` says how a strand
goes on. The only thing that it leaves open is where a continuation is kept.

`Strand.Comes` says what all ways to go on have in common: the calls that are made of handler functions,
arms and value handlers, and where it comes to.
-/

namespace OneShot

variable {P V σ : Type}

/-- A scope calls a procedure. -/
inductive Call (P V : Type) where
  /-- A handler function, with the argument of an effect. -/
  | function (p : P) (argument : V)
  /-- An arm, with an error. -/
  | arm (p : P) (cause : Cause)
  /-- A value handler, with the value of a body. -/
  | value (p : P) (v : V)

mutual

/-- A part of what remains to be done when what is inside it has an outcome. -/
inductive Part (P V σ : Type) where
  /-- Code goes on with the outcome. -/
  | code (next : Outcome V V → Code P V σ V)
  /-- A scope takes an effect, or the value of its body. -/
  | scope (ctx : Context) (clauses : List (Effect × Clause P)) (goal : Goal P V σ)
  /-- A handler function ends. It owns a continuation, unless it has resumed it. -/
  | owning (place : ContId) (kept : Option (Kept P V σ))

/-- What a scope does with the value of its body. -/
inductive Goal (P V σ : Type) where
  | passOn
  | call (p : P)
  /-- The scope runs a forwarded continuation: the value answers the parts that forwarded, and what they
  come to is for the scope again. -/
  | into (parts : List (Part P V σ)) (goal : Goal P V σ)

/-- What a handler function continues with: the parts from a perform out to a scope. -/
inductive Kept (P V σ : Type) where
  /-- The parts in the scope itself. -/
  | direct (parts : List (Part P V σ)) (ctx : Context) (clauses : List (Effect × Clause P))
    (goal : Goal P V σ)
  /-- The parts in the scope forward for those further inside. -/
  | through (inner : Kept P V σ) (parts : List (Part P V σ)) (ctx : Context)
    (clauses : List (Effect × Clause P)) (goal : Goal P V σ)

end

/-- Whether the part is a scope. -/
def Part.isScope : Part P V σ → Bool
  | .scope _ _ _ => true
  | _ => false

namespace Kept

/-- The context of the outermost scope. -/
def ctx : Kept P V σ → Context
  | .direct _ ctx _ _ | .through _ _ ctx _ _ => ctx

/-- The clauses of the outermost scope. -/
def clauses : Kept P V σ → List (Effect × Clause P)
  | .direct _ _ clauses _ | .through _ _ _ clauses _ => clauses

/-- What a resumed continuation goes on with. A scope that has forwarded runs what is inside it anew, before
it comes back to its own parts. -/
def resumed : Kept P V σ → List (Part P V σ)
  | .direct parts ctx clauses goal => parts ++ [.scope ctx clauses goal]
  | .through inner parts ctx clauses goal => inner.resumed ++ [.scope ctx clauses (.into parts goal)]

end Kept

/-- What a new scope does with the value of its body. -/
def Scope.goal (scope : Scope P) : Goal P V σ :=
  match scope.finish with
  | .call p => .call p
  | _ => .passOn

/-- The scope that an operation opens, and the body that runs in it. -/
def Act.opens? : Act P V → Option (Scope P × P)
  | .handle ctx h body => some (.ofHandler ctx h, body)
  | .tryWith ctx arms body => some (.ofArms ctx arms, body)
  | _ => none

/-- What a computation does next, and what remains to be done then. -/
inductive Strand (P V σ : Type) where
  | running (c : Code P V σ V) (parts : List (Part P V σ))
  | returning (o : Outcome V V) (parts : List (Part P V σ))
  /-- The outermost scope of a continuation is asked whether it binds an effect. -/
  | offering (e : Effect) (b : Boxed V) (k : Kept P V σ) (parts : List (Part P V σ))

namespace Strand

/-- The context of the nearest scope. -/
def nearest (around : Option ContextId) : List (Part P V σ) → Option ContextId
  | [] => around
  | .scope ctx _ _ :: _ => some ctx.id
  | _ :: parts => nearest around parts

/-- The nearest scope is not among parts without a scope. -/
theorem nearest_append {around : Option ContextId} {ps qs : List (Part P V σ)}
    (hps : ∀ x ∈ ps, x.isScope = false) : nearest around (ps ++ qs) = nearest around qs := by
  induction ps with
  | nil => rfl
  | cons p ps ih =>
    obtain ⟨hp, hrest⟩ := List.forall_mem_cons.1 hps
    cases p with
    | scope ctx clauses goal => cases hp
    | code n => exact ih hrest
    | owning place kept => exact ih hrest

/-- There is one way only to find the nearest scope. -/
theorem split_unique {inside inside' parts parts' : List (Part P V σ)} {ctx ctx' : Context}
    {clauses clauses' : List (Effect × Clause P)} {goal goal' : Goal P V σ}
    (hps : ∀ x ∈ inside, x.isScope = false) (hps' : ∀ x ∈ inside', x.isScope = false)
    (heq : inside ++ .scope ctx clauses goal :: parts = inside' ++ .scope ctx' clauses' goal' :: parts') :
    inside = inside' ∧ ctx = ctx' ∧ clauses = clauses' ∧ goal = goal' ∧ parts = parts' := by
  induction inside generalizing inside' with
  | nil =>
    cases inside' with
    | nil => simpa [and_assoc] using heq
    | cons x inside' =>
      obtain ⟨rfl, -⟩ := List.cons.inj heq
      cases hps' _ List.mem_cons_self
  | cons x inside ih =>
    obtain ⟨hx, hinside⟩ := List.forall_mem_cons.1 hps
    cases inside' with
    | nil =>
      obtain ⟨rfl, -⟩ := List.cons.inj heq
      cases hx
    | cons y inside' =>
      obtain ⟨rfl, htail⟩ := List.cons.inj heq
      obtain ⟨rfl, hrest⟩ := ih hinside (List.forall_mem_cons.1 hps').2 htail
      exact ⟨rfl, hrest⟩

/-- How a strand goes on, with the call that it makes. The contexts that can be used are given, and that of
the scope around the strand, if there is one: an effect that would go to this scope does not go on here. -/
inductive Step (code : P → Entry V → Code P V σ V) (opened : ContextId → Prop)
    (around : Option ContextId) : Strand P V σ → Option (Call P V) → Strand P V σ → Prop where
  /-- Code ends. -/
  | ends {c : Code P V σ V} {parts : List (Part P V σ)} (o : Outcome V V) (hc : c = .ofOutcome o) :
    Step code opened around (.running c parts) none (.returning o parts)
  /-- Code calls a procedure. -/
  | calls {p : P} {entry : Entry V} {next : Outcome V V → Code P V σ V} {parts : List (Part P V σ)} :
    Step code opened around (.running (.act (.call p entry) next) parts) none
      (.running (code p entry) (.code next :: parts))
  /-- Code asks the machine about anything but continuations. The answer is not part of the strand. -/
  | asks {query : Query P} {next : query.Reply → Code P V σ V} {parts : List (Part P V σ)}
    (reply : query.Reply) (hplace : (Code.ask query next : Code P V σ V).place? = none) :
    Step code opened around (.running (.ask query next) parts) none (.running (next reply) parts)
  /-- Code changes the store, which is not part of the strand. -/
  | accesses {change : σ → σ} {next : σ → Code P V σ V} {parts : List (Part P V σ)} (s : σ) :
    Step code opened around (.running (.access change next) parts) none (.running (next s) parts)
  /-- An effect goes out to the nearest scope. -/
  | performs {a : Act P V} {next : Outcome V V → Code P V σ V} {ctx ctx' : Context} {e : Effect}
    {b : Boxed V} {inside parts : List (Part P V σ)} {clauses : List (Effect × Clause P)}
    {goal : Goal P V σ} (ha : a.performed? = some (ctx, e, b))
    (hinside : ∀ x ∈ inside, x.isScope = false) (hctx : ctx'.id = ctx.id) :
    Step code opened around (.running (.act a next) (inside ++ .scope ctx' clauses goal :: parts)) none
      (.offering e b (.direct (.code next :: inside) ctx' clauses goal) parts)
  /-- There is no scope of this context to which it could go. -/
  | performsAlone {a : Act P V} {next : Outcome V V → Code P V σ V} {ctx : Context} {e : Effect}
    {b : Boxed V} {parts : List (Part P V σ)} (ha : a.performed? = some (ctx, e, b))
    (hnearest : nearest around parts ≠ some ctx.id) :
    Step code opened around (.running (.act a next) parts) none
      (.returning (.failure .noResumePoint) (.code next :: parts))
  /-- A body runs in a new scope. -/
  | opens {a : Act P V} {next : Outcome V V → Code P V σ V} {scope : Scope P} {body : P}
    {parts : List (Part P V σ)} (ha : a.opens? = some (scope, body)) (hctx : opened scope.ctx.id) :
    Step code opened around (.running (.act a next) parts) none
      (.running (code body .nothing) (.scope scope.ctx scope.clauses scope.goal :: .code next :: parts))
  /-- A handler function resumes its continuation. -/
  | resumes {place : ContId} {v : V} {next : Outcome V V → Code P V σ V}
    {inside : List (Outcome V V → Code P V σ V)} {k : Kept P V σ} {parts : List (Part P V σ)} :
    Step code opened around
      (.running (.act (.continueWith place v) next)
        (inside.map .code ++ .owning place (some k) :: parts)) none
      (.returning (.value v)
        (k.resumed ++ .code next :: (inside.map .code ++ .owning place none :: parts)))
  /-- Code goes on. -/
  | next {o : Outcome V V} {k : Outcome V V → Code P V σ V} {parts : List (Part P V σ)} :
    Step code opened around (.returning o (.code k :: parts)) none (.running (k o) parts)
  /-- A handler function ends. A continuation that it has not resumed is dropped. -/
  | leaves {o : Outcome V V} {place : ContId} {kept : Option (Kept P V σ)}
    {parts : List (Part P V σ)} :
    Step code opened around (.returning o (.owning place kept :: parts)) none (.returning o parts)
  /-- An error or panic leaves a scope. -/
  | passes {o : Outcome V V} {ctx : Context} {clauses : List (Effect × Clause P)} {goal : Goal P V σ}
    {parts : List (Part P V σ)} (ho : o.isAbrupt = true) :
    Step code opened around (.returning o (.scope ctx clauses goal :: parts)) none (.returning o parts)
  /-- The value of a body is that of the scope. -/
  | passesOn {v : V} {ctx : Context} {clauses : List (Effect × Clause P)}
    {parts : List (Part P V σ)} :
    Step code opened around (.returning (.value v) (.scope ctx clauses .passOn :: parts)) none
      (.returning (.value v) parts)
  /-- The value of a body goes to the value handler. -/
  | concludes {v : V} {ctx : Context} {clauses : List (Effect × Clause P)} {p : P}
    {parts : List (Part P V σ)} :
    Step code opened around (.returning (.value v) (.scope ctx clauses (.call p) :: parts))
      (some (.value p v)) (.running (code p (.value v)) parts)
  /-- The value of a forwarded continuation answers the parts that forwarded. -/
  | answers {v : V} {ctx : Context} {clauses : List (Effect × Clause P)} {goal : Goal P V σ}
    {inside parts : List (Part P V σ)} :
    Step code opened around (.returning (.value v) (.scope ctx clauses (.into inside goal) :: parts))
      none (.returning (.value v) (inside ++ .scope ctx clauses goal :: parts))
  /-- A handler function takes an effect. -/
  | function {e : Effect} {v : V} {k : Kept P V σ} {parts : List (Part P V σ)} {p : P}
    (place : ContId) (hlookup : k.clauses.lookup e = some (.function p)) :
    Step code opened around (.offering e (.datum v) k parts) (some (.function p v))
      (.running (code p (.performed v place)) (.owning place (some k) :: parts))
  /-- An arm takes an error. -/
  | arm {e : Effect} {cause : Cause} {k : Kept P V σ} {parts : List (Part P V σ)} {arms : Arms P}
    {p : P} (place : ContId) (hlookup : k.clauses.lookup e = some (.arms arms))
    (hselect : arms.select cause = some p) :
    Step code opened around (.offering e (.raised cause) k parts) (some (.arm p cause))
      (.running (code p (.raised cause)) (.owning place (some k) :: parts))
  /-- No arm takes an error, and it is raised again. -/
  | raisesAgain {e : Effect} {cause : Cause} {k : Kept P V σ} {parts : List (Part P V σ)}
    {arms : Arms P} (place : ContId) (hlookup : k.clauses.lookup e = some (.arms arms))
    (hselect : arms.select cause = none) :
    Step code opened around (.offering e (.raised cause) k parts) none
      (.running (.perform (.raise k.ctx cause)) (.owning place (some k) :: parts))
  /-- A scope forwards an effect to the next one. -/
  | forwards {e : Effect} {b : Boxed V} {k : Kept P V σ} {inside parts : List (Part P V σ)}
    {ctx : Context} {clauses : List (Effect × Clause P)} {goal : Goal P V σ}
    (hlookup : k.clauses.lookup e = none) (hinside : ∀ x ∈ inside, x.isScope = false)
    (hctx : ctx.id = k.ctx.id) :
    Step code opened around (.offering e b k (inside ++ .scope ctx clauses goal :: parts)) none
      (.offering e b (.through k inside ctx clauses goal) parts)
  /-- There is no next scope of this context, and nobody handles the effect. -/
  | unhandled {e : Effect} {b : Boxed V} {k : Kept P V σ} {parts : List (Part P V σ)}
    (hlookup : k.clauses.lookup e = none) (hnearest : nearest around parts ≠ some k.ctx.id) :
    Step code opened around (.offering e b k parts) none
      (.returning (.failure (.unhandledEffect e)) parts)

/-- The strand has such an outcome, and nothing else to do. -/
def Ends (R : Outcome V V → Prop) (q : Strand P V σ) : Prop :=
  ∃ o, R o ∧ q = .returning o []

section Steps

variable {code : P → Entry V → Code P V σ V} {opened : ContextId → Prop} {around : Option ContextId}
  {G G' : Strand P V σ → Prop} {q q' : Strand P V σ} {calls calls' : List (Call P V)}

/-- Code that performs an effect gives it to the nearest scope, or there is none of the context. -/
theorem Step.of_performed {a : Act P V} {n : Outcome V V → Code P V σ V} {ctx : Context} {e : Effect}
    {b : Boxed V} {parts : List (Part P V σ)} {call : Option (Call P V)}
    (h : Step code opened around (.running (.act a n) parts) call q')
    (ha : a.performed? = some (ctx, e, b)) :
    (∃ inside ctx' clauses goal rest, parts = inside ++ .scope ctx' clauses goal :: rest ∧
        (∀ x ∈ inside, x.isScope = false) ∧ ctx'.id = ctx.id ∧ call = none ∧
        q' = .offering e b (.direct (.code n :: inside) ctx' clauses goal) rest) ∨
      nearest around parts ≠ some ctx.id ∧ call = none ∧
        q' = .returning (.failure .noResumePoint) (.code n :: parts) := by
  cases h with
  | ends o hc => cases o <;> cases hc
  | calls => cases ha
  | performs ha' hinside hctx =>
    obtain ⟨rfl, rfl, rfl⟩ : _ ∧ _ ∧ _ := by simpa using ha.symm.trans ha'
    exact .inl ⟨_, _, _, _, _, rfl, hinside, hctx, rfl, rfl⟩
  | performsAlone ha' hnearest =>
    obtain ⟨rfl, rfl, rfl⟩ : _ ∧ _ ∧ _ := by simpa using ha.symm.trans ha'
    exact .inr ⟨hnearest, rfl, rfl⟩
  | opens ha' _ => exact absurd ha (by cases a <;> cases ha' <;> simp [Act.performed?])
  | resumes => cases ha

/-- An effect that a scope does not bind goes to the next scope, or there is none of the context. -/
theorem Step.of_unbound {e : Effect} {b : Boxed V} {k : Kept P V σ} {parts : List (Part P V σ)}
    {call : Option (Call P V)} (h : Step code opened around (.offering e b k parts) call q')
    (hlookup : k.clauses.lookup e = none) :
    (∃ inside ctx clauses goal rest, parts = inside ++ .scope ctx clauses goal :: rest ∧
        (∀ x ∈ inside, x.isScope = false) ∧ ctx.id = k.ctx.id ∧ call = none ∧
        q' = .offering e b (.through k inside ctx clauses goal) rest) ∨
      nearest around parts ≠ some k.ctx.id ∧ call = none ∧
        q' = .returning (.failure (.unhandledEffect e)) parts := by
  cases h with
  | function _ hbound => cases hlookup.symm.trans hbound
  | arm _ hbound _ => cases hlookup.symm.trans hbound
  | raisesAgain _ hbound _ => cases hlookup.symm.trans hbound
  | forwards _ hinside hctx => exact .inl ⟨_, _, _, _, _, rfl, hinside, hctx, rfl, rfl⟩
  | unhandled _ hnearest => exact .inr ⟨hnearest, rfl, rfl⟩

/-- However the strand goes on, it makes these calls, and then it is as the goal says. -/
inductive Comes (code : P → Entry V → Code P V σ V) (opened : ContextId → Prop)
    (around : Option ContextId) (G : Strand P V σ → Prop) :
    Strand P V σ → List (Call P V) → Prop where
  | here {q : Strand P V σ} (h : G q) : Comes code opened around G q []
  | step {q : Strand P V σ} {call : Option (Call P V)} {calls : List (Call P V)}
    (can : ∃ q', Step code opened around q call q')
    (only : ∀ c q', Step code opened around q c q' → c = call)
    (rest : ∀ c q', Step code opened around q c q' → Comes code opened around G q' calls) :
    Comes code opened around G q (call.toList ++ calls)

namespace Comes

theorem bind (h : Comes code opened around G q calls)
    (h' : ∀ q, G q → Comes code opened around G' q calls') :
    Comes code opened around G' q (calls ++ calls') := by
  induction h with
  | here hq => exact h' _ hq
  | step can only _ ih =>
    rw [List.append_assoc]
    exact .step can only ih

theorem mono (h : Comes code opened around G q calls) (h' : ∀ q, G q → G' q) :
    Comes code opened around G' q calls := by
  rw [← List.append_nil calls]
  exact h.bind fun q hq => .here (h' q hq)

/-- A strand that makes the same call, whichever way it goes on. -/
theorem of_steps (call : Option (Call P V)) (can : ∃ q', Step code opened around q call q')
    (hsteps : ∀ c q', Step code opened around q c q' → c = call ∧ Comes code opened around G q' calls) :
    Comes code opened around G q (call.toList ++ calls) :=
  .step can (fun c q' hstep => (hsteps c q' hstep).1) fun c q' hstep => (hsteps c q' hstep).2

/-- A strand that can go on in one way only. -/
theorem of_step {call : Option (Call P V)} (hstep : Step code opened around q call q')
    (only : ∀ c q'', Step code opened around q c q'' → c = call ∧ q'' = q')
    (h : Comes code opened around G q' calls) :
    Comes code opened around G q (call.toList ++ calls) :=
  of_steps call ⟨q', hstep⟩ fun c q'' hc => ⟨(only c q'' hc).1, (only c q'' hc).2 ▸ h⟩

/-! ## Rules -/

variable {parts : List (Part P V σ)} {n : Outcome V V → Code P V σ V} {o : Outcome V V} {v : V}
  {ctx : Context} {clauses : List (Effect × Clause P)} {goal : Goal P V σ}

theorem ends (h : Comes code opened around G (.returning o parts) calls) :
    Comes code opened around G (.running (.ofOutcome o) parts) calls := by
  refine of_step (.ends o rfl) (fun c q'' hstep => ?_) h
  cases o <;> cases hstep with
  | ends o' hc => cases o' <;> cases hc; exact ⟨rfl, rfl⟩

theorem next (h : Comes code opened around G (.running (n o) parts) calls) :
    Comes code opened around G (.returning o (.code n :: parts)) calls := by
  refine of_step .next (fun c q'' hstep => ?_) h
  cases hstep
  exact ⟨rfl, rfl⟩

theorem leaves {place : ContId} {kept : Option (Kept P V σ)}
    (h : Comes code opened around G (.returning o parts) calls) :
    Comes code opened around G (.returning o (.owning place kept :: parts)) calls := by
  refine of_step .leaves (fun c q'' hstep => ?_) h
  cases hstep
  exact ⟨rfl, rfl⟩

theorem passes (ho : o.isAbrupt = true) (h : Comes code opened around G (.returning o parts) calls) :
    Comes code opened around G (.returning o (.scope ctx clauses goal :: parts)) calls := by
  refine of_step (.passes ho) (fun c q'' hstep => ?_) h
  cases hstep with
  | passes => exact ⟨rfl, rfl⟩
  | _ => cases ho

theorem passesOn (h : Comes code opened around G (.returning (.value v) parts) calls) :
    Comes code opened around G (.returning (.value v) (.scope ctx clauses .passOn :: parts)) calls := by
  refine of_step .passesOn (fun c q'' hstep => ?_) h
  cases hstep with
  | passes ho => cases ho
  | passesOn => exact ⟨rfl, rfl⟩

theorem concludes {p : P} (h : Comes code opened around G (.running (code p (.value v)) parts) calls) :
    Comes code opened around G (.returning (.value v) (.scope ctx clauses (.call p) :: parts))
      (.value p v :: calls) := by
  have hconcludes : Step code opened around (.returning (.value v) (.scope ctx clauses (.call p) :: parts))
      (some (.value p v)) (.running (code p (.value v)) parts) := .concludes
  refine of_step hconcludes (fun c q'' hstep => ?_) h
  cases hstep with
  | passes ho => cases ho
  | concludes => exact ⟨rfl, rfl⟩

theorem answers {inside : List (Part P V σ)}
    (h : Comes code opened around G (.returning (.value v) (inside ++ .scope ctx clauses goal :: parts)) calls) :
    Comes code opened around G (.returning (.value v) (.scope ctx clauses (.into inside goal) :: parts))
      calls := by
  refine of_step .answers (fun c q'' hstep => ?_) h
  cases hstep with
  | passes ho => cases ho
  | answers => exact ⟨rfl, rfl⟩

theorem enters {p : P} {entry : Entry V}
    (h : Comes code opened around G (.running (code p entry) (.code n :: parts)) calls) :
    Comes code opened around G (.running (.act (.call p entry) n) parts) calls := by
  refine of_step .calls (fun c q'' hstep => ?_) h
  cases hstep with
  | ends o hc => cases o <;> cases hc
  | calls => exact ⟨rfl, rfl⟩
  | performs ha _ _ => cases ha
  | performsAlone ha _ => cases ha
  | opens ha _ => cases ha

/-- A handler function resumes the continuation that it owns, and goes on without it. -/
theorem resumes {place : ContId} {k : Kept P V σ}
    (h : Comes code opened around G
      (.returning (.value v) (k.resumed ++ .code n :: .owning place none :: parts)) calls) :
    Comes code opened around G (.running (.act (.continueWith place v) n) (.owning place (some k) :: parts))
      calls := by
  have hresumes : Step code opened around
      (.running (.act (.continueWith place v) n) (List.map .code [] ++ .owning place (some k) :: parts)) none
      (.returning (.value v) (k.resumed ++ .code n :: (List.map .code [] ++ .owning place none :: parts))) :=
    .resumes
  refine of_step hresumes (fun c q'' hstep => ?_) h
  generalize hps : .owning place (some k) :: parts = ps at hstep
  cases hstep with
  | ends o hc => cases o <;> cases hc
  | @resumes _ _ _ inside k' parts' =>
    cases inside with
    | nil =>
      obtain ⟨heq, rfl⟩ := List.cons.inj hps
      obtain ⟨-, rfl⟩ : place = place ∧ k = k' := by simpa using heq
      exact ⟨rfl, rfl⟩
    | cons _ inside => cases (List.cons.inj hps).1
  | performs ha _ _ => cases ha
  | performsAlone ha _ => cases ha
  | opens ha _ => cases ha

theorem opens {a : Act P V} {scope : Scope P} {body : P} (ha : a.opens? = some (scope, body))
    (hctx : opened scope.ctx.id) (h : Comes code opened around G
      (.running (code body .nothing) (.scope scope.ctx scope.clauses scope.goal :: .code n :: parts)) calls) :
    Comes code opened around G (.running (.act a n) parts) calls := by
  refine of_step (.opens ha hctx) (fun c q'' hstep => ?_) h
  cases hstep with
  | ends o hc => cases o <;> cases hc
  | opens ha' _ =>
    obtain ⟨rfl, rfl⟩ : _ ∧ _ := by simpa using ha.symm.trans ha'
    exact ⟨rfl, rfl⟩
  | performs ha' _ _ => exact absurd ha' (by cases a <;> cases ha <;> simp [Act.performed?])
  | performsAlone ha' _ => exact absurd ha' (by cases a <;> cases ha <;> simp [Act.performed?])
  | calls => cases ha
  | resumes => cases ha

theorem performs {a : Act P V} {ctx' : Context} {e : Effect} {b : Boxed V} {inside : List (Part P V σ)}
    (ha : a.performed? = some (ctx, e, b)) (hinside : ∀ x ∈ inside, x.isScope = false)
    (hctx : ctx'.id = ctx.id)
    (h : Comes code opened around G (.offering e b (.direct (.code n :: inside) ctx' clauses goal) parts) calls) :
    Comes code opened around G (.running (.act a n) (inside ++ .scope ctx' clauses goal :: parts)) calls := by
  refine of_step (.performs ha hinside hctx) (fun c q'' hstep => ?_) h
  rcases hstep.of_performed ha with ⟨inside', ctx'', clauses', goal', rest, heq, hinside', -, rfl, rfl⟩ |
      ⟨hno, -⟩
  · obtain ⟨rfl, rfl, rfl, rfl, rfl⟩ := split_unique hinside hinside' heq
    exact ⟨rfl, rfl⟩
  · rw [nearest_append hinside] at hno
    exact absurd (congrArg some hctx) hno

theorem performsAlone {a : Act P V} {e : Effect} {b : Boxed V} (ha : a.performed? = some (ctx, e, b))
    (hnearest : nearest around parts ≠ some ctx.id)
    (h : Comes code opened around G (.returning (.failure .noResumePoint) (.code n :: parts)) calls) :
    Comes code opened around G (.running (.act a n) parts) calls := by
  refine of_step (.performsAlone ha hnearest) (fun c q'' hstep => ?_) h
  rcases hstep.of_performed ha with ⟨inside', ctx'', clauses', goal', rest, rfl, hinside', hid, -⟩ |
      ⟨-, rfl, rfl⟩
  · rw [nearest_append hinside'] at hnearest
    exact absurd (congrArg some hid) hnearest
  · exact ⟨rfl, rfl⟩

/-- A handler function takes an effect. It is the only one that sees where the continuation is kept. -/
theorem function {e : Effect} {k : Kept P V σ} {p : P} (hlookup : k.clauses.lookup e = some (.function p))
    (h : ∀ place, Comes code opened around G
      (.running (code p (.performed v place)) (.owning place (some k) :: parts)) calls) :
    Comes code opened around G (.offering e (.datum v) k parts) (.function p v :: calls) := by
  refine of_steps (some (.function p v)) ⟨_, .function ⟨0⟩ hlookup⟩ fun c q'' hstep => ?_
  cases hstep with
  | function place hlookup' =>
    obtain rfl : p = _ := by simpa using hlookup.symm.trans hlookup'
    exact ⟨rfl, h place⟩
  | forwards hlookup' _ _ => cases hlookup.symm.trans hlookup'
  | unhandled hlookup' _ => cases hlookup.symm.trans hlookup'

theorem forwards {e : Effect} {b : Boxed V} {k : Kept P V σ} {inside : List (Part P V σ)}
    (hlookup : k.clauses.lookup e = none) (hinside : ∀ x ∈ inside, x.isScope = false)
    (hctx : ctx.id = k.ctx.id)
    (h : Comes code opened around G (.offering e b (.through k inside ctx clauses goal) parts) calls) :
    Comes code opened around G (.offering e b k (inside ++ .scope ctx clauses goal :: parts)) calls := by
  refine of_step (.forwards hlookup hinside hctx) (fun c q'' hstep => ?_) h
  rcases hstep.of_unbound hlookup with ⟨inside', ctx', clauses', goal', rest, heq, hinside', -, rfl, rfl⟩ |
      ⟨hno, -⟩
  · obtain ⟨rfl, rfl, rfl, rfl, rfl⟩ := split_unique hinside hinside' heq
    exact ⟨rfl, rfl⟩
  · rw [nearest_append hinside] at hno
    exact absurd (congrArg some hctx) hno

theorem unhandled {e : Effect} {b : Boxed V} {k : Kept P V σ} (hlookup : k.clauses.lookup e = none)
    (hnearest : nearest around parts ≠ some k.ctx.id)
    (h : Comes code opened around G (.returning (.failure (.unhandledEffect e)) parts) calls) :
    Comes code opened around G (.offering e b k parts) calls := by
  refine of_step (.unhandled hlookup hnearest) (fun c q'' hstep => ?_) h
  rcases hstep.of_unbound hlookup with ⟨inside', ctx', clauses', goal', rest, rfl, hinside', hid, -⟩ |
      ⟨-, rfl, rfl⟩
  · rw [nearest_append hinside'] at hnearest
    exact absurd (congrArg some hid) hnearest
  · exact ⟨rfl, rfl⟩

/-- A scope chooses an arm for an error. The arm does not see where the continuation is kept. -/
theorem arm {e : Effect} {cause : Cause} {k : Kept P V σ} {arms : Arms P} {p : P}
    (hlookup : k.clauses.lookup e = some (.arms arms)) (hselect : arms.select cause = some p)
    (h : ∀ place, Comes code opened around G
      (.running (code p (.raised cause)) (.owning place (some k) :: parts)) calls) :
    Comes code opened around G (.offering e (.raised cause) k parts) (.arm p cause :: calls) := by
  refine of_steps (some (.arm p cause)) ⟨_, .arm ⟨0⟩ hlookup hselect⟩ fun c q'' hstep => ?_
  cases hstep with
  | arm place hlookup' hselect' =>
    obtain rfl : arms = _ := by simpa using hlookup.symm.trans hlookup'
    obtain rfl : p = _ := by simpa using hselect.symm.trans hselect'
    exact ⟨rfl, h place⟩
  | raisesAgain _ hlookup' hselect' =>
    obtain rfl : arms = _ := by simpa using hlookup.symm.trans hlookup'
    cases hselect.symm.trans hselect'
  | forwards hlookup' _ _ => cases hlookup.symm.trans hlookup'
  | unhandled hlookup' _ => cases hlookup.symm.trans hlookup'

/-- No arm is chosen for an error, and the scope raises it again. -/
theorem raisesAgain {e : Effect} {cause : Cause} {k : Kept P V σ} {arms : Arms P}
    (hlookup : k.clauses.lookup e = some (.arms arms)) (hselect : arms.select cause = none)
    (h : ∀ place, Comes code opened around G
      (.running (.perform (.raise k.ctx cause)) (.owning place (some k) :: parts)) calls) :
    Comes code opened around G (.offering e (.raised cause) k parts) calls := by
  refine of_steps none ⟨_, .raisesAgain ⟨0⟩ hlookup hselect⟩ fun c q'' hstep => ?_
  cases hstep with
  | arm _ hlookup' hselect' =>
    obtain rfl : arms = _ := by simpa using hlookup.symm.trans hlookup'
    cases hselect.symm.trans hselect'
  | raisesAgain place _ _ => exact ⟨rfl, h place⟩
  | forwards hlookup' _ _ => cases hlookup.symm.trans hlookup'
  | unhandled hlookup' _ => cases hlookup.symm.trans hlookup'

end Comes

end Steps

end Strand

end OneShot
