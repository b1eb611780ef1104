import OneShot.Proofs.Chain
import OneShot.Proofs.Fair
import OneShot.Proofs.Severed

/-!
# Where an effect goes

An effect that a routine performs goes along the chain of scopes around the routine, up to the first
scope that binds it. That scope's handler function is called; no other handler function is called
for this perform, and the scopes before it are only passed through. If no scope of the chain binds the
effect, no handler function is called, and the call of the outermost scope fails. Without a scope
around it, the perform itself fails.

`Underway` describes an effect on its way, and `Arrives` the step with which it arrives.
`Underway.step` is about one step of the machine, and `Reaches.routed` about all runs in which the body
that performed is not resumed yet. It also says that the effect arrives in every fair run.
-/

namespace OneShot

variable {P V σ : Type}

/-- The context, the effect and its argument with which an operation suspends the body that runs. -/
def Act.performed? : Act P V → Option (Context × Effect × Boxed V)
  | .perform ctx e v => some (ctx, .declared e, .datum v)
  | .raise ctx cause => some (ctx, .exception, .raised cause)
  | _ => none

/-- What runs in a handler function when a clause takes an effect. -/
def Clause.entered (code : P → Entry V → Code P V σ V) (ctx : Context) :
    Clause P → Boxed V → ContId → Code P V σ V
  | .function p, .datum v, place => code p (.performed v place)
  | .arms choice, .raised c, _ =>
    match choice.select c with
    | some p => code p (.raised c)
    | none => .perform (.raise ctx c)
  | _, _, _ => .fail (.typeMismatch "argument")

namespace Machine

open Control

variable {code : P → Entry V → Code P V σ V} {m m₀ m₁ m' : Machine P V σ} {i j s t : RoutineId}
  {c : ContextId} {e : Effect} {b : Boxed V} {k : Cont} {l rest calls : List RoutineId} {y : Key}
  {d : Nat}

/-- Whether a scope binds an effect. -/
def binds (m : Machine P V σ) (e : Effect) (s : RoutineId) : Bool :=
  (m.routine s).scope.any fun scope => (scope.clauses.lookup e).isSome

/-- The scope whose handler function the next step calls with a continuation that resumes the body
`i`, if it calls one. -/
def callsFor (m : Machine P V σ) (i : RoutineId) : List RoutineId :=
  match m.ready with
  | [] => []
  | j :: _ =>
    match (m.routine j).control, (m.routine j).stack with
    | .returning (.value (.signal x)), .dispatch s :: _ =>
      match x.offer? s with
      | some (e, _, k) => if m.binds e s && k.keys.contains ⟨.datum, i⟩ then [s] else []
      | none => []
    | _, _ => []

/-- From the first machine to the second, the body `i` that waited is resumed. -/
def Answers (m m' : Machine P V σ) (i : RoutineId) : Prop :=
  (m.routine i).scope.isSome ∧ (m.routine i).status = .suspending ∧
    (m'.routine i).status = .running

/-- Runs in which the body `i` is not resumed, with the scopes whose handler functions are called on the
way with a continuation that resumes it. -/
inductive Unanswered (code : P → Entry V → Code P V σ V) (i : RoutineId) :
    Machine P V σ → Machine P V σ → List RoutineId → Prop where
  | refl (m : Machine P V σ) : Unanswered code i m m []
  | step {m m₁ m' : Machine P V σ} {calls : List RoutineId} (h : m.step code = some m₁)
    (hwaits : ¬ m.Answers m₁ i) (rest : Unanswered code i m₁ m' calls) :
    Unanswered code i m m' (m.callsFor i ++ calls)
  | turn {m m' : Machine P V σ} {calls : List RoutineId} (rest : Unanswered code i m.passTurn m' calls) :
    Unanswered code i m m' calls

theorem Unanswered.trans {calls' : List RoutineId} (h : Unanswered code i m m₁ calls)
    (h' : Unanswered code i m₁ m' calls') : Unanswered code i m m' (calls ++ calls') := by
  induction h with
  | refl m => exact h'
  | step hstep hwaits _ ih =>
    rw [List.append_assoc]
    exact .step hstep hwaits (ih h')
  | turn _ ih => exact .turn (ih h')

theorem Unanswered.reaches (h : Unanswered code i m m' calls) : Reaches code m m' := by
  induction h with
  | refl m => exact .refl m
  | step hstep _ _ ih => exact .step hstep ih
  | turn _ ih => exact .turn ih

/-- Routine `j` is about to take the signal of scope `s` which brings the effect `e` with the argument
`b` and the continuation `k`. The scopes `rest` are around `j`. -/
structure Travels (m : Machine P V σ) (c : ContextId) (e : Effect) (b : Boxed V) (k : Cont)
    (s j : RoutineId) (rest : List RoutineId) : Prop where
  signal : ∃ x, (m.routine j).control = .returning (.value (.signal x)) ∧
    x.offer? s = some (e, b, k)
  stack : ∃ st, (m.routine j).stack = .dispatch s :: st ∨
    ∃ p, (m.routine j).stack = .registered p s :: .dispatch s :: st
  scope : ∃ scope, (m.routine s).scope = some scope ∧ scope.ctx.id = c
  chain : m.Chain c j rest

/-- In the call of scope `s`, routine `j` has not found anyone to forward an effect to. -/
structure Strands (m : Machine P V σ) (e : Effect) (s j : RoutineId) : Prop where
  control : (m.routine j).control = .returning (.failure .noResumePoint)
  stack : ∃ d t st, (m.routine j).stack = .forwarding e :: .nested d t :: .holding s :: st

/-- How many steps routine `j` makes before it takes the signal that it has. -/
def delay (m : Machine P V σ) (j : RoutineId) : Nat :=
  match (m.routine j).stack with
  | .registered _ _ :: _ => 1
  | _ => 0

/-- An effect that routine `i` performs on context `c`, with the scopes `l` around it, is on its way:
routine `j` has it next. The scopes that it has passed do not bind it in machine `m₀`. The number bounds
the steps with the effect that are still to come. -/
inductive Underway (m₀ m : Machine P V σ) (c : ContextId) (e : Effect) (b : Boxed V)
    (i : RoutineId) (l : List RoutineId) : RoutineId → Nat → Prop where
  /-- It is still to be performed. -/
  | performs (ctx : Context) (a : Act P V) (next : Outcome V V → Code P V σ V) (hctx : ctx.id = c)
    (control : (m.routine i).control = .running (.act a next))
    (ha : a.performed? = some (ctx, e, b)) (chain : m.Chain c i l) :
    Underway m₀ m c e b i l i (2 * l.length + 2)
  /-- It has come to scope `s`. -/
  | travels (l₁ : List RoutineId) (s : RoutineId) (rest : List RoutineId) (k : Cont) (j : RoutineId)
    (hl : l = l₁ ++ s :: rest) (unbound : ∀ t ∈ l₁, m₀.binds e t = false)
    (path : k.keys.map (·.scope) = (l₁ ++ [s]).reverse) (origin : ⟨.datum, i⟩ ∈ k.keys)
    (h : m.Travels c e b k s j rest) :
    Underway m₀ m c e b i l j (2 * rest.length + 2 + m.delay j)
  /-- It has passed all scopes. -/
  | strands (l₁ : List RoutineId) (s j : RoutineId) (hl : l = l₁ ++ [s])
    (unbound : ∀ t ∈ l, m₀.binds e t = false) (h : m.Strands e s j) (severed : m.Severed i) :
    Underway m₀ m c e b i l j 1

/-- A step of routine `j` calls the handler function of scope `s` for an effect. The handler function
owns the continuation. -/
structure Enters (code : P → Entry V → Code P V σ V) (m m' : Machine P V σ) (e : Effect)
    (b : Boxed V) (k : Cont) (s j : RoutineId) : Prop where
  enters : ∃ scope clause place st, (m.routine s).scope = some scope ∧
    scope.clauses.lookup e = some clause ∧ (m.routine j).stack = .dispatch s :: st ∧
    (m'.routine j).stack = .owning place :: st ∧
    (m'.routine j).control = .running (clause.entered code scope.ctx b place) ∧
    m'.conts.getD place.val none = some k

/-- The step with which an effect arrives that routine `i` performed with the scopes `l` around it. -/
inductive Arrives (code : P → Entry V → Code P V σ V) (m₀ m m' : Machine P V σ) (e : Effect)
    (b : Boxed V) (i : RoutineId) (l : List RoutineId) : List RoutineId → Prop where
  /-- The first scope that binds the effect calls its handler function. The continuation goes
  through all scopes up to there. Their bodies are suspended, so none of them has come to a value. -/
  | handled (l₁ : List RoutineId) (s : RoutineId) (rest : List RoutineId) (k : Cont) (j : RoutineId)
    (hl : l = l₁ ++ s :: rest) (unbound : ∀ t ∈ l₁, m₀.binds e t = false)
    (bound : m₀.binds e s = true) (enters : m.Enters code m' e b k s j)
    (path : k.keys.map (·.scope) = (l₁ ++ [s]).reverse)
    (suspended : ∀ t ∈ l₁ ++ [s], (m'.routine t).status = .suspending) : Arrives code m₀ m m' e b i l [s]
  /-- No scope binds the effect, and the call of the outermost one fails. -/
  | unhandled (l₁ : List RoutineId) (s j : RoutineId) (hl : l = l₁ ++ [s])
    (unbound : ∀ t ∈ l, m₀.binds e t = false)
    (control : (m'.routine j).control = .returning (.failure (.unhandledEffect e)))
    (stack : ∃ d t st, (m'.routine j).stack = .nested d t :: .holding s :: st) :
    Arrives code m₀ m m' e b i l []
  /-- There is no scope, and the perform fails. -/
  | alone (hl : l = []) (control : (m'.routine i).control = .returning (.failure .noResumePoint))
    (stack : ∃ next st, (m.routine i).stack = st ∧
      (m'.routine i).stack = .performing :: .next next :: st) : Arrives code m₀ m m' e b i l []

/-! ## Who brings a way to resume -/

/-- Who has an effect next brings the ways to resume that are in its continuation. -/
theorem Travels.offers (ht : m.Travels c e b k s j rest) (h : m.Sound) (hy : y ∈ k.keys) :
    m.Offers j y := by
  obtain ⟨x, hc, hx⟩ := ht.signal
  have hposture := h.linked.posture j (by simp)
  simp only [Routine.Posture, hc] at hposture
  obtain ⟨st, hst⟩ := ht.stack
  have hawaited : awaitedScope? (m.routine j).stack = some s := by
    rcases hst with hst | ⟨p, hst⟩
    · rw [hst]
      rfl
    · rw [hst] at hposture ⊢
      cases p with
      | registry r => exact absurd hposture.2 (not_settled rfl rfl)
      | context d => rfl
  have hsignal : (Outcome.value (.signal x) : Outcome V (Parcel V)).IsSignal := by
    rcases hst with hst | ⟨p, hst⟩
    · rw [hst] at hposture
      exact hposture.1
    · rw [hst] at hposture
      cases p with
      | registry r => exact hposture.1.elim
      | context d =>
        obtain ⟨-, -, hsignal, -⟩ := hposture
        exact hsignal
  obtain ⟨q, hneed, hkeys, -⟩ := Signal.of_offer hx hsignal
  rw [hkeys] at hy
  rcases List.mem_cons.1 hy with rfl | hy
  · apply Or.inr
    simp [Routine.pending?, hc, Control.need?, Outcome.signal?, hneed, hawaited]
  · exact .inl ⟨x, hc, hy⟩

theorem Travels.isActive (h : m.Travels c e b k s j rest) :
    (m.routine j).control.isActive = true := by
  obtain ⟨x, hc, -⟩ := h.signal
  rw [hc]
  rfl

/-- Who calls a handler function brings the continuation. -/
theorem Sound.offers_of_callsFor (h : m.Sound) (hs : s ∈ m.callsFor i) :
    ∃ j ready, m.ready = j :: ready ∧ m.Offers j ⟨.datum, i⟩ := by
  unfold callsFor at hs
  split at hs
  · cases hs
  · next j ready hready =>
    refine ⟨j, ready, hready, ?_⟩
    split at hs
    · next x t st hc hst =>
      split at hs
      · next e b k hx =>
        split at hs
        · next hcond =>
          have hmem : (⟨.datum, i⟩ : Key) ∈ k.keys := by
            simp only [Bool.and_eq_true, List.contains_iff_mem] at hcond
            exact hcond.2
          have hposture := h.linked.posture j (by simp)
          simp only [Routine.Posture, hc, hst, Fits] at hposture
          obtain ⟨q, hneed, hkeys, -⟩ := Signal.of_offer hx hposture.1
          rw [hkeys] at hmem
          rcases List.mem_cons.1 hmem with heq | hmem
          · apply Or.inr
            simp [Routine.pending?, hc, Control.need?, Outcome.signal?, hneed, hst, awaitedScope?,
              heq]
          · exact .inl ⟨x, hc, hmem⟩
        · cases hs
      · cases hs
    · cases hs

/-- A machine calls no handler function for a body unless the first routine that is ready brings the way
to resume the body. -/
theorem Sound.callsFor_eq_nil (h : m.Sound)
    (hno : ∀ j ready, m.ready = j :: ready → ¬ m.Offers j ⟨.datum, i⟩) : m.callsFor i = [] := by
  apply List.eq_nil_iff_forall_not_mem.2
  intro s hs
  obtain ⟨j, ready, hready, hj⟩ := h.offers_of_callsFor hs
  exact hno j ready hready hj

/-- Before a body is resumed, a way to resume it that nobody brings does not turn up again. -/
theorem Sound.not_offers_step (h : m.Sound) (hstep : m.step code = some m')
    (hs : (m.routine i).scope.isSome) (hst : (m.routine i).status ≠ .running)
    (hwaits : ¬ m.Answers m' i) (hno : ∀ j, ¬ m.Offers j ⟨.datum, i⟩) :
    (m'.routine i).status ≠ .running ∧ ∀ j, ¬ m'.Offers j ⟨.datum, i⟩ := by
  have hbody := h.bodyStep hstep hs
  have hst' : (m'.routine i).status ≠ .running := by
    cases hbody with
    | goes hstatus => rw [hstatus]; exact hst
    | suspends hstatus _ => exact absurd hstatus hst
    | answered hstatus hstatus' => exact absurd ⟨hs, hstatus, hstatus'⟩ hwaits
    | ends o _ hstatus' _ =>
      rw [hstatus']
      intro heq
      have hterminal := terminal_ending o (m.routine i).status
      rw [heq] at hterminal
      cases hterminal
    | givenUp hgives => rw [hgives.canceled]; simp
  refine ⟨hst', fun j hj => ?_⟩
  obtain ⟨x, -, -, ⟨hx, -, hf⟩ | ⟨-, rfl⟩⟩ := h.step_cases hstep
  · rcases hf.influences.offered j _ hj with hold | ⟨-, ⟨t, ht⟩ | hix⟩
    · exact hno j hold
    · exact hno t ht
    · -- Only a body that runs is suspended with a signal.
      obtain rfl : i = x := hix
      have hwaits' := (h.step hstep).waits_of_offers hj
      have hphase := h.linked.phase i hs
      have hterminal : (m.routine i).status.isTerminal = true := by
        cases hcase : (m.routine i).status with
        | notRunning => exact absurd hcase hphase.begun
        | running => exact absurd hcase hst
        | suspending =>
          exact absurd (hphase.suspending hcase).2.2.1 (Control.ne_reading_of_isActive hx i)
        | _ => rfl
      have hsuspending : (m'.routine i).status = .suspending := hwaits'.2.1
      rcases hbody.status_of_isTerminal hterminal with heq | ⟨-, heq⟩
      · rw [← heq, hsuspending] at hterminal
        cases hterminal
      · cases hsuspending.symm.trans heq
  · exact hno j hj

/-- Before a body is resumed, no handler function is called any more for which nobody brings a way to
resume the body. -/
theorem Unanswered.calls_eq_nil (h : Unanswered code i m m' calls) (hm : m.Sound)
    (hs : (m.routine i).scope.isSome) (hst : (m.routine i).status ≠ .running)
    (hno : ∀ j, ¬ m.Offers j ⟨.datum, i⟩) : calls = [] := by
  induction h with
  | refl m => rfl
  | @step m m₁ m' calls hstep hwaits _ ih =>
    have hcalls : m.callsFor i = [] := hm.callsFor_eq_nil fun j _ _ => hno j
    obtain ⟨hst₁, hno₁⟩ := hm.not_offers_step hstep hs hst hwaits hno
    rw [hcalls, ih (hm.step hstep) (hm.isSome_step hstep hs) hst₁ hno₁]
    rfl
  | @turn m m' calls _ ih =>
    refine ih hm.passTurn ?_ ?_ ?_
    · rwa [routine_passTurn]
    · rwa [routine_passTurn]
    · intro j
      have hsame : m.passTurn.Offers j ⟨.datum, i⟩ ↔ m.Offers j ⟨.datum, i⟩ := by
        unfold Offers
        rw [routine_passTurn]
      rw [hsame]
      exact hno j

/-! ## Steps with an effect -/

/-- Suspending a body gives the signal to the routine that resumes it. Without one it fails, and nobody
can resume the bodies any more that the signal would have resumed. -/
theorem AtWork.suspend_cases {x : Signal V} (h : m.AtWork i x.keys [] []) (ctx : Context) :
    (∃ j, m.Resumes ctx.id j i ∧ i ≠ j ∧ (m.suspend i ctx.place (.signal x)).routine j =
        (m.routine j).told (.value (.signal x))) ∨
      (∀ j, ¬ m.Resumes ctx.id j i) ∧
        ((m.suspend i ctx.place (.signal x)).routine i).control =
          .returning (.failure .noResumePoint) ∧
        ((m.suspend i ctx.place (.signal x)).routine i).stack = (m.routine i).stack ∧
        ∀ y ∈ x.keys, (m.suspend i ctx.place (.signal x)).Severed y.scope := by
  by_cases hentry : i ∈ (m.registry ctx.place).items
  · obtain ⟨scope, j, hscope, hplace, hstatus, hinbox, hout, hcontrol, hne, hmain⟩ :=
      h.listened hentry
    have hj : j.val < m.routines.size := lt_of_ne_ended (by simp [hcontrol])
    have hr := routine_suspend (a := .signal x) hmain hentry hstatus hinbox hout hne h.lt hj j
    rw [if_neg hne.symm, if_pos rfl] at hr
    exact .inl ⟨j, ⟨⟨scope, hscope, (Place.context.inj hplace).symm⟩, hout⟩, hne, hr⟩
  · apply Or.inr
    obtain ⟨hwork, hfades⟩ : (m.releaseParcel (.signal x)).AtWork i [] [] [] ∧
        m.Fades (m.releaseParcel (.signal x)) := AtWork.releaseParcel (by simpa using h)
    have hself : ∀ o, ((m.releaseParcel (.signal x)).reply i o).routine i =
        { (m.releaseParcel (.signal x)).routine i with control := .returning o } :=
      fun o => routine_update_self hwork.lt _
    refine ⟨fun j hj => hentry (h.mem_registry hj), ?_⟩
    rw [suspend_of_notMem hentry]
    refine ⟨?_, ?_, fun y hy => h.severed hfades hy _⟩
    · rw [fail, hself]
    · rw [fail, hself]
      exact (hfades.routine i).stack

/-- Whoever resumes the body that hands an effect out has the effect next. -/
theorem Follows.travels (hf : m.Follows i m') (h : m.Sound)
    (hactive : (m.routine i).control.isActive = true) {x : Signal V}
    (hx : x.offer? i = some (e, b, k)) (hres : m.Resumes c j i) (hchain : m.Chain c j rest)
    (hne : i ≠ j) {r : Routine P V σ} (hstack : r.stack = (m.routine j).stack)
    (htold : m'.routine j = r.told (.value (.signal x))) : m'.Travels c e b k i j rest := by
  have hlistening := hres.listening h.linked
  obtain ⟨⟨scope, hscope, hid⟩, -⟩ := hres
  obtain ⟨scope', hscope', hages⟩ := hf.influences.own.exists_scope hscope
  obtain ⟨-, st, hst, -⟩ := h.linked.takesSignals hscope hlistening
  constructor
  · exact ⟨x, by rw [htold]; rfl, hx⟩
  · refine ⟨st, .inr ⟨scope.ctx.place, ?_⟩⟩
    rw [htold]
    exact hstack.trans hst
  · exact ⟨scope', hscope', hages.ctx ▸ hid⟩
  · refine hf.chain h hactive hchain hne.symm (lt_of_ne_ended ?_) ?_
    · rw [hlistening]
      simp
    · rw [hlistening]
      simp

/-- An effect that a body hands out goes to the routine that resumes the body. Where nobody does, the
body gets a failure, and the continuation is given up. In `m₁` the body has got new frames. -/
theorem Sound.step_offers (h : m.Sound) (hactive : (m.routine i).control.isActive = true)
    {ctx : Context} {x : Signal V} (hx : x.offer? i = some (e, b, k)) {fs : List (Frame P V σ)}
    (hwork : m₁.AtWork i x.keys [] []) (hself : m₁.routine i = { m.routine i with stack := fs })
    (hstacks : ∀ j, j ≠ i → (m₁.routine j).stack = (m.routine j).stack)
    (hchain : m.Chain ctx.id i l) (hf : m.Follows i (m₁.suspend i ctx.place (.signal x))) :
    (∃ j rest, l = i :: rest ∧ (m.routine j).control = .listening i ∧
        (m₁.suspend i ctx.place (.signal x)).Travels ctx.id e b k i j rest) ∨
      l = [] ∧ ((m₁.suspend i ctx.place (.signal x)).routine i).control =
          .returning (.failure .noResumePoint) ∧
        ((m₁.suspend i ctx.place (.signal x)).routine i).stack = fs ∧
        ∀ y ∈ x.keys, (m₁.suspend i ctx.place (.signal x)).Severed y.scope := by
  have hresumes : ∀ j, m₁.Resumes ctx.id j i ↔ m.Resumes ctx.id j i := by
    intro j
    unfold Resumes
    rw [hself]
  rcases hwork.suspend_cases ctx with ⟨j, hj, hne, htold⟩ | ⟨hnone, hcontrol, hstack, hsevered⟩
  · have hres := (hresumes j).1 hj
    cases hchain with
    | stop hstop => exact absurd hres (hstop j)
    | @scope _ j' rest hr' hrest =>
      obtain rfl : j' = j := Slot.awaited.inj (hr'.2.symm.trans hres.2)
      exact .inl ⟨j', rest, rfl, hres.listening h.linked,
        hf.travels h hactive hx hres hrest hne (hstacks j' hne.symm) htold⟩
  · cases hchain with
    | stop _ => exact .inr ⟨rfl, hcontrol, by rw [hstack, hself], hsevered⟩
    | scope hr' _ => exact absurd ((hresumes _).2 hr') (hnone _)

variable (code) in
/-- A perform puts its frame on the stack, and hands the effect out. -/
theorem stepOf_performs {ctx : Context} {a : Act P V} {next : Outcome V V → Code P V σ V}
    (hc : (m.routine i).control = .running (.act a next)) (ha : a.performed? = some (ctx, e, b)) :
    m.stepOf code i = ((m.pushFrame i (.next next)).pushFrame i .performing).suspend i
      ctx.place (.signal (.perform e b)) := by
  rw [stepOf_act hc]
  cases a with
  | perform ctx' e' v =>
    obtain ⟨rfl, rfl, rfl⟩ : _ ∧ _ ∧ _ := by simpa [Act.performed?] using ha
    rfl
  | raise ctx' cause =>
    obtain ⟨rfl, rfl, rfl⟩ : _ ∧ _ ∧ _ := by simpa [Act.performed?] using ha
    rfl
  | _ => cases ha

/-- The effect that a routine performs goes to the routine that resumes its body. -/
theorem Sound.step_performs (h : m.Sound) {ctx : Context} {a : Act P V}
    {next : Outcome V V → Code P V σ V} (hc : (m.routine i).control = .running (.act a next))
    (ha : a.performed? = some (ctx, e, b)) (hchain : m.Chain ctx.id i l)
    (hf : m.Follows i (m.stepOf code i)) :
    (∃ j rest, l = i :: rest ∧ (m.routine j).control = .listening i ∧
        (m.stepOf code i).Travels ctx.id e b (.direct i) i j rest) ∨
      l = [] ∧ ((m.stepOf code i).routine i).control = .returning (.failure .noResumePoint) ∧
        ((m.stepOf code i).routine i).stack = .performing :: .next next :: (m.routine i).stack := by
  have hactive : (m.routine i).control.isActive = true := by rw [hc]; rfl
  have hi := lt_of_isActive hactive
  have hst : Settled (m.routine i).role (m.routine i).stack := by
    have hp := h.linked.posture i (by simp)
    simpa only [Routine.Posture, hc] using hp
  have hwork := h.worksSettled hactive (by rw [hc]; rfl) hst
  have hwork₁ := hwork.pushFrame (f := .next next) (fun _ => rfl) (fun _ => rfl)
  have hwork₂ := hwork₁.pushFrame (f := .performing) (fun _ => rfl) (fun _ => rfl)
  have heq := stepOf_performs code hc ha
  have hself : ((m.pushFrame i (.next next)).pushFrame i .performing).routine i =
      { m.routine i with stack := .performing :: .next next :: (m.routine i).stack } := by
    rw [Machine.pushFrame, routine_update_self (by simpa [Machine.pushFrame] using hi),
      Machine.pushFrame, routine_update_self hi]
  rw [heq] at hf ⊢
  rcases h.step_offers (x := .perform e b) hactive rfl hwork₂.atWork hself
    (fun j hj => hwork₂.beside.stack j hj) hchain hf with htravels | ⟨hl, hcontrol, hstack, -⟩
  · exact .inl htravels
  · exact .inr ⟨hl, hcontrol, hstack⟩

/-- A handler function that is called owns the continuation. -/
theorem routine_callOwning (hi : i.val < m.routines.size) (k : Cont) (f : ContId → Code P V σ V) :
    ∃ place, (m.callOwning i k f).routine i =
        { m.routine i with stack := .owning place :: (m.routine i).stack, control := .running (f place) } ∧
      (m.callOwning i k f).conts.getD place.val none = some k := by
  refine ⟨⟨m.conts.size⟩, ?_, ?_⟩
  · show (((m.keepCont k).2.pushFrame i (.owning ⟨m.conts.size⟩)).setControl i
      (.running (f ⟨m.conts.size⟩))).routine i = _
    have hi' : i.val < (m.keepCont k).2.routines.size := hi
    rw [setControl, routine_update_self (by simpa [Machine.pushFrame] using hi'),
      Machine.pushFrame, routine_update_self hi']
    rfl
  · show (m.conts.push (some k)).getD m.conts.size none = some k
    simp [Array.getD]

/-- The scope takes an effect that it binds, or gives it to the routine that resumes the body around
it. -/
theorem Travels.step_takes {st : List (Frame P V σ)} (ht : m.Travels c e b k s j rest)
    (h : m.Sound) (hst : (m.routine j).stack = .dispatch s :: st)
    (hf : m.Follows j (m.stepOf code j)) :
    m.binds e s = true ∧ m.Enters code (m.stepOf code j) e b k s j ∨
      m.binds e s = false ∧
        ((∃ j' rest', rest = j :: rest' ∧ (m.routine j').control = .listening j ∧
            (m.stepOf code j).Travels c e b (.through j k) j j' rest') ∨
          rest = [] ∧ (m.stepOf code j).Strands e s j ∧
            ∀ y ∈ k.keys, (m.stepOf code j).Severed y.scope) := by
  obtain ⟨x, hc, hx⟩ := ht.signal
  obtain ⟨scope, hscope, hid⟩ := ht.scope
  have hj : j.val < m.routines.size := lt_of_isActive ht.isActive
  obtain ⟨hwork, hsome, hne, hsuits, hentered, -⟩ := h.worksOffer hc hst hx
  -- The machine in the middle of the step.
  set m₂ := (m.update j fun r => { r with stack := st }).hold s with hm₂
  have hself : m₂.routine j = { m.routine j with stack := st } := by
    rw [hm₂, hold, routine_update_of_ne hne, routine_update_self hj]
  rw [show m.stepOf code j = m₂.claim code j scope e b k from stepOf_claims code hc hst hscope hx] at hf ⊢
  unfold Machine.claim at hf ⊢
  cases hlookup : scope.clauses.lookup e with
  | some clause =>
    have hbinds : m.binds e s = true := by simp [binds, hscope, hlookup]
    refine .inl ⟨hbinds, ?_⟩
    have hsuits' := h.linked.suits_of_lookup hscope hlookup
    -- The clause suits the effect, and so does the argument.
    have hcalls : ∀ f : ContId → Code P V σ V,
        (∀ place, f place = clause.entered code scope.ctx b place) →
          m.Enters code (m₂.callOwning j k f) e b k s j := by
      intro f hcode
      obtain ⟨place, hr, hplace⟩ := routine_callOwning hwork.lt k f
      refine ⟨scope, clause, place, st, hscope, hlookup, hst, ?_, ?_, hplace⟩
      · rw [hr, hself]
      · rw [hr, hcode place]
    cases e with
    | declared d =>
      cases clause with
      | function p => cases b <;> first | exact hcalls _ fun _ => rfl | exact False.elim hsuits
      | arms choice => exact False.elim hsuits'
    | exception =>
      cases clause with
      | function p => exact False.elim hsuits'
      | arms choice => cases b <;> first | exact hcalls _ fun _ => rfl | exact False.elim hsuits
  | none =>
    have hbinds : m.binds e s = false := by simp [binds, hscope, hlookup]
    refine .inr ⟨hbinds, ?_⟩
    simp only [hlookup] at hf ⊢
    have hwork₃ := hwork.pushFrame (f := .forwarding e) (fun _ => rfl) (fun _ => rfl)
    have hself₃ : (m₂.pushFrame j (.forwarding e)).routine j =
        { m.routine j with stack := .forwarding e :: st } := by
      rw [Machine.pushFrame, routine_update_self hwork.lt, hself]
    rw [← hid]
    rcases h.step_offers (x := .forward e b k) ht.isActive rfl hwork₃.atWork hself₃
      (fun l hl => hwork₃.beside.stack l hl) (hid ▸ ht.chain) hf with
      htravels | ⟨hrest, hcontrol, hstack, hsevered⟩
    · exact .inl htravels
    · obtain ⟨d, t, st', rfl, -⟩ := hentered.exists_eq
      exact .inr ⟨hrest, ⟨hcontrol, d, t, st', hstack⟩, hsevered⟩

/-- The entry of the resume is withdrawn before the signal is taken. -/
theorem Travels.step_withdraws {p : Place} {st : List (Frame P V σ)}
    (ht : m.Travels c e b k s j rest) (h : m.Sound)
    (hst : (m.routine j).stack = .registered p s :: .dispatch s :: st)
    (hf : m.Follows j (m.stepOf code j)) :
    (m.stepOf code j).Travels c e b k s j rest ∧ (m.stepOf code j).delay j < m.delay j := by
  obtain ⟨x, hc, hx⟩ := ht.signal
  have hj : j.val < m.routines.size := lt_of_isActive ht.isActive
  have hr : (m.stepOf code j).routine j =
      { m.routine j with stack := .dispatch s :: st, control := .returning (.value (.signal x)) } := by
    rw [stepOf_returning hc hst]
    show ((((m.update j _).setRegistry p _).reply j _).routine j) = _
    rw [reply, setControl, routine_update_self (by simpa using hj), routine_setRegistry,
      routine_update_self hj]
  obtain ⟨scope, hscope, hid⟩ := ht.scope
  refine ⟨?_, by simp [delay, hr, hst]⟩
  constructor
  · exact ⟨x, by rw [hr], hx⟩
  · exact ⟨st, .inl (by rw [hr])⟩
  · by_cases hsj : s = j
    · exact ⟨scope, by rw [hsj, hr, ← hsj]; exact hscope, hid⟩
    · have habides := hf.influences.abides s hsj (lt_of_scope (by rw [hscope]; rfl))
      obtain ⟨scope', hscope', hages⟩ := habides.exists_scope hscope
      exact ⟨scope', hscope', hages.ctx ▸ hid⟩
  · refine hf.chain_self h ht.isActive ?_ ht.chain
    rw [hr]
    rfl

/-- The steps of other routines do not concern an effect on its way. -/
theorem Travels.stay (ht : m.Travels c e b k s j rest) (h : m.Sound) (hf : m.Follows i m')
    (hi : (m.routine i).control.isActive = true) (hne : j ≠ i) : m'.Travels c e b k s j rest := by
  obtain ⟨hcontrol, hstack⟩ := hf.routine_of_isActive h hne ht.isActive
  obtain ⟨x, hc, hx⟩ := ht.signal
  obtain ⟨st, hst⟩ := ht.stack
  obtain ⟨scope, hscope, hid⟩ := ht.scope
  constructor
  · exact ⟨x, hcontrol.trans hc, hx⟩
  · exact ⟨st, by rwa [hstack]⟩
  · have habides : (m.routine s).Abides (m'.routine s) := by
      by_cases hsi : s = i
      · exact hsi ▸ hf.influences.own
      · exact hf.influences.abides s hsi (lt_of_scope (by rw [hscope]; rfl))
    obtain ⟨scope', hscope', hages⟩ := habides.exists_scope hscope
    exact ⟨scope', hscope', hages.ctx ▸ hid⟩
  · exact hf.chain h hi ht.chain hne (lt_of_isActive ht.isActive)
      (Control.ne_reading_of_isActive ht.isActive j)

/-- In the step after the last scope was passed, its call fails. -/
theorem Strands.step (code : P → Entry V → Code P V σ V) (hs : m.Strands e s j) :
    ((m.stepOf code j).routine j).control = .returning (.failure (.unhandledEffect e)) ∧
      ∃ d t st, ((m.stepOf code j).routine j).stack = .nested d t :: .holding s :: st := by
  obtain ⟨d, t, st, hst⟩ := hs.stack
  have hj : j.val < m.routines.size := lt_of_ne_ended (by rw [hs.control]; simp)
  have hr : (m.stepOf code j).routine j = { m.routine j with
      stack := .nested d t :: .holding s :: st,
      control := .returning (.failure (.unhandledEffect e)) } := by
    rw [stepOf_returning hs.control hst]
    show (((m.update j _).fail j _).routine j) = _
    rw [fail, reply, setControl, routine_update_self (by simpa using hj), routine_update_self hj]
  exact ⟨by rw [hr], d, t, st, by rw [hr]⟩

/-- The chain of scopes depends on the routines only. -/
theorem Chain.congr (hr : ∀ j, m'.routine j = m.routine j) (h : m.Chain c i l) : m'.Chain c i l := by
  induction h with
  | stop hstop =>
    refine .stop fun j hj => hstop j ?_
    rwa [Resumes, hr] at hj
  | scope hres _ ih =>
    refine .scope ?_ ih
    rwa [Resumes, hr]

/-- Scopes are handled bodies. -/
theorem Chain.isSome (h : m.Chain c i l) (ht : t ∈ l) : (m.routine t).scope.isSome := by
  induction h with
  | stop _ => cases ht
  | scope hres _ ih =>
    rcases List.mem_cons.1 ht with rfl | ht
    · obtain ⟨⟨scope, hscope, -⟩, -⟩ := hres
      rw [hscope]
      rfl
    · exact ih ht

/-- A scope binds the same effects in the course of a run. -/
theorem Reaches.binds (hr : Reaches code m m') (h : m.Sound) (hs : (m.routine s).scope.isSome) :
    m'.binds e s = m.binds e s := by
  obtain ⟨scope, hscope⟩ := Option.isSome_iff_exists.1 hs
  obtain ⟨scope', hscope', hages⟩ := (hr.abides h (lt_of_scope hs)).exists_scope hscope
  rw [Machine.binds, Machine.binds, hscope, hscope', Option.any_some, Option.any_some,
    hages.clauses]

theorem mem_kept {place : ContId} (h : m.conts.getD place.val none = some k) (hy : y ∈ k.keys) :
    y ∈ m.kept := by
  unfold kept
  refine List.mem_flatMap.2 ⟨some k, ?_, hy⟩
  have hlt : place.val < m.conts.size := by
    by_contra hge
    simp [Array.getD, hge] at h
  have hget : m.conts[place.val] = some k := by simpa [Array.getD, hlt] using h
  rw [← hget]
  exact Array.mem_toList_iff.2 (Array.getElem_mem hlt)

/-- The bodies wait to which a continuation goes that is kept. -/
theorem Sound.suspending_of_kept (h : m.Sound) {place : ContId}
    (hk : m.conts.getD place.val none = some k) (ht : t ∈ k.keys.map (·.scope)) :
    (m.routine t).status = .suspending := by
  obtain ⟨y, hy, rfl⟩ := List.mem_map.1 ht
  have hw : m.Waits y := by
    refine h.counted.waits y ?_
    have hpos : 0 < m.kept.count y := List.count_pos_iff.2 (mem_kept hk hy)
    unfold tokens
    omega
  exact hw.2.1

/-- The handler functions that are called when a scope takes an effect. -/
theorem callsFor_of_dispatch {ready : List RoutineId} {x : Signal V} {st : List (Frame P V σ)}
    (hready : m.ready = j :: ready)
    (hc : (m.routine j).control = .returning (.value (.signal x)))
    (hst : (m.routine j).stack = .dispatch s :: st) (hx : x.offer? s = some (e, b, k))
    (horigin : ⟨.datum, i⟩ ∈ k.keys) : m.callsFor i = if m.binds e s then [s] else [] := by
  unfold callsFor
  rw [hready]
  dsimp only
  rw [hc, hst]
  dsimp only
  rw [hx]
  simp [horigin]

theorem delay_le (m : Machine P V σ) (j : RoutineId) : m.delay j ≤ 1 := by
  unfold delay
  split <;> omega

theorem delay_congr (hst : (m'.routine j).stack = (m.routine j).stack) : m'.delay j = m.delay j := by
  unfold delay
  rw [hst]

theorem Underway.congr (hr : ∀ j, m'.routine j = m.routine j) (hconts : m'.conts = m.conts)
    (hu : Underway m₀ m c e b i l j d) : Underway m₀ m' c e b i l j d := by
  cases hu with
  | performs ctx a next hctx control ha chain =>
    exact .performs ctx a next hctx (by rw [hr]; exact control) ha (chain.congr hr)
  | travels l₁ s rest k j hl unbound path origin h =>
    have hst : (m'.routine j).stack = (m.routine j).stack := by rw [hr]
    rw [← delay_congr hst]
    refine .travels l₁ s rest k j hl unbound path origin ⟨?_, ?_, ?_, h.chain.congr hr⟩
    · rw [hr]
      exact h.signal
    · rw [hr]
      exact h.stack
    · rw [hr]
      exact h.scope
  | strands l₁ s j hl unbound h severed =>
    refine .strands l₁ s j hl unbound ⟨?_, ?_⟩ (severed.congr hr hconts)
    · rw [hr]
      exact h.control
    · rw [hr]
      exact h.stack

/-- The routine that has an effect next can go on. -/
theorem Underway.isActive (hu : Underway m₀ m c e b i l j d) :
    (m.routine j).control.isActive = true := by
  cases hu with
  | performs ctx a next _ control _ _ => rw [control]; rfl
  | travels l₁ s rest k j _ _ _ _ h => exact h.isActive
  | strands l₁ s j _ _ h _ => rw [h.control]; rfl

/-- An effect that arrives is over: no other handler function will be called for it. -/
def Settles (m : Machine P V σ) (i : RoutineId) : Prop :=
  (m.routine i).status ≠ .running ∧ ∀ j, ¬ m.Offers j ⟨.datum, i⟩

/-- The body waits whose effect has come to a scope. -/
theorem Travels.status_ne (ht : m.Travels c e b k s j rest) (h : m.Sound)
    (origin : ⟨.datum, i⟩ ∈ k.keys) : (m.routine i).status ≠ .running := by
  rw [show (m.routine i).status = .suspending from (h.waits_of_offers (ht.offers h origin)).2.1]
  simp

/-- A routine that has an effect next, and then does something else than to wait as a body, was the only
one that brought it. -/
theorem Travels.not_offers (ht : m.Travels c e b k s j rest) (h : m.Sound)
    (origin : ⟨.datum, i⟩ ∈ k.keys) (hf : m.Follows j m') (hc : (m'.routine j).control ≠ .reading j)
    (hx : ∀ x, (m'.routine j).control ≠ .returning (.value (.signal x))) (t : RoutineId) :
    ¬ m'.Offers t ⟨.datum, i⟩ := by
  intro hoff
  rcases hf.influences.offered t _ hoff with hold | ⟨hreading, -⟩
  · obtain rfl : t = j := h.offers_unique hold (ht.offers h origin)
    exact OneShot.Machine.not_offers hx hoff
  · exact hc hreading

/-- A body that can go on is not resumed. -/
theorem Sound.not_answers (h : m.Sound) (hi : (m.routine i).control.isActive = true) :
    ¬ m.Answers m' i := fun ⟨hs, hst, _⟩ =>
  Control.ne_reading_of_isActive hi i ((h.linked.phase i hs).suspending hst).2.2.1

section Step

variable (h : m.Sound) (hstep : m.step code = some m') (hi : l ≠ [] → (m.routine i).scope.isSome)
include h hstep hi

/-- An effect on its way stays where it is in a step of a routine that does not have it. -/
theorem Underway.stay (hu : Underway m₀ m c e b i l j d) (hhead : m.ready.head? ≠ some j) :
    Underway m₀ m' c e b i l j d ∧ m.callsFor i = [] ∧ ¬ m.Answers m' i := by
  obtain ⟨x, ready, hready, ⟨hx, -, hf⟩ | ⟨hx, rfl⟩⟩ := h.step_cases hstep
  case inr =>
    -- No routine changes.
    have hcalls : m.callsFor i = [] := by
      unfold callsFor
      rw [hready]
      dsimp only
      split
      · next hc _ => rw [hc] at hx; cases hx
      · rfl
    refine ⟨hu.congr (routine_pause m x) rfl, hcalls, ?_⟩
    rintro ⟨-, hst, hst'⟩
    rw [routine_pause, hst] at hst'
    cases hst'
  have hxj : j ≠ x := fun heq => hhead (by rw [hready, heq]; rfl)
  -- Only the routine that makes the step can call a handler function.
  have hcalls : ¬ m.Offers x ⟨.datum, i⟩ → m.callsFor i = [] := fun hno =>
    h.callsFor_eq_nil fun y ready' hy => by
      obtain rfl : x = y := by
        rw [hready] at hy
        exact (List.cons.inj hy).1
      exact hno
  have hactive := hu.isActive
  obtain ⟨hcontrol, hstack⟩ := hf.routine_of_isActive h hxj hactive
  cases hu with
  | performs ctx a next hctx control ha chain =>
    refine ⟨.performs ctx a next hctx (hcontrol.trans control) ha ?_, hcalls fun hoff =>
      h.linked.not_waits hactive (h.waits_of_offers hoff), h.not_answers hactive⟩
    exact hf.chain h hx chain hxj (lt_of_isActive hactive) (Control.ne_reading_of_isActive hactive i)
  | travels l₁ s rest k j hl unbound path origin ht =>
    have ht' := ht.stay h hf hx hxj
    refine ⟨?_, hcalls fun hoff => hxj (h.offers_unique (ht.offers h origin) hoff), fun hans =>
      ht'.status_ne hf.sound origin hans.2.2⟩
    rw [← delay_congr hstack]
    exact .travels l₁ s rest k j hl unbound path origin ht'
  | strands l₁ s j hl unbound hs severed =>
    have hsevered := h.severed_step hstep (hi (by rw [hl]; simp)) severed
    refine ⟨.strands l₁ s j hl unbound ⟨hcontrol.trans hs.control, ?_⟩ hsevered,
      hcalls (severed.not_offers _ x), fun hans => hsevered.status hans.2.2⟩
    rw [hstack]
    exact hs.stack

variable (hbinds : ∀ t ∈ l, m.binds e t = m₀.binds e t) (hhead : m.ready.head? = some j)
include hbinds hhead

omit hi in
/-- What its routine does with an effect that has come to a scope. -/
theorem Travels.step {l₁ : List RoutineId} (hl : l = l₁ ++ s :: rest)
    (unbound : ∀ t ∈ l₁, m₀.binds e t = false)
    (path : k.keys.map (·.scope) = (l₁ ++ [s]).reverse) (origin : ⟨.datum, i⟩ ∈ k.keys)
    (ht : m.Travels c e b k s j rest) :
    (m.callsFor i = [] ∧ ¬ m.Answers m' i ∧
        ∃ j' d', d' < 2 * rest.length + 2 + m.delay j ∧ Underway m₀ m' c e b i l j' d') ∨
      Arrives code m₀ m m' e b i l (m.callsFor i) ∧ m'.Settles i := by
  obtain rfl : m.stepOf code j = m' := stepOf_eq_of_step hhead hstep
  have hf : m.Follows j (m.stepOf code j) := h.stepOf ht.isActive
  obtain ⟨ready, hready⟩ : ∃ ready, m.ready = j :: ready := List.head?_eq_some_iff.1 hhead
  obtain ⟨x, hc, hx⟩ := ht.signal
  obtain ⟨st, hst | ⟨p, hst⟩⟩ := ht.stack
  · have hcalls := callsFor_of_dispatch hready hc hst hx origin
    have hs : m.binds e s = m₀.binds e s := hbinds s (by rw [hl]; simp)
    rcases ht.step_takes h hst hf with ⟨hbound, henters⟩ | ⟨hunbound, hgoes⟩
    · -- The scope binds the effect.
      rw [hbound] at hcalls
      rw [hcalls]
      obtain ⟨scope, clause, place, st', -, -, -, -, hrunning, hplace⟩ := henters.enters
      have hsuspending : ∀ t ∈ l₁ ++ [s], ((m.stepOf code j).routine t).status = .suspending := by
        intro t htmem
        refine hf.sound.suspending_of_kept hplace ?_
        rw [path]
        exact List.mem_reverse.2 htmem
      refine .inr ⟨.handled l₁ s rest k j hl unbound (hs ▸ hbound) henters path hsuspending, ?_,
        ht.not_offers h origin hf (by rw [hrunning]; simp) (by rw [hrunning]; simp)⟩
      rw [hf.sound.suspending_of_kept hplace (List.mem_map.2 ⟨_, origin, rfl⟩)]
      simp
    · -- It does not, and the effect goes on.
      rw [hunbound] at hcalls
      have hunbound' : ∀ t ∈ l₁ ++ [s], m₀.binds e t = false := by
        intro t htmem
        rcases List.mem_append.1 htmem with htmem | htmem
        · exact unbound t htmem
        · rw [List.mem_singleton.1 htmem, ← hs]
          exact hunbound
      rcases hgoes with ⟨j', rest', rfl, -, htravels⟩ | ⟨rfl, hstrands, hsevered⟩
      · have hmem : (⟨.datum, i⟩ : Key) ∈ (Cont.through j k).keys := List.mem_cons_of_mem _ origin
        refine .inl ⟨hcalls, fun hans => htravels.status_ne hf.sound hmem hans.2.2, j', _, ?_,
          .travels (l₁ ++ [s]) j rest' (.through j k) j' (by simp [hl]) hunbound' ?_ hmem htravels⟩
        · have hle := delay_le (m.stepOf code j) j'
          simp only [List.length_cons]
          omega
        · simp [Cont.keys, path]
      · have hsevered := hsevered _ origin
        exact .inl ⟨hcalls, fun hans => hsevered.status hans.2.2, j, 1, by omega,
          .strands l₁ s j hl (hl ▸ hunbound') hstrands hsevered⟩
  · -- The entry of the resume is withdrawn first.
    have hcalls : m.callsFor i = [] := by
      unfold callsFor
      rw [hready]
      dsimp only
      rw [hc, hst]
    obtain ⟨ht', hlt⟩ := ht.step_withdraws h hst hf
    exact .inl ⟨hcalls, fun hans => ht'.status_ne hf.sound origin hans.2.2, j, _, by omega,
      .travels l₁ s rest k j hl unbound path origin ht'⟩

/-- In a step of the routine that has it, an effect comes nearer to its end, or it arrives. -/
theorem Underway.advance (hu : Underway m₀ m c e b i l j d) :
    (m.callsFor i = [] ∧ ¬ m.Answers m' i ∧ ∃ j' d', d' < d ∧ Underway m₀ m' c e b i l j' d') ∨
      Arrives code m₀ m m' e b i l (m.callsFor i) ∧ (l ≠ [] → m'.Settles i) := by
  have hactive := hu.isActive
  have hf : m.Follows j (m.stepOf code j) := h.stepOf hactive
  have heq : m.stepOf code j = m' := stepOf_eq_of_step hhead hstep
  have hcalls : ¬ m.Offers j ⟨.datum, i⟩ → m.callsFor i = [] := fun hno =>
    h.callsFor_eq_nil fun y ready hy => by
      rw [hy] at hhead
      obtain rfl : y = j := Option.some.inj hhead
      exact hno
  cases hu with
  | performs ctx a next hctx control ha chain =>
    subst hctx heq
    have hcalls' : m.callsFor i = [] := hcalls fun hoff =>
      h.linked.not_waits hactive (h.waits_of_offers hoff)
    rcases h.step_performs control ha chain hf with ⟨j, rest, rfl, -, ht⟩ | ⟨rfl, hcontrol, hstack⟩
    · refine .inl ⟨hcalls', h.not_answers hactive, j, _, ?_,
        .travels [] i rest (.direct i) j rfl (by simp) rfl List.mem_cons_self ht⟩
      have hle := delay_le (m.stepOf code i) j
      simp only [List.length_cons]
      omega
    · rw [hcalls']
      exact .inr ⟨.alone rfl hcontrol ⟨next, _, rfl, hstack⟩, fun hne => absurd rfl hne⟩
  | travels l₁ s rest k j hl unbound path origin ht =>
    exact (ht.step h hstep hbinds hhead hl unbound path origin).imp id
      fun harrives => ⟨harrives.1, fun _ => harrives.2⟩
  | strands l₁ s j hl unbound hs severed =>
    obtain ⟨hcontrol, hstack⟩ := hs.step code
    have hsevered := h.severed_step hstep (hi (by rw [hl]; simp)) severed
    rw [hcalls (severed.not_offers _ j)]
    exact .inr ⟨.unhandled l₁ s j hl unbound (heq ▸ hcontrol) (heq ▸ hstack), fun _ =>
      ⟨hsevered.status, hsevered.not_offers _⟩⟩

end Step

section Runs

variable (h₀ : m₀.Sound) (hl : ∀ t ∈ l, (m₀.routine t).scope.isSome) (hi : l ≠ [] → i ∈ l)
include h₀ hl hi

/-- In a step after some run, an effect on its way stays on its way, or it arrives. -/
theorem Underway.step (hr : Reaches code m₀ m) (hstep : m.step code = some m')
    (hu : Underway m₀ m c e b i l j d) :
    (m.callsFor i = [] ∧ ¬ m.Answers m' i ∧ ∃ j' d', (m.ready.head? = some j → d' < d) ∧
        (m.ready.head? ≠ some j → j' = j ∧ d' = d) ∧ Underway m₀ m' c e b i l j' d') ∨
      m.ready.head? = some j ∧ Arrives code m₀ m m' e b i l (m.callsFor i) ∧
        (l ≠ [] → m'.Settles i) := by
  have h := h₀.of_reaches hr
  have hsome : l ≠ [] → (m.routine i).scope.isSome := fun hne => by
    rw [(hr.abides h₀ (lt_of_scope (hl i (hi hne)))).isSome]
    exact hl i (hi hne)
  have hbinds : ∀ t ∈ l, m.binds e t = m₀.binds e t := fun t ht => hr.binds h₀ (hl t ht)
  by_cases hhead : m.ready.head? = some j
  · rcases hu.advance h hstep hsome hbinds hhead with ⟨hcalls, hans, j', d', hlt, hu'⟩ | harrives
    · exact .inl ⟨hcalls, hans, j', d', fun _ => hlt, fun hne => absurd hhead hne, hu'⟩
    · exact .inr ⟨hhead, harrives⟩
  · obtain ⟨hu', hcalls, hans⟩ := hu.stay h hstep hsome hhead
    exact .inl ⟨hcalls, hans, j, d, fun heq => absurd heq hhead, fun _ => ⟨rfl, rfl⟩, hu'⟩

/-- In a run in which the body is not resumed, an effect is on its way and no handler function has been
called for it, or it has arrived. -/
theorem Unanswered.underway_or_arrives (hw : Unanswered code i m m' calls) (hr : Reaches code m₀ m)
    (hu : Underway m₀ m c e b i l j d) :
    calls = [] ∧ (∃ j ∈ m'.ready, ∃ d, Underway m₀ m' c e b i l j d) ∨
      ∃ m₁ m₂ calls', Reaches code m₀ m₁ ∧ m₁.step code = some m₂ ∧ Reaches code m₂ m' ∧
        Arrives code m₀ m₁ m₂ e b i l calls' ∧ (l ≠ [] → calls = calls') := by
  have h := h₀.of_reaches hr
  induction hw generalizing j d with
  | refl m => exact .inl ⟨rfl, j, h.linked.ready j hu.isActive, d, hu⟩
  | @step m m₁ m' calls hstep hwaits hrest ih =>
    rcases hu.step h₀ hl hi hr hstep with ⟨hcalls, -, j', d', -, -, hu'⟩ | ⟨-, harrives, hsettles⟩
    · rw [hcalls]
      exact ih (hr.trans (.step hstep (.refl _))) hu' (h.step hstep)
    · refine .inr ⟨m, m₁, m.callsFor i, hr, hstep, hrest.reaches, harrives, fun hne => ?_⟩
      obtain ⟨hstatus, hoffers⟩ := hsettles hne
      have hsome : (m₁.routine i).scope.isSome := by
        have hr₁ := hr.trans (.step hstep (.refl m₁))
        rw [(hr₁.abides h₀ (lt_of_scope (hl i (hi hne)))).isSome]
        exact hl i (hi hne)
      rw [hrest.calls_eq_nil (h.step hstep) hsome hstatus hoffers, List.append_nil]
  | @turn m m' calls _ ih =>
    exact ih (hr.trans (.turn (.refl _)))
      (hu.congr (routine_passTurn m) (conts_passTurn m)) h.passTurn

/-- In every fair run an effect arrives, and until then no handler function is called for it and the
body is not resumed. -/
theorem IsFairRun.arrives {f : Nat → Machine P V σ} (hf : IsFairRun code f) (h0 : f 0 = m₀)
    (hu : Underway m₀ m₀ c e b i l j d) :
    ∃ n, Unanswered code i m₀ (f n) [] ∧ (f n).step code = some (f (n + 1)) ∧
      Arrives code m₀ (f n) (f (n + 1)) e b i l ((f n).callsFor i) := by
  subst h0
  let Q : Nat → RoutineId → Machine P V σ → Prop := fun d j m =>
    Unanswered code i (f 0) m [] ∧ Underway (f 0) m c e b i l j d
  have hkeep : ∀ d j m m', Q d j m → m.step code = some m' →
      (∃ j' d', (m.ready.head? = some j → d' < d) ∧ (m.ready.head? ≠ some j → j' = j ∧ d' = d) ∧
        Q d' j' m') ∨ m.ready.head? = some j ∧ Unanswered code i (f 0) m [] ∧
          Arrives code (f 0) m m' e b i l (m.callsFor i) := by
    rintro d j m m' ⟨hw, hu⟩ hstep
    rcases hu.step h₀ hl hi hw.reaches hstep with
      ⟨hcalls, hans, j', d', hlt, heq, hu'⟩ | ⟨hhead, harrives, -⟩
    · have hlast : Unanswered code i m m' (m.callsFor i ++ []) := .step hstep hans (.refl m')
      rw [hcalls] at hlast
      exact .inl ⟨j', d', hlt, heq, hw.trans hlast, hu'⟩
    · exact .inr ⟨hhead, hw, harrives⟩
  obtain ⟨n, -, hstep, hw, harrives⟩ := hf.leadsTo (Q := Q) Nat.lt_wfRel.wf
    (G := fun m m' => Unanswered code i (f 0) m [] ∧ Arrives code (f 0) m m' e b i l (m.callsFor i))
    (fun d j m hq => (h₀.of_reaches hq.1.reaches).linked.ready j hq.2.isActive)
    (fun d j m hq => ⟨hq.1.trans (.turn (.refl _)),
      hq.2.congr (routine_passTurn m) (conts_passTurn m)⟩)
    (fun d j m m' hq hstep hhead => by
      rcases hkeep d j m m' hq hstep with ⟨j', d', -, heq, hq'⟩ | ⟨h, -⟩
      · obtain ⟨rfl, rfl⟩ := heq hhead
        exact hq'
      · exact absurd h hhead)
    (fun d j m m' hq hstep hhead => by
      rcases hkeep d j m m' hq hstep with ⟨j', d', hlt, -, hq'⟩ | ⟨-, hg⟩
      · exact .inl ⟨d', j', hlt hhead, hq'⟩
      · exact .inr hg)
    (a := d) (j := j) (n := 0) ⟨.refl _, hu⟩
  exact ⟨n, hw, hstep, harrives⟩

end Runs

/-- A perform goes along the chain of scopes around the routine that performs. In every run in which the
body is not resumed yet, either the effect is on its way, the routine that has it can go on, and no
handler function has been called for the perform; or the effect has arrived as `Arrives` says, and the
handler function of the first scope that binds the effect, if there is one, is the only one that has
been called for the perform. In every fair run, the effect does arrive before the body is resumed. -/
theorem Reaches.routed {store : σ} {start : Code P V σ V} {ctx : Context} {a : Act P V}
    {next : Outcome V V → Code P V σ V} (h₀ : Reaches code (initial store start) m)
    (hc : (m.routine i).control = .running (.act a next)) (ha : a.performed? = some (ctx, e, b)) :
    ∃ l, m.Chain ctx.id i l ∧
      (∀ m' calls, Unanswered code i m m' calls →
        calls = [] ∧ (∃ j ∈ m'.ready, ∃ d, m.Underway m' ctx.id e b i l j d) ∨
          ∃ m₁ m₂ calls', Reaches code m m₁ ∧ m₁.step code = some m₂ ∧ Reaches code m₂ m' ∧
            m.Arrives code m₁ m₂ e b i l calls' ∧ (l ≠ [] → calls = calls')) ∧
      ∀ f, IsFairRun code f → f 0 = m → ∃ n, Unanswered code i m (f n) [] ∧
        (f n).step code = some (f (n + 1)) ∧
          m.Arrives code (f n) (f (n + 1)) e b i l ((f n).callsFor i) := by
  have h := h₀.sound
  have hactive : (m.routine i).control.isActive = true := by rw [hc]; rfl
  obtain ⟨l, hl⟩ := h.linked.exists_chain (Control.ne_listening_of_isActive hactive) ctx.id
  have hmem : l ≠ [] → i ∈ l := fun hne => by
    cases hl with
    | stop _ => exact absurd rfl hne
    | scope _ _ => exact List.mem_cons_self
  have hu : m.Underway m ctx.id e b i l i (2 * l.length + 2) := .performs ctx a next rfl hc ha hl
  exact ⟨l, hl, fun m' calls hw => hw.underway_or_arrives h (fun t => hl.isSome) hmem (.refl m) hu,
    fun f hf h0 => hf.arrives h (fun t => hl.isSome) hmem h0 hu⟩

namespace Forwarding

/-- A body that performs an effect, in a scope that does not bind it, in a scope that does. -/
def procedures : Fin 3 → Entry Unit → Code (Fin 3) Unit Unit Unit
  | 0, _ => .perform (.handle ⟨⟨0⟩, .standard⟩ .identity 1)
  | 1, _ => .perform (.perform ⟨⟨0⟩, .standard⟩ ⟨1⟩ ())
  | 2, _ => .pure ()

def start : Machine (Fin 3) Unit Unit :=
  initial () do
    let _ ← .query (.openContext .standard)
    .perform (.handle ⟨⟨0⟩, .standard⟩ (Handler.identity.on ⟨1⟩ 2) 0)

end Forwarding

/-- The effect of a body in two scopes goes to the outer one. -/
theorem routed_forwarding :
    ∃ m l, Reaches Forwarding.procedures Forwarding.start m ∧ m.Chain ⟨0⟩ ⟨2⟩ l ∧
      (∀ m' calls, Unanswered Forwarding.procedures ⟨2⟩ m m' calls →
        calls = [] ∧ (∃ j ∈ m'.ready, ∃ d,
            m.Underway m' ⟨0⟩ (.declared ⟨1⟩) (.datum ()) ⟨2⟩ l j d) ∨
          ∃ m₁ m₂ calls', Reaches Forwarding.procedures m m₁ ∧
            m₁.step Forwarding.procedures = some m₂ ∧ Reaches Forwarding.procedures m₂ m' ∧
            m.Arrives Forwarding.procedures m₁ m₂ (.declared ⟨1⟩) (.datum ()) ⟨2⟩ l calls' ∧
            (l ≠ [] → calls = calls')) ∧
      ∃ f : Nat → Machine (Fin 3) Unit Unit, IsFairRun Forwarding.procedures f ∧ f 0 = m ∧
        ∃ n, Unanswered Forwarding.procedures ⟨2⟩ m (f n) [] ∧
          (f n).step Forwarding.procedures = some (f (n + 1)) ∧
          m.Arrives Forwarding.procedures (f n) (f (n + 1)) (.declared ⟨1⟩) (.datum ()) ⟨2⟩ l
            ((f n).callsFor ⟨2⟩) := by
  have hreached : Reaches Forwarding.procedures Forwarding.start
      (Forwarding.start.run Forwarding.procedures 5) := reaches_run _ _
  obtain ⟨l, hl, hall, hfair⟩ := Reaches.routed (i := ⟨2⟩) hreached rfl rfl
  obtain ⟨f, h0, hf⟩ := exists_isFairRun Forwarding.procedures
    (Forwarding.start.run Forwarding.procedures 5)
  exact ⟨_, l, hreached, hl, hall, f, hf, h0, hfair f hf h0⟩

end Machine

end OneShot
