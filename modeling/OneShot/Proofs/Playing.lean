import OneShot.Proofs.Answering
import OneShot.Proofs.Ownership
import OneShot.Proofs.Strand

/-!
# Strands in a machine

A strand is played by the routines of a line: the first one is where the strand began, each listens to the
body of a scope, and the last one, the *front*, goes on. The parts of the strand are in the stacks of these
routines, and in those of the suspended bodies that continuations resume.

`HasParts`, `HasGoal` and `HasKept` say where the parts are, `Outside` what is outside of the front, and
`Plays` which strand a machine plays. `Plays.stay` is about the steps of other routines: they do not
concern the strand.
-/

namespace OneShot

variable {P V σ : Type}

/-- Whether a frame only passes outcomes on, with no part of a strand in it. -/
def Frame.isPassage : Frame P V σ → Bool
  | .registered _ _ | .nested _ _ | .dispatch _ | .holding _ | .handledBody | .rejoining => true
  | _ => false

/-- The value that a body ends with, or that a suspended body is resumed with. -/
def Boxed.value? : Boxed V → Option V
  | .datum v | .result v => some v
  | _ => none

namespace Machine

open Control

mutual

/-- The parts in the frames of a stack. -/
inductive HasParts (m : Machine P V σ) : List (Frame P V σ) → List (Part P V σ) → Prop where
  | nil : HasParts m [] []
  | code {next : Outcome V V → Code P V σ V} {st : List (Frame P V σ)} {ps : List (Part P V σ)}
    (rest : HasParts m st ps) : HasParts m (.next next :: st) (.code next :: ps)
  | kept {k : ContId} {c : Cont} {kept : Kept P V σ} {st : List (Frame P V σ)}
    {ps : List (Part P V σ)} (hplace : m.conts.getD k.val none = some c) (hkept : HasKept m c kept)
    (rest : HasParts m st ps) : HasParts m (.owning k :: st) (.owning k (some kept) :: ps)
  | gone {k : ContId} {st : List (Frame P V σ)} {ps : List (Part P V σ)}
    (hplace : m.conts.getD k.val none = none) (rest : HasParts m st ps) :
    HasParts m (.owning k :: st) (.owning k none :: ps)
  | skip {f : Frame P V σ} {st : List (Frame P V σ)} {ps : List (Part P V σ)}
    (hf : f.isPassage = true) (rest : HasParts m st ps) : HasParts m (f :: st) ps

/-- What a scope on the context and with the clauses does with a value. -/
inductive HasGoal (m : Machine P V σ) : Finish P → Context → List (Effect × Clause P) →
    Goal P V σ → Prop where
  | passOn {ctx : Context} {clauses : List (Effect × Clause P)} :
    HasGoal m .passOn ctx clauses .passOn
  | call {p : P} {ctx : Context} {clauses : List (Effect × Clause P)} :
    HasGoal m (.call p) ctx clauses (.call p)
  | into {s : RoutineId} {ctx : Context} {clauses : List (Effect × Clause P)}
    {ps : List (Part P V σ)} {goal : Goal P V σ} (hs : HasBody m s ps ctx clauses goal) :
    HasGoal m (.into (some s)) ctx clauses (.into ps goal)

/-- The parts in the stack of a suspended body, and its scope. -/
inductive HasBody (m : Machine P V σ) : RoutineId → List (Part P V σ) → Context →
    List (Effect × Clause P) → Goal P V σ → Prop where
  | intro {s : RoutineId} {scope : Scope P} {f : Frame P V σ} {st : List (Frame P V σ)}
    {ps : List (Part P V σ)} {ctx : Context} {clauses : List (Effect × Clause P)}
    {goal : Goal P V σ} (hscope : (m.routine s).scope = some scope) (hctx : scope.ctx = ctx)
    (hclauses : scope.clauses = clauses) (hst : (m.routine s).stack = f :: st)
    (hps : HasParts m st ps) (hgoal : HasGoal m scope.finish ctx clauses goal) :
    HasBody m s ps ctx clauses goal

/-- What a continuation goes on with. -/
inductive HasKept (m : Machine P V σ) : Cont → Kept P V σ → Prop where
  | direct {s : RoutineId} {ps : List (Part P V σ)} {ctx : Context}
    {clauses : List (Effect × Clause P)} {goal : Goal P V σ}
    (hs : HasBody m s ps ctx clauses goal) : HasKept m (.direct s) (.direct ps ctx clauses goal)
  | through {s : RoutineId} {inner : Cont} {kept : Kept P V σ} {ps : List (Part P V σ)}
    {ctx : Context} {clauses : List (Effect × Clause P)} {goal : Goal P V σ}
    (hinner : HasKept m inner kept) (hs : HasBody m s ps ctx clauses goal) :
    HasKept m (.through s inner) (.through kept ps ctx clauses goal)

end

variable {code : P → Entry V → Code P V σ V} {m m' : Machine P V σ} {i j s x : RoutineId}
  {st own base : List (Frame P V σ)} {ps qs : List (Part P V σ)} {q : Strand P V σ}

/-! ## What a step leaves alone -/

/-- From the first machine to the second, routine `x` makes a step. It leaves the stacks of the others alone,
and the places that they own, and the scopes that are not over. -/
structure Leaves (m m' : Machine P V σ) (x : RoutineId) : Prop where
  before : m.Proper
  after : m'.Proper
  active : (m.routine x).control.isActive = true
  stack : ∀ j, j ≠ x → j.val < m.routines.size → (m'.routine j).stack = (m.routine j).stack
  scope : ∀ j scope, (m.routine j).scope = some scope → ∃ scope', (m'.routine j).scope = some scope' ∧
    scope'.ctx = scope.ctx ∧ scope'.clauses = scope.clauses ∧
      (scope'.finish = scope.finish ∨ m'.Concluded j)
  place : ∀ j k, j ≠ x → m.Owns j k → m'.conts.getD k.val none = m.conts.getD k.val none

namespace Leaves

variable (h : m.Leaves m' x)
include h

theorem ne_of_waits {y : Key} (hy : m.Waits y) : y.scope ≠ x := by
  rintro rfl
  exact h.before.sound.linked.not_waits h.active hy

/-- The scope of a body that waits before and after the step is the same. -/
theorem scope_of_waits {y : Key} (hy' : m'.Waits y) {scope : Scope P}
    (hscope : (m.routine y.scope).scope = some scope) :
    ∃ scope', (m'.routine y.scope).scope = some scope' ∧ scope'.ctx = scope.ctx ∧
      scope'.clauses = scope.clauses ∧ scope'.finish = scope.finish := by
  obtain ⟨scope', hscope', hctx, hclauses, hfinish⟩ := h.scope _ _ hscope
  refine ⟨scope', hscope', hctx, hclauses, hfinish.resolve_right fun hover => ?_⟩
  obtain ⟨hs, hstatus, -⟩ := hy'
  cases hover.ended.symm.trans ((h.after.sound.linked.phase _ hs).suspending hstatus).2.2.1

end Leaves

theorem Sound.holders_pos_of_waits (h : m.Sound) {y : Key} (hy : m.Waits y) {scope : Scope P}
    (hscope : (m.routine y.scope).scope = some scope) : 0 < scope.holders := by
  obtain ⟨-, hstatus, -⟩ := hy
  by_contra hzero
  have hterminal := h.reclaimed y.scope scope hscope (by omega) (by simp)
  rw [hstatus] at hterminal
  cases hterminal

/-- A scope that a frame holds has a holder. -/
theorem Sound.holders_pos_of_frame (h : m.Sound)
    (hpos : 0 < ((m.routine j).stack.map (Frame.holds s)).sum) {scope : Scope P}
    (hscope : (m.routine s).scope = some scope) : 0 < scope.holders := by
  have hlt : j.val < m.routines.size := by
    by_contra hge
    rw [routine_of_size_le (not_lt.1 hge)] at hpos
    exact Nat.lt_irrefl 0 hpos
  have hle := le_sumTo (fun j => (m.routine j).holds s) hlt
  have hheld := h.counted.held s
  have hload : m.load none s = sumTo m.routines.size (fun j => (m.routine j).holds s) +
      countKeys s m.kept := rfl
  simp only [Routine.holds] at hle
  simp only [holders, hscope, Option.elim, hload, countKeys_nil, List.count_nil] at hheld
  simp only [Routine.holds] at hheld
  omega

theorem Sound.waits_of_kept (h : m.Sound) {k : ContId} {c : Cont}
    (hk : m.conts.getD k.val none = some c) {y : Key} (hy : y ∈ c.keys) : m.Waits y := by
  refine h.counted.waits y ?_
  have hpos : 0 < m.kept.count y := List.count_pos_iff.2 (mem_kept hk hy)
  simp only [tokens]
  omega

mutual

/-- Parts stay where they are, if the places in the frames do. -/
theorem HasParts.leaves (h : m.Leaves m' x) {st : List (Frame P V σ)} {ps : List (Part P V σ)} :
    m.HasParts st ps → (∀ k, .owning k ∈ st → m'.conts.getD k.val none = m.conts.getD k.val none) →
      m'.HasParts st ps
  | .nil, _ => .nil
  | .code rest, hplaces => .code (rest.leaves h fun k hk => hplaces k (List.mem_cons_of_mem _ hk))
  | .kept hplace hkept rest, hplaces =>
    have hplace' := (hplaces _ List.mem_cons_self).trans hplace
    .kept hplace' (hkept.leaves h fun _ hy =>
        ⟨h.before.sound.waits_of_kept hplace hy, h.after.sound.waits_of_kept hplace' hy⟩)
      (rest.leaves h fun k hk => hplaces k (List.mem_cons_of_mem _ hk))
  | .gone hplace rest, hplaces =>
    .gone ((hplaces _ List.mem_cons_self).trans hplace)
      (rest.leaves h fun k hk => hplaces k (List.mem_cons_of_mem _ hk))
  | .skip hf rest, hplaces =>
    .skip hf (rest.leaves h fun k hk => hplaces k (List.mem_cons_of_mem _ hk))

/-- What a scope does with a value stays, if it still waits for who it answers. -/
theorem HasGoal.leaves (h : m.Leaves m' x) {fin : Finish P} {ctx : Context}
    {clauses : List (Effect × Clause P)} {goal : Goal P V σ} : m.HasGoal fin ctx clauses goal →
      (∀ t, fin = .into (some t) → m.Waits ⟨.result, t⟩ ∧ m'.Waits ⟨.result, t⟩) →
        m'.HasGoal fin ctx clauses goal
  | .passOn, _ => .passOn
  | .call, _ => .call
  | .into hs, hwaits => .into (hs.leaves h (hwaits _ rfl).1 (hwaits _ rfl).2)

/-- The parts in a body that waits stay where they are. -/
theorem HasBody.leaves (h : m.Leaves m' x) {mark : Mark} {s : RoutineId} {ps : List (Part P V σ)}
    {ctx : Context} {clauses : List (Effect × Clause P)} {goal : Goal P V σ} :
    m.HasBody s ps ctx clauses goal → m.Waits ⟨mark, s⟩ → m'.Waits ⟨mark, s⟩ →
      m'.HasBody s ps ctx clauses goal
  | .intro hscope hctx hclauses hst hps hgoal, hw, hw' => by
    obtain ⟨scope', hscope', hctx', hclauses', hfinish⟩ := h.scope_of_waits hw' hscope
    have hne : s ≠ x := h.ne_of_waits hw
    have hlt : s.val < m.routines.size := lt_of_scope hw.1
    refine .intro hscope' (hctx'.trans hctx) (hclauses'.trans hclauses)
      ((h.stack s hne hlt).trans hst) (hps.leaves h fun k hk => h.place s k hne ?_) ?_
    · rw [Owns, hst]
      exact List.mem_cons_of_mem _ hk
    · rw [hfinish]
      exact hgoal.leaves h fun t hfin =>
        ⟨h.before.sound.waits_into hscope (h.before.sound.holders_pos_of_waits hw hscope) hfin,
          h.after.sound.waits_into hscope' (h.after.sound.holders_pos_of_waits hw' hscope')
            (hfinish.trans hfin)⟩

/-- What a continuation goes on with stays where it is. -/
theorem HasKept.leaves (h : m.Leaves m' x) {c : Cont} {kept : Kept P V σ} :
    m.HasKept c kept → (∀ y ∈ c.keys, m.Waits y ∧ m'.Waits y) → m'.HasKept c kept
  | .direct hs, hwaits =>
    have hw := hwaits _ List.mem_cons_self
    .direct (hs.leaves h hw.1 hw.2)
  | .through hinner hs, hwaits =>
    have hw := hwaits _ List.mem_cons_self
    .through (hinner.leaves h fun y hy => hwaits y (List.mem_cons_of_mem _ hy))
      (hs.leaves h hw.1 hw.2)

end

/-! ## The line of a strand -/

/-- Outside of the frames `base` at the bottom of routine `f` there are these parts: there are no frames, and
the scope of the body comes next, and what its listener has; or the strand began here, in routine `i` above
the frames `st₀`. -/
inductive Outside (m : Machine P V σ) (i : RoutineId) (st₀ : List (Frame P V σ)) : RoutineId →
    List (Frame P V σ) → List (Part P V σ) → Prop where
  | begin : Outside m i st₀ i st₀ []
  | scope {f j : RoutineId} {scope : Scope P} {goal : Goal P V σ} {own base : List (Frame P V σ)}
    {ps qs : List (Part P V σ)} (hscope : (m.routine f).scope = some scope)
    (hgoal : m.HasGoal scope.finish scope.ctx scope.clauses goal)
    (hlistens : (m.routine j).control = .listening f) (hst : (m.routine j).stack = own ++ base)
    (hps : m.HasParts own ps) (rest : Outside m i st₀ j base qs) :
    Outside m i st₀ f [] (.scope scope.ctx scope.clauses goal :: (ps ++ qs))

/-- Routine `f` has come to the frames `st`, inside of which nothing is left to do: the parts are there and
outside. -/
def HasRest (m : Machine P V σ) (i : RoutineId) (st₀ : List (Frame P V σ)) (f : RoutineId)
    (st : List (Frame P V σ)) (parts : List (Part P V σ)) : Prop :=
  ∃ own base ps qs, st = own ++ base ∧ m.HasParts own ps ∧ m.Outside i st₀ f base qs ∧
    parts = ps ++ qs

/-- The machine plays the strand that began in routine `i` above the frames `st₀`. Routine `f` is at the
front. -/
inductive Plays (code : P → Entry V → Code P V σ V) (m : Machine P V σ) (i : RoutineId)
    (st₀ : List (Frame P V σ)) (f : RoutineId) : Strand P V σ → Prop where
  /-- Code runs. -/
  | running {c : Code P V σ V} {parts : List (Part P V σ)}
    (hc : (m.routine f).control = .running c)
    (hparts : m.HasRest i st₀ f (m.routine f).stack parts) : Plays code m i st₀ f (.running c parts)
  /-- A body begins. -/
  | entering {p : P} {a : Parcel V} {parts : List (Part P V σ)}
    (hc : (m.routine f).control = .starting (.handled p) a)
    (hparts : m.Outside i st₀ f [] parts) :
    Plays code m i st₀ f (.running (code p .nothing) parts)
  /-- A forwarded continuation is resumed. -/
  | rejoining {k : Cont} {kept : Kept P V σ} {v : V} {a : Parcel V} {parts : List (Part P V σ)}
    (hc : (m.routine f).control = .starting (.rejoin k (.datum v)) a) (hkept : m.HasKept k kept)
    (hparts : m.Outside i st₀ f [] parts) :
    Plays code m i st₀ f (.returning (.value v) (kept.resumed ++ parts))
  /-- An outcome goes outward. -/
  | returning {o : Outcome V V} {parts : List (Part P V σ)}
    (hc : (m.routine f).control = .returning (o.map .plain))
    (hparts : m.HasRest i st₀ f (m.routine f).stack parts) :
    Plays code m i st₀ f (.returning o parts)
  /-- A perform, or the forwarding of an effect, comes back. -/
  | waking {g : Frame P V σ} {o : Outcome V (Parcel V)} {o' : Outcome V V}
    {st : List (Frame P V σ)} {parts : List (Part P V σ)}
    (hc : (m.routine f).control = .returning o) (hst : (m.routine f).stack = g :: st)
    (hg : g.need?.isSome) (ho : g.handsOn? o = some (o'.map .plain))
    (hparts : m.HasRest i st₀ f st parts) : Plays code m i st₀ f (.returning o' parts)
  /-- A body has a value. -/
  | done {b : Boxed V} {v : V} {parts : List (Part P V σ)}
    (hc : (m.routine f).control = .returning (.value (.signal (.done b))))
    (hst : (m.routine f).stack = []) (hb : b.value? = some v)
    (hparts : m.Outside i st₀ f [] parts) : Plays code m i st₀ f (.returning (.value v) parts)
  /-- The value of a body has come to its scope. -/
  | brought {b : Boxed V} {v : V} {s : RoutineId} {scope : Scope P} {goal : Goal P V σ}
    {parts : List (Part P V σ)}
    (hc : (m.routine f).control = .returning (.value (.signal (.done b))))
    (hawaits : awaitedScope? (m.routine f).stack = some s) (hb : b.value? = some v)
    (hscope : (m.routine s).scope = some scope)
    (hgoal : m.HasGoal scope.finish scope.ctx scope.clauses goal)
    (hparts : m.HasRest i st₀ f (m.routine f).stack parts) :
    Plays code m i st₀ f (.returning (.value v) (.scope scope.ctx scope.clauses goal :: parts))
  /-- An effect has come to a scope. -/
  | offering {x : Signal V} {s : RoutineId} {e : Effect} {b : Boxed V} {k : Cont} {kept : Kept P V σ}
    {parts : List (Part P V σ)} (hc : (m.routine f).control = .returning (.value (.signal x)))
    (hawaits : awaitedScope? (m.routine f).stack = some s) (hx : x.offer? s = some (e, b, k))
    (hkept : m.HasKept k kept) (hparts : m.HasRest i st₀ f (m.routine f).stack parts) :
    Plays code m i st₀ f (.offering e b kept parts)

/-! ## Steps of other routines -/

/-- Who listens to a body goes on listening while others make steps. -/
theorem Follows.listening (hf : m.Follows x m') (h : m.Sound)
    (hj : (m.routine j).control = .listening s) (hs : (m.routine s).scope.isSome) (hne : s ≠ x)
    (hx : (m.routine x).control.isActive = true) : (m'.routine j).control = .listening s := by
  have hjx : j ≠ x := by
    rintro rfl
    exact ne_listening_of_isActive hx s hj
  have hlt : j.val < m.routines.size := lt_of_ne_ended (by rw [hj]; simp)
  have hreading : ∀ hsome : (m.routine j).scope.isSome, (m.routine j).status ≠ .suspending :=
    fun hsome hst => by cases hj.symm.trans ((h.linked.phase j hsome).suspending hst).2.2.1
  cases hf.influences.touches j hjx hlt with
  | rests hrests =>
    cases hrests with
    | spared _ hcontrol => exact hcontrol.trans hj
    | closed hsome hst _ _ => exact absurd hst (hreading hsome)
  | resumed _ hsome _ hst _ _ => exact absurd hst (hreading hsome)
  | told _ _ hlistening _ _ => exact absurd (listening.inj (hj.symm.trans hlistening)) hne
  | eased _ hcontrol =>
    rcases hcontrol with hcontrol | ⟨hwaits, -⟩
    · exact hcontrol.trans hj
    · rw [WaitsPlainly, hj] at hwaits
      exact absurd hs (by rw [hwaits]; simp)

/-- What is outside of a routine stays, if the routine that makes the step has not handed out anything. -/
theorem Outside.leaves {st₀ : List (Frame P V σ)} {f : RoutineId} (h : m.Leaves m' x)
    (hf : m.Follows x m')
    (hfront : f = x → ∀ j, (m.routine j).control = .listening f →
      (m'.routine j).control = .listening f)
    (hout : m.Outside i st₀ f base qs) : m'.Outside i st₀ f base qs := by
  induction hout with
  | begin => exact .begin
  | @scope f j scope goal own base ps qs hscope hgoal hlistens hst hps rest ih =>
    have hsome : (m.routine f).scope.isSome := by rw [hscope]; rfl
    have hlistens' : (m'.routine j).control = .listening f := by
      by_cases hfx : f = x
      · exact hfront hfx j hlistens
      · exact hf.listening h.before.sound hlistens hsome hfx h.active
    obtain ⟨scope', hscope', hctx, hclauses, hfinish⟩ := h.scope f scope hscope
    -- The body still runs, so its scope is not over.
    have hfinish' : scope'.finish = scope.finish := by
      refine hfinish.resolve_right fun hover => ?_
      have hout := (h.after.sound.linked.takesSignals hscope' hlistens').1
      have hphase := h.after.sound.linked.phase f (by rw [hscope']; rfl)
      have hrunning := hphase.running (hphase.running_of_awaited (by rw [hout]; rfl))
      rw [hover.ended] at hrunning
      cases hrunning.2.2
    have hjx : j ≠ x := by
      rintro rfl
      exact ne_listening_of_isActive h.active f hlistens
    have hlt : j.val < m.routines.size := lt_of_ne_ended (by rw [hlistens]; simp)
    have hpos := h.before.sound.holders_pos_of_frame
      (h.before.sound.linked.holds_pos_of_listening hsome hlistens) hscope
    have hpos' := h.after.sound.holders_pos_of_frame
      (h.after.sound.linked.holds_pos_of_listening (by rw [hscope']; rfl) hlistens') hscope'
    rw [← hctx, ← hclauses]
    refine .scope hscope' ?_ hlistens' ((h.stack j hjx hlt).trans hst)
      (hps.leaves h fun k hk => h.place j k hjx ?_) (ih fun hjx' => absurd hjx' hjx)
    · rw [hfinish', hctx, hclauses]
      exact hgoal.leaves h fun t hfin => ⟨h.before.sound.waits_into hscope hpos hfin,
        h.after.sound.waits_into hscope' hpos' (hfinish'.trans hfin)⟩
    · rw [Owns, hst]
      exact List.mem_append_left _ hk

/-- The same, for a routine with the parts in it. -/
theorem HasRest.leaves {st₀ : List (Frame P V σ)} {f : RoutineId} (h : m.Leaves m' x)
    (hf : m.Follows x m')
    (hfront : f = x → ∀ j, (m.routine j).control = .listening f →
      (m'.routine j).control = .listening f)
    (hplaces : ∀ k, .owning k ∈ st → m'.conts.getD k.val none = m.conts.getD k.val none)
    (hrest : m.HasRest i st₀ f st ps) : m'.HasRest i st₀ f st ps := by
  obtain ⟨own, base, ps, qs, rfl, hps, hout, rfl⟩ := hrest
  exact ⟨own, base, ps, qs, rfl, hps.leaves h fun k hk => hplaces k (List.mem_append_left _ hk),
    hout.leaves h hf hfront, rfl⟩

theorem Plays.isActive {st₀ : List (Frame P V σ)} {f : RoutineId} (hp : Plays code m i st₀ f q) :
    (m.routine f).control.isActive = true := by
  cases hp with
  | running hc _ => rw [hc]; rfl
  | entering hc _ => rw [hc]; rfl
  | rejoining hc _ _ => rw [hc]; rfl
  | returning hc _ => rw [hc]; rfl
  | waking hc _ _ _ _ => rw [hc]; rfl
  | done hc _ _ _ => rw [hc]; rfl
  | brought hc _ _ _ _ _ => rw [hc]; rfl
  | offering hc _ _ _ _ => rw [hc]; rfl

/-- The routine to which an effect has come carries the ways to resume that go with it: the one for the scope
has just come, and the others came with the signal. -/
theorem carriedBy_of_offer {f : RoutineId} {y : Signal V} {e : Effect} {b : Boxed V} {k : Cont}
    (hc : (m.routine f).control = .returning (.value (.signal y)))
    (hawaits : awaitedScope? (m.routine f).stack = some s) (hy : y.offer? s = some (e, b, k)) :
    ∀ z ∈ k.keys, m.CarriedBy f z := by
  intro z hz
  cases y with
  | perform e' b' =>
    obtain ⟨rfl, rfl, rfl⟩ : e' = e ∧ b' = b ∧ .direct s = k := by simpa [Signal.offer?] using hy
    obtain rfl : z = ⟨.datum, s⟩ := List.mem_singleton.1 hz
    refine .inr ?_
    rw [Routine.pending?, hc, hawaits]
    rfl
  | forward e' b' k' =>
    obtain ⟨rfl, rfl, rfl⟩ : e' = e ∧ b' = b ∧ .through s k' = k := by
      simpa [Signal.offer?] using hy
    rcases List.mem_cons.1 hz with rfl | hz
    · refine .inr ?_
      rw [Routine.pending?, hc, hawaits]
      rfl
    · refine .inl ?_
      rw [hc]
      exact hz
  | done b' => cases hy

/-- A strand is not concerned by the steps of other routines than that at its front. -/
theorem Plays.stay {st₀ : List (Frame P V σ)} {f : RoutineId} (h : m.Leaves m' x)
    (hf : m.Follows x m') (hne : f ≠ x) (hp : Plays code m i st₀ f q) :
    Plays code m' i st₀ f q := by
  obtain ⟨hcontrol, hstack⟩ := hf.routine_of_isActive h.before.sound hne hp.isActive
  have houtside : ∀ {base qs}, m.Outside i st₀ f base qs → m'.Outside i st₀ f base qs :=
    fun hout => hout.leaves h hf fun hfx => absurd hfx hne
  have hplaces : ∀ k, .owning k ∈ (m.routine f).stack →
      m'.conts.getD k.val none = m.conts.getD k.val none := fun k hk => h.place f k hne hk
  have hrest : ∀ {ps}, m.HasRest i st₀ f (m.routine f).stack ps →
      m'.HasRest i st₀ f (m'.routine f).stack ps := fun hps => by
    rw [hstack]
    exact hps.leaves h hf (fun hfx => absurd hfx hne) hplaces
  have hcarried : ∀ {k kept}, m.HasKept k kept → (∀ y ∈ k.keys, m.CarriedBy f y) →
      m'.HasKept k kept := by
    intro k kept hkept hcarries
    have hcarries' : ∀ y ∈ k.keys, m'.CarriedBy f y := by
      intro y hy
      have hy' := hcarries y hy
      unfold CarriedBy Routine.pending? at hy' ⊢
      rw [hcontrol, hstack]
      exact hy'
    exact hkept.leaves h fun y hy => ⟨h.before.sound.waits_of_carriedBy (hcarries y hy),
      h.after.sound.waits_of_carriedBy (hcarries' y hy)⟩
  cases hp with
  | running hc hparts => exact .running (hcontrol.trans hc) (hrest hparts)
  | entering hc hparts => exact .entering (hcontrol.trans hc) (houtside hparts)
  | rejoining hc hkept hparts =>
    refine .rejoining (hcontrol.trans hc) (hcarried hkept fun y hy => .inl ?_) (houtside hparts)
    rw [hc]
    exact hy
  | returning hc hparts => exact .returning (hcontrol.trans hc) (hrest hparts)
  | waking hc hst hg ho hparts =>
    refine .waking (hcontrol.trans hc) (hstack.trans hst) hg ho
      (hparts.leaves h hf (fun hfx => absurd hfx hne) fun k hk => hplaces k ?_)
    rw [hst]
    exact List.mem_cons_of_mem _ hk
  | done hc hst hb hparts => exact .done (hcontrol.trans hc) (hstack.trans hst) hb (houtside hparts)
  | @brought b v s scope goal parts hc hawaits hb hscope hgoal hparts =>
    obtain ⟨scope', hscope', hctx, hclauses, hfinish⟩ := h.scope s scope hscope
    have hc' := hcontrol.trans hc
    have hawaits' : awaitedScope? (m'.routine f).stack = some s := by rw [hstack]; exact hawaits
    have hfinish' : scope'.finish = scope.finish :=
      hfinish.resolve_right fun hover => hover.unbrought f ⟨b, hc', hawaits'⟩
    have hpos := h.before.sound.holders_pos_of_frame
      (h.before.sound.linked.holds_pos_of_returning (by simp) hc hawaits) hscope
    have hpos' := h.after.sound.holders_pos_of_frame
      (h.after.sound.linked.holds_pos_of_returning (by simp) hc' hawaits') hscope'
    rw [← hctx, ← hclauses]
    refine .brought hc' hawaits' hb hscope' ?_ (hrest hparts)
    rw [hfinish', hctx, hclauses]
    exact hgoal.leaves h fun t hfin => ⟨h.before.sound.waits_into hscope hpos hfin,
      h.after.sound.waits_into hscope' hpos' (hfinish'.trans hfin)⟩
  | @offering y s e b k kept parts hc hawaits hx hkept hparts =>
    exact .offering (hcontrol.trans hc) (by rw [hstack]; exact hawaits) hx
      (hcarried hkept (carriedBy_of_offer hc hawaits hx)) (hrest hparts)

end Machine

end OneShot
