import OneShot.Proofs.Playing

/-!
# Steps at the front of a strand

With each step of the routine at its front, the strand that a machine plays goes on as `Strand.Step` says,
or the routine only does what comes in between: it takes frames off that pass outcomes on, withdraws entries
from registries, and gives signals to the routine outside of it. `rank` says how much of this is still to be
done.
-/

namespace OneShot

variable {P V σ : Type}

/-- The call that a clause makes for an effect with this argument. -/
def Clause.call? : Clause P → Boxed V → Option (Call P V)
  | .function p, .datum v => some (.function p v)
  | .arms choice, .raised cause => (choice.select cause).map fun p => .arm p cause
  | _, _ => none

/-- The call that a scope makes when it takes a signal. -/
def Scope.call? (scope : Scope P) : Signal V → Option (Call P V)
  | .perform e b | .forward e b _ => (scope.clauses.lookup e).bind (·.call? b)
  | .done b =>
    match scope.finish, b with
    | .call p, .datum v => some (.value p v)
    | _, _ => none

namespace Machine

open Control

variable {code : P → Entry V → Code P V σ V} {m m' : Machine P V σ} {i j s f x : RoutineId}
  {st st₀ base : List (Frame P V σ)} {ps qs parts : List (Part P V σ)} {q : Strand P V σ}
  {opened : ContextId → Prop} {around : Option ContextId}

/-- The call that a scope makes with the next step of the routine. -/
def call? (m : Machine P V σ) (j : RoutineId) : Option (Call P V) :=
  match (m.routine j).control, (m.routine j).stack with
  | .returning (.value (.signal x)), .dispatch s :: _ => (m.routine s).scope.bind (·.call? x)
  | _, _ => none

/-- How much a routine has to do before the strand at whose front it is goes on. -/
def rank (m : Machine P V σ) (f : RoutineId) : Nat × Nat :=
  match (m.routine f).control with
  | .starting (.rejoin k _) _ => (3, k.keys.length)
  | .starting _ _ => (0, 1)
  | .returning (.value (.signal _)) => (1, if (m.routine f).stack = [] then 2 else m.delay f)
  | .returning _ => (2, (m.routine f).stack.length)
  | _ => (0, 0)

/-- With a step of the routine at its front, a strand goes on, or the routine has less to do before it
does. -/
inductive Advances (code : P → Entry V → Code P V σ V) (opened : ContextId → Prop)
    (around : Option ContextId) (m : Machine P V σ) (i : RoutineId) (st₀ : List (Frame P V σ))
    (f : RoutineId) (q : Strand P V σ) : Prop where
  | between (f' : RoutineId) (plays : Plays code (m.stepOf code f) i st₀ f' q)
    (silent : m.call? f = none)
    (less : Prod.Lex (· < ·) (· < ·) ((m.stepOf code f).rank f') (m.rank f))
  | goes (f' : RoutineId) {q' : Strand P V σ} {call : Option (Call P V)}
    (plays : Plays code (m.stepOf code f) i st₀ f' q') (calls : m.call? f = call)
    (step : Strand.Step code opened around q call q')

/-- The outcome of a strand has come to where the strand began. -/
structure Arrived (m : Machine P V σ) (i : RoutineId) (st₀ : List (Frame P V σ)) (o : Outcome V V) :
    Prop where
  control : (m.routine i).control = .returning (o.map .plain)
  stack : (m.routine i).stack = st₀

/-! ## What a step leaves alone -/

/-- A step that follows the rule about places leaves those of other routines alone. -/
theorem Proper.leaves (h : m.Proper) (huse : m.UsesOwn) (hhead : m.ready.head? = some x)
    (hx : (m.routine x).control.isActive = true) : m.Leaves (m.stepOf code x) x := by
  have hstep : m.step code = some (m.stepOf code x) := step_of_head hhead
  have hf : m.Follows x (m.stepOf code x) := h.sound.stepOf hx
  refine ⟨h, h.step hstep, hx, hf.influences.stack, fun j scope hscope => ?_, fun j k hjx hk => ?_⟩
  · have habides : (m.routine j).Abides ((m.stepOf code x).routine j) := by
      by_cases hjx : j = x
      · exact hjx ▸ hf.influences.own
      · exact hf.influences.abides j hjx (lt_of_scope (by rw [hscope]; rfl))
    obtain ⟨scope', hscope', hages⟩ := habides.exists_scope hscope
    refine ⟨scope', hscope', hages.ctx, hages.clauses, hages.finish.imp id ?_⟩
    rintro ⟨t, -, hfin⟩
    exact (h.step hstep).once.spent j scope' hscope' hfin
  · apply retains_stepOf.conts k (h.sound.lt_of_owns hk)
    rintro (⟨c, hc, hplace⟩ | ⟨o, st, -, hst⟩)
    · exact hjx (huse x c k hhead hc hplace j hk)
    · refine hjx (h.sound.owner_unique hk ?_)
      rw [Owns, hst]
      exact List.mem_cons_self

/-- What a scope does with a value stays, if the scope is held and not over. -/
theorem Leaves.goal (h : m.Leaves m' x) {scope : Scope P} {goal : Goal P V σ}
    (hscope : (m.routine s).scope = some scope)
    (hgoal : m.HasGoal scope.finish scope.ctx scope.clauses goal) (hpos : 0 < scope.holders)
    (hpos' : ∀ scope', (m'.routine s).scope = some scope' → 0 < scope'.holders)
    (hover : ¬ m'.Concluded s) :
    ∃ scope', (m'.routine s).scope = some scope' ∧ scope'.ctx = scope.ctx ∧
      scope'.clauses = scope.clauses ∧ m'.HasGoal scope'.finish scope'.ctx scope'.clauses goal := by
  obtain ⟨scope', hscope', hctx, hclauses, hfinish⟩ := h.scope s scope hscope
  refine ⟨scope', hscope', hctx, hclauses, ?_⟩
  rw [hfinish.resolve_right hover, hctx, hclauses]
  exact hgoal.leaves h fun t hfin => ⟨h.before.sound.waits_into hscope hpos hfin,
    h.after.sound.waits_into hscope' (hpos' scope' hscope')
      ((hfinish.resolve_right hover).trans hfin)⟩

/-- Who listens to a body goes on listening while it makes a step, if the body does not end and does not hand
anything out. -/
theorem Follows.listening_self (hf : m.Follows f m') (h : m.Sound)
    (hs : (m.routine f).scope.isSome) (hstays : (m'.routine f).control.isUnderWay f = true)
    (hj : (m.routine j).control = .listening f) : (m'.routine j).control = .listening f := by
  have hout := h.linked.outbox_of_listening hs hj
  refine hf.sound.linked.outbox f j ?_
  cases hf.influences.moves hs with
  | on hslots _ => exact (congrArg (fun r => r.2.2) hslots).trans hout
  | suspended _ hslots =>
    have hs' : (m'.routine f).scope.isSome := hf.influences.own.isSome.trans hs
    have hstatus : (m'.routine f).status = .suspending := congrArg Prod.fst hslots
    have hreading := ((hf.sound.linked.phase f hs').suspending hstatus).2.2.1
    rw [hreading] at hstays
    simp [isUnderWay] at hstays
  | atEnd o hc _ =>
    rw [hc] at hstays
    cases hstays

/-- The parts in a routine, and what is outside, below a frame that passes outcomes on. -/
theorem HasRest.skip {g : Frame P V σ} (hg : g.isPassage = true)
    (hrest : m.HasRest i st₀ f st ps) : m.HasRest i st₀ f (g :: st) ps := by
  obtain ⟨own, base, ps, qs, rfl, hps, hout, rfl⟩ := hrest
  exact ⟨g :: own, base, ps, qs, rfl, .skip hg hps, hout, rfl⟩

/-- The same, below code. -/
theorem HasRest.next {n : Outcome V V → Code P V σ V} (hrest : m.HasRest i st₀ f st ps) :
    m.HasRest i st₀ f (.next n :: st) (.code n :: ps) := by
  obtain ⟨own, base, ps, qs, rfl, hps, hout, rfl⟩ := hrest
  exact ⟨.next n :: own, base, .code n :: ps, qs, rfl, .code hps, hout, rfl⟩

/-- The same, below a handler function. -/
theorem HasRest.kept {k : ContId} {c : Cont} {kept : Kept P V σ}
    (hplace : m.conts.getD k.val none = some c) (hkept : m.HasKept c kept)
    (hrest : m.HasRest i st₀ f st ps) : m.HasRest i st₀ f (.owning k :: st) (.owning k (some kept) :: ps) := by
  obtain ⟨own, base, ps, qs, rfl, hps, hout, rfl⟩ := hrest
  exact ⟨.owning k :: own, base, .owning k (some kept) :: ps, qs, rfl, .kept hplace hkept hps, hout, rfl⟩

/-- Inside of a routine that listens to a body, the scope of the body comes next. -/
theorem HasRest.inward {scope : Scope P} {goal : Goal P V σ}
    (hrest : m.HasRest i st₀ j (m.routine j).stack ps)
    (hj : (m.routine j).control = .listening s) (hscope : (m.routine s).scope = some scope)
    (hgoal : m.HasGoal scope.finish scope.ctx scope.clauses goal) :
    m.Outside i st₀ s [] (.scope scope.ctx scope.clauses goal :: ps) := by
  obtain ⟨own, base, ps, qs, hst, hps, hout, rfl⟩ := hrest
  exact .scope hscope hgoal hj hst hps hout

/-- What is outside of a routine with nothing left to do in it. -/
theorem Outside.rest (hout : m.Outside i st₀ f [] qs) : m.HasRest i st₀ f [] qs :=
  ⟨[], [], [], qs, rfl, .nil, hout, rfl⟩

/-! ## The routine at the front -/

/-- The next step is that of routine `f`, and it follows the rule about places. -/
structure AtFront (code : P → Entry V → Code P V σ V) (m : Machine P V σ) (f : RoutineId) : Prop where
  proper : m.Proper
  uses : m.UsesOwn
  head : m.ready.head? = some f
  active : (m.routine f).control.isActive = true

namespace AtFront

variable (h : m.AtFront code f)
include h

theorem lt : f.val < m.routines.size := lt_of_isActive h.active

theorem leaves : m.Leaves (m.stepOf code f) f := h.proper.leaves h.uses h.head h.active

theorem follows : m.Follows f (m.stepOf code f) := h.proper.sound.stepOf h.active

theorem posture : (m.routine f).Posture := h.proper.sound.linked.posture f (by simp)

/-- What is outside of the front stays while the front stays. -/
theorem outside (hstays : ((m.stepOf code f).routine f).control.isUnderWay f = true)
    (hout : m.Outside i st₀ f base qs) : (m.stepOf code f).Outside i st₀ f base qs := by
  cases hout with
  | begin => exact .begin
  | scope hscope hgoal hlistens hst hps rest =>
    refine Outside.leaves h.leaves h.follows (fun _ j hj => ?_)
      (.scope hscope hgoal hlistens hst hps rest)
    exact h.follows.listening_self h.proper.sound (by rw [hscope]; rfl) hstays hj

/-- So do the parts in the front, if the places stay that it owns. -/
theorem rest (hstays : ((m.stepOf code f).routine f).control.isUnderWay f = true)
    (hplaces : ∀ k, .owning k ∈ st →
      (m.stepOf code f).conts.getD k.val none = m.conts.getD k.val none)
    (hrest : m.HasRest i st₀ f st ps) : (m.stepOf code f).HasRest i st₀ f st ps := by
  obtain ⟨own, base, ps, qs, rfl, hps, hout, rfl⟩ := hrest
  exact ⟨own, base, ps, qs, rfl,
    hps.leaves h.leaves fun k hk => hplaces k (List.mem_append_left _ hk), h.outside hstays hout, rfl⟩

/-- Code that names no place leaves those that its routine owns alone. -/
theorem place_of_running {c : Code P V σ V} {k : ContId} (hc : (m.routine f).control = .running c)
    (hk : .owning k ∈ (m.routine f).stack) (hnamed : c.place? ≠ some k) :
    (m.stepOf code f).conts.getD k.val none = m.conts.getD k.val none := by
  apply retains_stepOf.conts k (h.proper.sound.lt_of_owns hk)
  rintro (⟨c', hc', hplace⟩ | ⟨o, st, hc', -⟩)
  · obtain rfl : c = c' := running.inj (hc.symm.trans hc')
    exact hnamed hplace
  · cases hc.symm.trans hc'

/-- A routine that gives an outcome to its topmost frame leaves the places alone that other frames own. -/
theorem place_of_returning {o : Outcome V (Parcel V)} {g : Frame P V σ} {k : ContId}
    (hc : (m.routine f).control = .returning o) (hst : (m.routine f).stack = g :: st)
    (hk : .owning k ∈ st) :
    (m.stepOf code f).conts.getD k.val none = m.conts.getD k.val none := by
  have hown : m.Owns f k := by
    rw [Owns, hst]
    exact List.mem_cons_of_mem _ hk
  apply retains_stepOf.conts k (h.proper.sound.lt_of_owns hown)
  rintro (⟨c, hc', -⟩ | ⟨o', st', -, hst'⟩)
  · cases hc.symm.trans hc'
  · obtain ⟨rfl, rfl⟩ : g = .owning k ∧ st = st' := by simpa using hst.symm.trans hst'
    exact (h.proper.sound.notMem_of_owning (hst.trans (List.nil_append _).symm)).2 hk

end AtFront

/-! ## The edge of a strand -/

theorem HasParts.isScope {st : List (Frame P V σ)} {ps : List (Part P V σ)} :
    m.HasParts st ps → ∀ x ∈ ps, x.isScope = false
  | .nil => fun _ hx => absurd hx List.not_mem_nil
  | .code rest => List.forall_mem_cons.2 ⟨rfl, rest.isScope⟩
  | .kept _ _ rest => List.forall_mem_cons.2 ⟨rfl, rest.isScope⟩
  | .gone _ rest => List.forall_mem_cons.2 ⟨rfl, rest.isScope⟩
  | .skip _ rest => rest.isScope

/-- The parts of two stacks, one above the other. -/
theorem HasParts.append {st st' : List (Frame P V σ)} {ps ps' : List (Part P V σ)} (h : m.HasParts st ps)
    (h' : m.HasParts st' ps') : m.HasParts (st ++ st') (ps ++ ps') :=
  match h with
  | .nil => h'
  | .code rest => .code (rest.append h')
  | .kept hplace hkept rest => .kept hplace hkept (rest.append h')
  | .gone hplace rest => .gone hplace (rest.append h')
  | .skip hf rest => .skip hf (rest.append h')

/-- The parts of a stack up to a place that is not empty. -/
theorem HasParts.split_owning {place : ContId} {kept : Kept P V σ} {st : List (Frame P V σ)}
    {ps ps' : List (Part P V σ)} {inside : List (Outcome V V → Code P V σ V)} :
    m.HasParts st ps → ps = inside.map .code ++ .owning place (some kept) :: ps' →
      ∃ st₁ st₂ c, st = st₁ ++ .owning place :: st₂ ∧ m.HasParts st₁ (inside.map .code) ∧
        (∀ k, .owning k ∉ st₁) ∧ m.conts.getD place.val none = some c ∧ m.HasKept c kept ∧
        m.HasParts st₂ ps'
  | .nil, heq => by simp at heq
  | .code rest, heq => by
    cases inside with
    | nil => cases heq
    | cons n inside =>
      obtain ⟨hn, htail⟩ := List.cons.inj heq
      obtain ⟨st₁, st₂, c, rfl, hst₁, hno, hrest⟩ := rest.split_owning htail
      cases hn
      refine ⟨_ :: st₁, st₂, c, rfl, .code hst₁, fun k hk => ?_, hrest⟩
      rcases List.mem_cons.1 hk with hk | hk
      · cases hk
      · exact hno k hk
  | .kept hplace hkept rest, heq => by
    cases inside with
    | nil =>
      cases heq
      exact ⟨[], _, _, rfl, .nil, fun k hk => absurd hk List.not_mem_nil, hplace, hkept, rest⟩
    | cons n inside => cases heq
  | .gone _ _, heq => by cases inside <;> cases heq
  | .skip hf rest, heq => by
    obtain ⟨st₁, st₂, c, rfl, hst₁, hno, hrest⟩ := rest.split_owning heq
    refine ⟨_ :: st₁, st₂, c, rfl, .skip hf hst₁, fun k hk => ?_, hrest⟩
    rcases List.mem_cons.1 hk with rfl | hk
    · cases hf
    · exact hno k hk

/-- What a routine begins with that is no scope is in the routine itself. -/
theorem split_of_not_isScope {inside : List (Outcome V V → Code P V σ V)} {place : ContId}
    {kept : Option (Kept P V σ)} (hqs : ∀ x ∈ qs.head?, x.isScope = true)
    (heq : ps ++ qs = inside.map .code ++ .owning place kept :: parts) :
    ∃ ps', ps = inside.map .code ++ .owning place kept :: ps' ∧ parts = ps' ++ qs := by
  rcases List.append_eq_append_iff.1 heq with ⟨xs, hinside, rfl⟩ | ⟨xs, rfl, htail⟩
  · cases xs with
    | nil => cases hqs _ rfl
    | cons x xs =>
      have hscope := hqs x rfl
      have hmem : x ∈ inside.map Part.code := by
        rw [hinside]
        exact List.mem_append_right _ List.mem_cons_self
      obtain ⟨n, -, rfl⟩ := List.mem_map.1 hmem
      cases hscope
  · cases xs with
    | nil =>
      obtain rfl : Part.owning place kept :: parts = qs := htail
      cases hqs _ rfl
    | cons x xs =>
      obtain ⟨rfl, rfl⟩ := List.cons.inj htail
      exact ⟨xs, rfl, rfl⟩

theorem Outside.head (hout : m.Outside i st₀ f base qs) : ∀ x ∈ qs.head?, x.isScope = true := by
  cases hout with
  | begin => intro x hx; cases hx
  | scope _ _ _ _ _ _ =>
    intro x hx
    obtain rfl := Option.some.inj hx
    rfl

/-- The context of the scope that resumes routine `i`, if it is resumed as the body of one. -/
def Edge (m : Machine P V σ) (i : RoutineId) (around : Option ContextId) : Prop :=
  ∀ c, around = some c ↔ ∃ j, m.Resumes c j i

namespace AtFront

variable (h : m.AtFront code f)
include h

/-- Outside of the front the strand is at its edge, or comes to the scope of the front, and to the routine that
listens to it. -/
theorem outside_cases (hout : m.Outside i st₀ f base qs) :
    base = st₀ ∧ f = i ∧ qs = [] ∨
      ∃ scope j goal rest, base = [] ∧ (m.routine f).scope = some scope ∧
        m.HasGoal scope.finish scope.ctx scope.clauses goal ∧
        (m.routine j).control = .listening f ∧ (m.routine f).outbox = .awaited j ∧ j ≠ f ∧
        qs = .scope scope.ctx scope.clauses goal :: rest ∧
        (m.stepOf code f).HasRest i st₀ j (m.routine j).stack rest := by
  cases hout with
  | begin => exact .inl ⟨rfl, rfl, rfl⟩
  | @scope _ j scope goal own base ps qs hscope hgoal hlistens hst hps rest =>
    have hjf : j ≠ f := by
      rintro rfl
      exact ne_listening_of_isActive h.active j hlistens
    have hout := (h.proper.sound.linked.takesSignals hscope hlistens).1
    refine .inr ⟨scope, j, goal, ps ++ qs, rfl, hscope, hgoal, hlistens, hout, hjf, rfl, own, base, ps, qs,
      hst, hps.leaves h.leaves fun k hk => h.leaves.place j k hjf ?_,
      rest.leaves h.leaves h.follows fun hjf' => absurd hjf' hjf, rfl⟩
    rw [Owns, hst]
    exact List.mem_append_left _ hk

end AtFront

/-- The context on which a routine is resumed is that of the nearest scope. -/
theorem HasRest.nearest_eq (hrest : m.HasRest i st₀ f st parts) (h : m.Sound) (hedge : m.Edge i around)
    (c : ContextId) : Strand.nearest around parts = some c ↔ ∃ j, m.Resumes c j f := by
  obtain ⟨own, base, ps, qs, rfl, hps, hout, rfl⟩ := hrest
  rw [Strand.nearest_append hps.isScope]
  cases hout with
  | begin => exact hedge c
  | @scope _ j scope goal own base ps qs hscope _ hlistens _ _ _ =>
    have hout := (h.linked.takesSignals hscope hlistens).1
    constructor
    · intro hc
      exact ⟨j, ⟨scope, hscope, Option.some.inj hc⟩, hout⟩
    · rintro ⟨-, ⟨scope', hscope', hid⟩, -⟩
      obtain rfl : scope = scope' := Option.some.inj (hscope.symm.trans hscope')
      exact congrArg some hid

/-! ## Code -/

theorem call?_of_running {c : Code P V σ V} (hc : (m.routine f).control = .running c) :
    m.call? f = none := by
  rw [call?, hc]

theorem call?_of_starting {s : Start P V} {a : Parcel V} (hc : (m.routine f).control = .starting s a) :
    m.call? f = none := by
  rw [call?, hc]

namespace AtFront

variable (h : m.AtFront code f)
include h

/-- Code ends. -/
theorem ends {o : Outcome V V} (hc : (m.routine f).control = .running (.ofOutcome o))
    (hrest : m.HasRest i st₀ f (m.routine f).stack parts) :
    Advances code opened around m i st₀ f (.running (.ofOutcome o) parts) := by
  have hr : (m.stepOf code f).routine f =
      { m.routine f with control := .returning (o.map .plain) } := by
    rw [stepOf_running hc]
    cases o <;> exact routine_update_self h.lt _
  refine .goes f (.returning (by rw [hr]) ?_) (call?_of_running hc) (.ends o rfl)
  rw [show ((m.stepOf code f).routine f).stack = (m.routine f).stack by rw [hr]]
  refine h.rest (by rw [hr]; rfl) (fun k hk => h.place_of_running hc hk ?_) hrest
  cases o <;> simp [Code.ofOutcome, Code.place?]

/-- Code calls a procedure. -/
theorem calls {p : P} {entry : Entry V} {n : Outcome V V → Code P V σ V}
    (hc : (m.routine f).control = .running (.act (.call p entry) n))
    (hrest : m.HasRest i st₀ f (m.routine f).stack parts) :
    Advances code opened around m i st₀ f (.running (.act (.call p entry) n) parts) := by
  have hr : (m.stepOf code f).routine f =
      { m.routine f with
        control := .running (code p entry)
        stack := .next n :: (m.routine f).stack } := by
    rw [stepOf_act hc]
    show ((m.pushFrame f (.next n)).setControl f (.running (code p entry))).routine f = _
    rw [setControl, routine_update_self (by simpa [Machine.pushFrame] using h.lt), Machine.pushFrame,
      routine_update_self h.lt]
  refine .goes f (.running (by rw [hr]) ?_) (call?_of_running hc) .calls
  rw [show ((m.stepOf code f).routine f).stack = .next n :: (m.routine f).stack by rw [hr]]
  exact .next (h.rest (by rw [hr]; rfl)
    (fun k hk => h.place_of_running hc hk (by simp [Code.place?])) hrest)

/-- Code asks something about anything but continuations. -/
theorem asks {query : Query P} {next : query.Reply → Code P V σ V}
    (hc : (m.routine f).control = .running (.ask query next))
    (hplace : (Code.ask query next : Code P V σ V).place? = none)
    (hrest : m.HasRest i st₀ f (m.routine f).stack parts) :
    Advances code opened around m i st₀ f (.running (.ask query next) parts) := by
  have hstep : m.stepOf code f =
      (m.answer f query).2.setControl f (.running (next (m.answer f query).1)) := by
    rw [stepOf_running hc]
    rfl
  have hlt : f.val < (m.answer f query).2.routines.size := by
    have hsize := h.follows.influences.size
    rw [hstep] at hsize
    exact h.lt.trans_le (by simpa [setControl] using hsize)
  have hr : (m.stepOf code f).routine f =
      { (m.answer f query).2.routine f with control := .running (next (m.answer f query).1) } := by
    rw [hstep, setControl, routine_update_self hlt]
  refine .goes f (.running (by rw [hr]) ?_) (call?_of_running hc) (.asks _ hplace)
  rw [show ((m.stepOf code f).routine f).stack = _ by rw [hr], stack_answer h.lt]
  exact h.rest (by rw [hr]; rfl) (fun k hk => h.place_of_running hc hk (by rw [hplace]; simp)) hrest

/-- Code changes the store. -/
theorem accesses {change : σ → σ} {next : σ → Code P V σ V}
    (hc : (m.routine f).control = .running (.access change next))
    (hrest : m.HasRest i st₀ f (m.routine f).stack parts) :
    Advances code opened around m i st₀ f (.running (.access change next) parts) := by
  have hr : (m.stepOf code f).routine f =
      { m.routine f with control := .running (next m.store) } := by
    rw [stepOf_running hc]
    exact routine_update_self h.lt _
  refine .goes f (.running (by rw [hr]) ?_) (call?_of_running hc) (.accesses m.store)
  rw [show ((m.stepOf code f).routine f).stack = (m.routine f).stack by rw [hr]]
  exact h.rest (by rw [hr]; rfl) (fun k hk => h.place_of_running hc hk (by simp [Code.place?])) hrest

/-- A body begins. -/
theorem enters {p : P} {a : Parcel V} (hc : (m.routine f).control = .starting (.handled p) a)
    (hout : m.Outside i st₀ f [] parts) :
    Advances code opened around m i st₀ f (.running (code p .nothing) parts) := by
  have hposture := h.posture
  simp only [Routine.Posture, hc] at hposture
  have hr : (m.stepOf code f).routine f =
      { m.routine f with control := .running (code p .nothing), stack := [.handledBody] } := by
    rw [stepOf_starting hc]
    show ((m.pushFrame f .handledBody).setControl f (.running (code p .nothing))).routine f = _
    rw [setControl, routine_update_self (by simpa [Machine.pushFrame] using h.lt), Machine.pushFrame,
      routine_update_self h.lt, hposture.1]
  refine .between f (.running (by rw [hr]) ?_) (call?_of_starting hc) ?_
  · rw [show ((m.stepOf code f).routine f).stack = [.handledBody] by rw [hr]]
    exact .skip rfl (h.outside (by rw [hr]; rfl) hout).rest
  · have hbefore : m.rank f = (0, 1) := by rw [rank, hc]
    have hafter : (m.stepOf code f).rank f = (0, 0) := by rw [rank, hr]
    rw [hbefore, hafter]
    exact .right 0 Nat.zero_lt_one

/-! ## Outcomes -/

/-- The strand after a step in which a frame hands an outcome on. -/
theorem handedOn {o o' : Outcome V (Parcel V)} {g : Frame P V σ}
    (hc : (m.routine f).control = .returning o) (hst : (m.routine f).stack = g :: st)
    (hg : g.handsOn? o = some o') (hrest : m.HasRest i st₀ f st parts) :
    ((m.stepOf code f).routine f).control = .returning o' ∧
      ((m.stepOf code f).routine f).stack = st ∧ (m.stepOf code f).HasRest i st₀ f st parts := by
  have hands : m.HandsOn (m.stepOf code f) f g o' st := h.proper.sound.handsOn hc hst hg
  refine ⟨hands.control, hands.stack, h.rest ?_ (fun k hk => h.place_of_returning hc hst hk) hrest⟩
  rw [hands.control]
  rfl

end AtFront

theorem rank_of_returning {o : Outcome V (Parcel V)} (hc : (m.routine f).control = .returning o)
    (ho : o.signal? = none) : m.rank f = (2, (m.routine f).stack.length) := by
  rw [rank, hc]
  cases o with
  | value a =>
    cases a with
    | signal x => cases ho
    | _ => rfl
  | _ => rfl

theorem rank_of_signal {x : Signal V} (hc : (m.routine f).control = .returning (.value (.signal x))) :
    m.rank f = (1, if (m.routine f).stack = [] then 2 else m.delay f) := by
  rw [rank, hc]

theorem call?_of_returning {o : Outcome V (Parcel V)} (hc : (m.routine f).control = .returning o)
    (ho : o.signal? = none) : m.call? f = none := by
  rw [call?, hc]
  cases o with
  | value a =>
    cases a with
    | signal x => cases ho
    | _ => rfl
  | _ => rfl

theorem signal?_map_plain (o : Outcome V V) : (o.map Parcel.plain).signal? = none := by
  cases o <;> rfl

namespace AtFront

variable (h : m.AtFront code f)
include h

/-- A frame hands an outcome on that code sees. -/
theorem handsOn {o : Outcome V (Parcel V)} {o' : Outcome V V} {g : Frame P V σ}
    (hc : (m.routine f).control = .returning o) (ho : o.signal? = none)
    (hst : (m.routine f).stack = g :: st) (hg : g.handsOn? o = some (o'.map .plain))
    (hrest : m.HasRest i st₀ f st parts) :
    Advances code opened around m i st₀ f (.returning o' parts) := by
  obtain ⟨hc', hst', hrest'⟩ := h.handedOn hc hst hg hrest
  refine .between f (.returning hc' (hst' ▸ hrest')) (call?_of_returning hc ho) ?_
  rw [rank_of_returning hc' (signal?_map_plain o'), rank_of_returning hc ho, hst', hst]
  exact .right 2 (Nat.lt_succ_self _)

/-- A perform, or the forwarding of an effect, comes back. -/
theorem wakes {o : Outcome V (Parcel V)} {o' : Outcome V V} {g : Frame P V σ}
    (hc : (m.routine f).control = .returning o) (hst : (m.routine f).stack = g :: st)
    (hneed : g.need?.isSome) (hg : g.handsOn? o = some (o'.map .plain))
    (hrest : m.HasRest i st₀ f st parts) :
    Advances code opened around m i st₀ f (.returning o' parts) := by
  refine h.handsOn hc ?_ hst hg hrest
  have hposture := h.posture
  simp only [Routine.Posture, hc, hst] at hposture
  cases g with
  | performing => exact signal?_eq_none_of_carries hposture.1
  | forwarding e => exact signal?_eq_none_of_carries hposture.1
  | _ => cases hneed

/-- The value of a handled body, or of a forwarded continuation, becomes a signal. -/
theorem hasValue {v : V} {b : Boxed V} {g : Frame P V σ}
    (hc : (m.routine f).control = .returning (.value (.plain v)))
    (hst : (m.routine f).stack = [g]) (hg : g.handsOn? (.value (.plain v)) = some (.value (.signal (.done b))))
    (hb : b.value? = some v) (hrest : m.HasRest i st₀ f [] parts) (hparts : m.Outside i st₀ f [] parts) :
    Advances code opened around m i st₀ f (.returning (.value v) parts) := by
  obtain ⟨hc', hst', -⟩ := h.handedOn hc hst hg hrest
  refine .between f (.done hc' hst' hb (h.outside (by rw [hc']; rfl) hparts))
    (call?_of_returning hc rfl) ?_
  rw [rank_of_signal hc', rank_of_returning hc rfl]
  exact .left _ _ (Nat.lt_succ_self 1)

/-- What the routine that listens to the front does after the end of the front. -/
theorem routine_ended {o : Outcome V (Parcel V)} (hc : (m.routine f).control = .returning o)
    (hst : (m.routine f).stack = []) (hs : (m.routine f).scope.isSome)
    (hout : (m.routine f).outbox = .awaited j) (hj : (m.routine j).control = .listening f)
    (hne : j ≠ f) : (m.stepOf code f).routine j = (m.routine j).told o := by
  have hstep : m.stepOf code f = m.finish f o :=
    stepOf_ending hc hst
  have hlt : j.val < m.routines.size := lt_of_ne_ended (by rw [hj]; simp)
  rw [hstep, routine_finish_awaited (h.proper.sound.linked.phase f hs).alone hout hne.symm h.lt hlt,
    if_neg hne, if_pos rfl]

/-- An error or panic leaves a body, or the outcome has come to where the strand began. -/
theorem passes {o : Outcome V V} (hc : (m.routine f).control = .returning (o.map .plain))
    (hst : (m.routine f).stack = base) (hout : m.Outside i st₀ f base qs) :
    Advances code opened around m i st₀ f (.returning o qs) ∨ qs = [] ∧ m.Arrived i st₀ o := by
  rcases h.outside_cases hout with ⟨rfl, rfl, rfl⟩ |
      ⟨scope, j, goal, rest, rfl, hscope, -, hj, hout', hne, rfl, hrest⟩
  · exact .inr ⟨rfl, hc, hst⟩
  · left
    have hposture := h.posture
    simp only [Routine.Posture, hc, hst, Routine.role, hscope, Option.map_some] at hposture
    have ho : o.isAbrupt = true := by
      cases o with
      | value v => exact False.elim hposture
      | _ => rfl
    have hr := h.routine_ended hc hst (by rw [hscope]; rfl) hout' hj hne
    refine .goes j (.returning (by rw [hr]; rfl) ?_) (call?_of_returning hc (signal?_map_plain o))
      (.passes ho)
    rw [show ((m.stepOf code f).routine j).stack = (m.routine j).stack by rw [hr]; rfl]
    exact hrest

/-- The value of a body comes to the routine that listens to it. -/
theorem brings {b : Boxed V} {v : V}
    (hc : (m.routine f).control = .returning (.value (.signal (.done b))))
    (hst : (m.routine f).stack = []) (hb : b.value? = some v) (hout : m.Outside i st₀ f [] parts)
    (hbase : Settled (m.routine i).role st₀) :
    Advances code opened around m i st₀ f (.returning (.value v) parts) := by
  rcases h.outside_cases hout with ⟨rfl, rfl, -⟩ |
      ⟨scope, j, goal, rest, -, hscope, hgoal, hj, hout', hne, rfl, hrest⟩
  · -- Only a body has a value, and a strand does not begin below its last frame.
    have hposture := h.posture
    simp only [Routine.Posture, hc, hst, show (m.routine f).role = none from hbase, Fits] at hposture
    cases hposture
  · have hr := h.routine_ended hc hst (by rw [hscope]; rfl) hout' hj hne
    obtain ⟨-, st', hst', -⟩ := h.proper.sound.linked.takesSignals hscope hj
    have hstack : ((m.stepOf code f).routine j).stack = .registered scope.ctx.place f :: .dispatch f :: st' := by
      rw [hr]
      exact hst'
    have hc' : ((m.stepOf code f).routine j).control = .returning (.value (.signal (.done b))) := by
      rw [hr]
      rfl
    have hawaits : awaitedScope? ((m.stepOf code f).routine j).stack = some f := by
      rw [hstack]
      rfl
    have hafter := h.leaves.after.sound
    obtain ⟨scope', hscope', hctx, hclauses, hgoal'⟩ := h.leaves.goal hscope hgoal
      (h.proper.sound.holders_pos_of_frame
        (h.proper.sound.linked.holds_pos_of_listening (by rw [hscope]; rfl) hj) hscope)
      (fun _ => hafter.holders_pos_of_frame (hafter.linked.holds_pos_of_returning (by simp) hc' hawaits))
      (fun hover => hover.unbrought j ⟨b, hc', hawaits⟩)
    refine .between j ?_ ?_ ?_
    · rw [← hctx, ← hclauses]
      refine .brought hc' hawaits hb hscope' hgoal' ?_
      rw [show ((m.stepOf code f).routine j).stack = (m.routine j).stack by rw [hr]; rfl]
      exact hrest
    · rw [call?, hc, hst]
    · rw [rank_of_signal hc', rank_of_signal hc, hst, if_pos rfl, if_neg (by rw [hstack]; simp), delay,
        hstack]
      exact .right 1 (Nat.lt_succ_self 1)

end AtFront

/-- The same parts, without a frame that passes outcomes on. -/
theorem HasRest.unskip {g : Frame P V σ} (hrest : m.HasRest i st₀ f (g :: st) ps)
    (hg : g.isPassage = true) (hbase : ∀ st', st₀ ≠ g :: st') : m.HasRest i st₀ f st ps := by
  obtain ⟨own, base, ps, qs, heq, hps, hout, rfl⟩ := hrest
  cases own with
  | nil =>
    obtain rfl : g :: st = base := heq
    cases hout
    exact absurd rfl (hbase st)
  | cons g' own =>
    obtain ⟨rfl, rfl⟩ := List.cons.inj heq
    cases hps with
    | code _ => cases hg
    | kept _ _ _ => cases hg
    | gone _ _ => cases hg
    | skip _ rest => exact ⟨own, base, ps, qs, rfl, rest, hout, rfl⟩

/-- What a suspended body is resumed with is handed on as a value. -/
theorem handsOn?_of_need? {g : Frame P V σ} {mark : Mark} {b : Boxed V} {v : V}
    (hneed : g.need? = some mark) (hmark : b.mark? = some mark) (hv : b.value? = some v) :
    g.handsOn? (.value (.boxed b)) = some (.value (.plain v)) := by
  cases g with
  | performing =>
    obtain rfl : Mark.datum = mark := Option.some.inj hneed
    obtain ⟨w, rfl⟩ := Boxed.exists_datum hmark
    obtain rfl : w = v := Option.some.inj hv
    rfl
  | forwarding e =>
    obtain rfl : Mark.result = mark := Option.some.inj hneed
    obtain ⟨w, rfl⟩ := Boxed.exists_result hmark
    obtain rfl : w = v := Option.some.inj hv
    rfl
  | _ => cases hneed

/-- No signal is awaited at the edge of a strand. -/
theorem ne_of_awaits {role : Option Mark} {g : Frame P V σ} (h : Settled role st₀)
    (ha : awaitedScope? (g :: st) = some s) : st₀ ≠ g :: st := by
  rintro rfl
  rw [awaitedScope?_eq_none h] at ha
  cases ha

/-- A routine that awaits a signal takes it, or withdraws the entry of the resume first. -/
theorem Sound.awaits_cases (h : m.Sound) {y : Signal V}
    (hc : (m.routine f).control = .returning (.value (.signal y)))
    (hawaits : awaitedScope? (m.routine f).stack = some s) :
    (∃ st, (m.routine f).stack = .dispatch s :: st) ∨
      ∃ c st, (m.routine f).stack = .registered (.context c) s :: .dispatch s :: st := by
  have hposture := h.linked.posture f (by simp)
  simp only [Routine.Posture, hc] at hposture
  cases hst : (m.routine f).stack with
  | nil => rw [hst] at hawaits; cases hawaits
  | cons g st =>
    rw [hst] at hawaits hposture
    cases g with
    | dispatch t =>
      obtain rfl : t = s := Option.some.inj hawaits
      exact .inl ⟨st, rfl⟩
    | registered p t =>
      cases p with
      | context c =>
        obtain rfl : t = s := Option.some.inj hawaits
        obtain ⟨st', rfl, -⟩ := hposture
        exact .inr ⟨c, st', rfl⟩
      | registry r => cases hawaits
    | _ => cases hawaits

namespace AtFront

variable {role : Option Mark} (h : m.AtFront code f)
include h

/-- The entry of a resume is withdrawn before the signal is taken. -/
theorem withdraws {c : ContextId} {y : Signal V}
    (hc : (m.routine f).control = .returning (.value (.signal y)))
    (hst : (m.routine f).stack = .registered (.context c) s :: .dispatch s :: st)
    (hrest : m.HasRest i st₀ f (.dispatch s :: st) parts) :
    ((m.stepOf code f).routine f).control = .returning (.value (.signal y)) ∧
      ((m.stepOf code f).routine f).stack = .dispatch s :: st ∧
      (m.stepOf code f).HasRest i st₀ f (.dispatch s :: st) parts ∧ m.call? f = none ∧
      Prod.Lex (· < ·) (· < ·) ((m.stepOf code f).rank f) (m.rank f) := by
  obtain ⟨hc', hst', hrest'⟩ := h.handedOn hc hst rfl hrest
  refine ⟨hc', hst', hrest', by rw [call?, hc, hst], ?_⟩
  rw [rank_of_signal hc', rank_of_signal hc, hst', hst, if_neg (by simp), if_neg (by simp), delay, delay,
    hst', hst]
  exact .right 1 Nat.zero_lt_one

/-- The front resumes a body that waits. -/
theorem resumes {mark : Mark} {b : Boxed V} {v : V} {ctx : Context} {clauses : List (Effect × Clause P)}
    {goal : Goal P V σ} (hbody : m.HasBody s ps ctx clauses goal) (hw : m.Waits ⟨mark, s⟩)
    (hmark : b.mark? = some mark) (hv : b.value? = some v)
    (hf : ((m.stepOf code f).routine f).control = .listening s)
    (hs : ((m.stepOf code f).routine s).control = .returning (.value (.boxed b)))
    (hrest : (m.stepOf code f).HasRest i st₀ f ((m.stepOf code f).routine f).stack parts) :
    Plays code (m.stepOf code f) i st₀ s
      (.returning (.value v) (ps ++ .scope ctx clauses goal :: parts)) := by
  have hafter := h.leaves.after.sound
  obtain ⟨hscope, rfl, rfl, hst, hps, hgoal⟩ := hbody
  have hne : s ≠ f := h.leaves.ne_of_waits hw
  obtain ⟨scope', hscope', hctx, hclauses, hgoal'⟩ := h.leaves.goal hscope hgoal
    (h.proper.sound.holders_pos_of_waits hw hscope)
    (fun scope' hscope' => hafter.holders_pos_of_frame
      (hafter.linked.holds_pos_of_listening (by rw [hscope']; rfl) hf) hscope')
    (fun hover => by cases hover.ended.symm.trans hs)
  have hstack := h.leaves.stack _ hne (lt_of_scope (by rw [hscope]; rfl))
  rw [hst] at hstack
  have hneed : (m.routine s).stack.head?.bind Frame.need? = some mark := hw.2.2
  rw [hst] at hneed
  rw [← hctx, ← hclauses]
  refine .waking hs hstack (by rw [show Frame.need? _ = some mark from hneed]; rfl) ?_ ⟨_, [], ps, _,
    (List.append_nil _).symm, hps.leaves h.leaves fun k hk => ?_, hrest.inward hf hscope' hgoal', rfl⟩
  · exact handsOn?_of_need? hneed hmark hv
  · refine h.leaves.place s k hne ?_
    rw [Owns, hst]
    exact List.mem_cons_of_mem _ hk

/-- A scope takes the value of its body: it passes it on, calls its value handler, or answers the
body that forwarded. -/
theorem concludesAtOnce {b : Boxed V} {v : V} {scope : Scope P} {goal : Goal P V σ}
    (hc : (m.routine f).control = .returning (.value (.signal (.done b))))
    (hst : (m.routine f).stack = .dispatch s :: st) (hb : b.value? = some v)
    (hscope : (m.routine s).scope = some scope)
    (hgoal : m.HasGoal scope.finish scope.ctx scope.clauses goal)
    (hrest : m.HasRest i st₀ f st parts) :
    Advances code opened around m i st₀ f
      (.returning (.value v) (.scope scope.ctx scope.clauses goal :: parts)) := by
  obtain ⟨scope', hv⟩ := h.proper.sound.takesValue hc hst
  obtain rfl : scope = scope' := Option.some.inj (hscope.symm.trans hv.scope_eq)
  have hmark := hv.mark
  have hstep := hv.stepOf_eq code hc hst
  have hplaces : ∀ k, .owning k ∈ st →
      (m.stepOf code f).conts.getD k.val none = m.conts.getD k.val none :=
    fun k hk => h.place_of_returning hc hst hk
  have hcall : m.call? f = scope.call? (.done b) := by
    rw [call?, hc, hst]
    show (m.routine s).scope.bind _ = _
    rw [hscope]
    rfl
  have hgoes : ∀ d : Control P V σ,
      ((m.update f fun r => { r with stack := st }).setControl f d).routine f =
        { m.routine f with stack := st, control := d } := by
    intro d
    rw [setControl, routine_update_self (by simpa using h.lt), routine_update_self h.lt]
  rw [Scope.mark] at hmark
  unfold Machine.conclude at hstep
  cases hfin : scope.finish with
  | passOn =>
    simp only [hfin] at hgoal hmark hstep
    cases hgoal
    obtain ⟨w, rfl⟩ := Boxed.exists_datum hmark
    obtain rfl : w = v := Option.some.inj hb
    have hr : (m.stepOf code f).routine f =
        { m.routine f with stack := st, control := .returning (.value (.plain w)) } := by
      rw [hstep]
      exact hgoes _
    refine .goes f (.returning (by rw [hr]; rfl) ?_)
      (hcall.trans (by simp only [Scope.call?, hfin])) .passesOn
    rw [show ((m.stepOf code f).routine f).stack = st by rw [hr]]
    exact h.rest (by rw [hr]; rfl) hplaces hrest
  | call p =>
    simp only [hfin] at hgoal hmark hstep
    cases hgoal
    obtain ⟨w, rfl⟩ := Boxed.exists_datum hmark
    obtain rfl : w = v := Option.some.inj hb
    have hr : (m.stepOf code f).routine f =
        { m.routine f with stack := st, control := .running (code p (.value w)) } := by
      rw [hstep]
      exact hgoes _
    refine .goes f (.running (by rw [hr]) ?_) (hcall.trans ?_) .concludes
    · rw [show ((m.stepOf code f).routine f).stack = st by rw [hr]]
      exact h.rest (by rw [hr]; rfl) hplaces hrest
    · simp only [Scope.call?, hfin]
  | into t =>
    simp only [hfin] at hgoal hmark
    cases hgoal with
    | @into t _ _ ps goal hbody =>
      obtain ⟨w, rfl⟩ := Boxed.exists_result hmark
      obtain rfl : w = v := Option.some.inj hb
      obtain ⟨hw, ⟨ctx, hrf⟩, hrt⟩ := hv.entersOuter code h.proper.sound hc hst hfin
      refine .goes t (h.resumes hbody hw rfl rfl (by rw [hrf]; rfl) (by rw [hrt]; rfl) ?_)
        (hcall.trans (by simp only [Scope.call?, hfin])) .answers
      rw [show ((m.stepOf code f).routine f).stack = _ by rw [hrf]]
      exact .skip rfl (.skip rfl (.skip rfl (.skip rfl (h.rest (by rw [hrf]; rfl) hplaces hrest))))

/-- The value of a body has come to its scope. -/
theorem concludes {b : Boxed V} {v : V} {scope : Scope P} {goal : Goal P V σ} (hbase : Settled role st₀)
    (hc : (m.routine f).control = .returning (.value (.signal (.done b))))
    (hawaits : awaitedScope? (m.routine f).stack = some s) (hb : b.value? = some v)
    (hscope : (m.routine s).scope = some scope)
    (hgoal : m.HasGoal scope.finish scope.ctx scope.clauses goal)
    (hrest : m.HasRest i st₀ f (m.routine f).stack parts) :
    Advances code opened around m i st₀ f
      (.returning (.value v) (.scope scope.ctx scope.clauses goal :: parts)) := by
  rcases h.proper.sound.awaits_cases hc hawaits with ⟨st, hst⟩ | ⟨c, st, hst⟩
  · rw [hst] at hrest
    exact h.concludesAtOnce hc hst hb hscope hgoal
      (hrest.unskip rfl fun _ => ne_of_awaits (s := s) hbase rfl)
  · -- The entry of the resume is withdrawn first.
    have hpos := h.proper.sound.holders_pos_of_frame
      (h.proper.sound.linked.holds_pos_of_returning (by simp) hc hawaits) hscope
    have hafter := h.leaves.after.sound
    rw [hst] at hrest
    obtain ⟨hc', hst', hrest', hcall, hless⟩ := h.withdraws hc hst
      (hrest.unskip rfl fun _ => ne_of_awaits (s := s) hbase rfl)
    have hawaits' : awaitedScope? ((m.stepOf code f).routine f).stack = some s := by rw [hst']; rfl
    obtain ⟨scope', hscope', hctx, hclauses, hgoal'⟩ := h.leaves.goal hscope hgoal hpos
      (fun _ => hafter.holders_pos_of_frame (hafter.linked.holds_pos_of_returning (by simp) hc' hawaits'))
      (fun hover => hover.unbrought f ⟨b, hc', hawaits'⟩)
    refine .between f ?_ hcall hless
    rw [← hctx, ← hclauses]
    refine .brought hc' hawaits' hb hscope' hgoal' ?_
    rw [hst']
    exact hrest'

end AtFront

end Machine

end OneShot
