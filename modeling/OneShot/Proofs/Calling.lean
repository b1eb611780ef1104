import Mathlib.Logic.Relation
import OneShot.Proofs.Fair
import OneShot.Proofs.Onward

/-!
# Runs of a strand

A machine that plays a strand plays it to its end, whatever other routines do meanwhile. `OnCourse.follows`
says of all runs that the calls on the way are those that `Strand.Comes` says, in this order, and that no
other outcome comes up than one that it says; `OnCourse.arrives` says that every fair run comes to the end.

The calls of a run are those that are made on the *line* of a routine: by the routine itself, by the body
that it listens to, by the body that this one listens to, and so on. What is done beside the line, by
plain coroutines or by bodies that were given up, is not counted.
-/

namespace OneShot

variable {P V σ : Type}

namespace Machine

open Control

variable {code : P → Entry V → Code P V σ V} {m m' m'' : Machine P V σ} {i j s f f' x : RoutineId}
  {st st₀ base : List (Frame P V σ)} {ps qs : List (Part P V σ)} {q q' : Strand P V σ}
  {opened : ContextId → Prop} {around : Option ContextId} {o : Outcome V V}
  {calls cs : List (Call P V)} {call : Option (Call P V)} {R : Outcome V V → Prop}

/-! ## Calls on a line -/

/-- Routine `x` is on the line of routine `i`: it is `i` itself, or someone on the line listens to it. -/
def OnLine (m : Machine P V σ) (i x : RoutineId) : Prop :=
  Relation.ReflTransGen (fun j s => (m.routine j).control = .listening s) i x

/-- The call that the next step makes on the line of routine `i`, if it makes one there. -/
inductive CallsOn (m : Machine P V σ) (i : RoutineId) : Option (Call P V) → Prop where
  | on {x : RoutineId} (hhead : m.ready.head? = some x) (h : m.OnLine i x) : CallsOn m i (m.call? x)
  | beside {x : RoutineId} (hhead : m.ready.head? = some x) (h : ¬ m.OnLine i x) : CallsOn m i none

/-- The first machine comes to the second, and these are the calls on the line of routine `i` meanwhile. -/
inductive Calls (code : P → Entry V → Code P V σ V) (i : RoutineId) :
    Machine P V σ → List (Call P V) → Machine P V σ → Prop where
  | refl (m : Machine P V σ) : Calls code i m [] m
  | step {m m' m'' : Machine P V σ} {call : Option (Call P V)} {cs : List (Call P V)}
    (hcall : m.CallsOn i call) (h : m.step code = some m') (rest : Calls code i m' cs m'') :
    Calls code i m (call.toList ++ cs) m''
  | turn {m m' : Machine P V σ} {cs : List (Call P V)} (rest : Calls code i m.passTurn cs m') :
    Calls code i m cs m'

theorem Calls.reaches (h : Calls code i m cs m') : Reaches code m m' := by
  induction h with
  | refl m => exact .refl m
  | step _ h _ ih => exact .step h ih
  | turn _ ih => exact .turn ih

/-- Every run makes some calls. -/
theorem Reaches.exists_calls (h : Reaches code m m') (i : RoutineId) : ∃ cs, Calls code i m cs m' := by
  induction h with
  | refl m => exact ⟨[], .refl m⟩
  | @step m m₁ m' h _ ih =>
    obtain ⟨cs, hcs⟩ := ih
    obtain ⟨x, hhead, -⟩ := head_of_step h
    by_cases hx : m.OnLine i x
    · exact ⟨_, .step (.on hhead hx) h hcs⟩
    · exact ⟨_, .step (.beside hhead hx) h hcs⟩
  | turn _ ih =>
    obtain ⟨cs, hcs⟩ := ih
    exact ⟨cs, .turn hcs⟩

/-- A routine on the line of another one has its line, too, or is the last one. -/
theorem OnLine.eq_or_listening (hf : m.OnLine i f) (hactive : (m.routine f).control.isActive = true)
    (hx : m.OnLine i x) : x = f ∨ ∃ s, (m.routine x).control = .listening s := by
  have hunique : Relator.RightUnique fun j s => (m.routine j).control = .listening s :=
    fun _ _ _ h h' => listening.inj (h.symm.trans h')
  rcases Relation.ReflTransGen.total_of_right_unique hunique hf hx with hfx | hxf
  · cases hfx.cases_head with
    | inl heq => exact .inl heq.symm
    | inr hstep =>
      obtain ⟨s, hs, -⟩ := hstep
      exact absurd hs (ne_listening_of_isActive hactive s)
  · cases hxf.cases_head with
    | inl heq => exact .inl heq
    | inr hstep =>
      obtain ⟨s, hs, -⟩ := hstep
      exact .inr ⟨s, hs⟩

theorem Outside.onLine (hout : m.Outside i st₀ f base qs) : m.OnLine i f := by
  induction hout with
  | begin => exact .refl
  | scope _ _ hlistens _ _ _ ih => exact ih.tail hlistens

theorem Plays.onLine (hp : Plays code m i st₀ f q) : m.OnLine i f := by
  have hrest : ∀ {st ps}, m.HasRest i st₀ f st ps → m.OnLine i f := by
    rintro st ps ⟨own, base, ps, qs, -, -, hout, -⟩
    exact hout.onLine
  cases hp with
  | running _ hparts => exact hrest hparts
  | entering _ hparts => exact hparts.onLine
  | rejoining _ _ hparts => exact hparts.onLine
  | returning _ hparts => exact hrest hparts
  | waking _ _ _ _ hparts => exact hrest hparts
  | done _ _ _ hparts => exact hparts.onLine
  | brought _ _ _ _ _ hparts => exact hrest hparts
  | offering _ _ _ _ hparts => exact hrest hparts

/-- Only the front of a strand makes calls on its line. -/
theorem CallsOn.cases_front (hcall : m.CallsOn i call) (hp : Plays code m i st₀ f q) :
    (m.ready.head? = some f ∧ call = m.call? f) ∨ m.ready.head? ≠ some f ∧ call = none := by
  cases hcall with
  | @on x hhead hx =>
    rcases hp.onLine.eq_or_listening hp.isActive hx with rfl | ⟨s, hs⟩
    · exact .inl ⟨hhead, rfl⟩
    · refine .inr ⟨fun hf => ?_, by rw [call?, hs]⟩
      obtain rfl : x = f := Option.some.inj (hhead.symm.trans hf)
      exact ne_listening_of_isActive hp.isActive s hs
  | @beside x hhead hx =>
    refine .inr ⟨fun hf => ?_, rfl⟩
    obtain rfl : x = f := Option.some.inj (hhead.symm.trans hf)
    exact hx hp.onLine

/-! ## A change of turn -/

mutual

theorem HasParts.congr (hr : ∀ j, m'.routine j = m.routine j) (hconts : m'.conts = m.conts)
    {st : List (Frame P V σ)} {ps : List (Part P V σ)} : m.HasParts st ps → m'.HasParts st ps
  | .nil => .nil
  | .code rest => .code (rest.congr hr hconts)
  | .kept hplace hkept rest =>
    .kept (by rw [hconts]; exact hplace) (hkept.congr hr hconts) (rest.congr hr hconts)
  | .gone hplace rest => .gone (by rw [hconts]; exact hplace) (rest.congr hr hconts)
  | .skip hf rest => .skip hf (rest.congr hr hconts)

theorem HasGoal.congr (hr : ∀ j, m'.routine j = m.routine j) (hconts : m'.conts = m.conts)
    {finish : Finish P} {ctx : Context} {clauses : List (Effect × Clause P)} {goal : Goal P V σ} :
    m.HasGoal finish ctx clauses goal → m'.HasGoal finish ctx clauses goal
  | .passOn => .passOn
  | .call => .call
  | .into hs => .into (hs.congr hr hconts)

theorem HasBody.congr (hr : ∀ j, m'.routine j = m.routine j) (hconts : m'.conts = m.conts)
    {s : RoutineId} {ps : List (Part P V σ)} {ctx : Context} {clauses : List (Effect × Clause P)}
    {goal : Goal P V σ} : m.HasBody s ps ctx clauses goal → m'.HasBody s ps ctx clauses goal
  | .intro hscope hctx hclauses hst hps hgoal =>
    .intro (by rw [hr]; exact hscope) hctx hclauses (by rw [hr]; exact hst) (hps.congr hr hconts)
      (hgoal.congr hr hconts)

theorem HasKept.congr (hr : ∀ j, m'.routine j = m.routine j) (hconts : m'.conts = m.conts)
    {c : Cont} {kept : Kept P V σ} : m.HasKept c kept → m'.HasKept c kept
  | .direct hs => .direct (hs.congr hr hconts)
  | .through hinner hs => .through (hinner.congr hr hconts) (hs.congr hr hconts)

end

theorem Outside.congr (hr : ∀ j, m'.routine j = m.routine j) (hconts : m'.conts = m.conts)
    (hout : m.Outside i st₀ f base qs) : m'.Outside i st₀ f base qs := by
  induction hout with
  | begin => exact .begin
  | scope hscope hgoal hlistens hst hps _ ih =>
    exact .scope (by rw [hr]; exact hscope) (hgoal.congr hr hconts) (by rw [hr]; exact hlistens)
      (by rw [hr]; exact hst) (hps.congr hr hconts) ih

/-- The order in which routines are ready does not matter for a strand. -/
theorem Plays.congr (hr : ∀ j, m'.routine j = m.routine j) (hconts : m'.conts = m.conts)
    (hp : Plays code m i st₀ f q) : Plays code m' i st₀ f q := by
  have hrest : ∀ {st ps}, m.HasRest i st₀ f st ps → m'.HasRest i st₀ f st ps := by
    rintro st ps ⟨own, base, ps, qs, rfl, hps, hout, rfl⟩
    exact ⟨own, base, ps, qs, rfl, hps.congr hr hconts, hout.congr hr hconts, rfl⟩
  cases hp with
  | running hc hparts => exact .running (by rw [hr]; exact hc) (by rw [hr]; exact hrest hparts)
  | entering hc hparts => exact .entering (by rw [hr]; exact hc) (hparts.congr hr hconts)
  | rejoining hc hkept hparts =>
    exact .rejoining (by rw [hr]; exact hc) (hkept.congr hr hconts) (hparts.congr hr hconts)
  | returning hc hparts => exact .returning (by rw [hr]; exact hc) (by rw [hr]; exact hrest hparts)
  | waking hc hst hg ho hparts =>
    exact .waking (by rw [hr]; exact hc) (by rw [hr]; exact hst) hg ho (hrest hparts)
  | done hc hst hb hparts =>
    exact .done (by rw [hr]; exact hc) (by rw [hr]; exact hst) hb (hparts.congr hr hconts)
  | brought hc hawaits hb hscope hgoal hparts =>
    exact .brought (by rw [hr]; exact hc) (by rw [hr]; exact hawaits) hb (by rw [hr]; exact hscope)
      (hgoal.congr hr hconts) (by rw [hr]; exact hrest hparts)
  | offering hc hawaits hx hkept hparts =>
    exact .offering (by rw [hr]; exact hc) (by rw [hr]; exact hawaits) hx (hkept.congr hr hconts)
      (by rw [hr]; exact hrest hparts)

theorem Edge.congr (hr : ∀ j, m'.routine j = m.routine j) (h : m.Edge i around) : m'.Edge i around := by
  intro c
  rw [h c]
  simp only [Resumes, hr]

/-! ## Steps -/

/-- The routine where a strand began goes on, or waits for the body of a scope. -/
theorem Plays.isUnderWay (hp : Plays code m i st₀ f q) :
    (m.routine i).control.isUnderWay i = true := by
  rcases hp.onLine.eq_or_listening hp.isActive .refl with rfl | ⟨s, hs⟩
  · exact isUnderWay_of_isActive hp.isActive i
  · rw [hs]
    rfl

/-- A step leaves the edge of a strand where it is, as long as the strand is played. -/
theorem Follows.edge (hf : m.Follows x m') (h : m.Sound) (hi : (m.routine i).control.isUnderWay i = true)
    (hi' : (m'.routine i).control.isUnderWay i = true) (hedge : m.Edge i around) : m'.Edge i around := by
  have hne : (m.routine i).control ≠ .ended := by
    intro hc
    rw [hc] at hi
    cases hi
  have hlt : i.val < m.routines.size := lt_of_ne_ended hne
  have hreading : (m.routine i).control ≠ .reading i := by
    intro hc
    rw [hc] at hi
    simp [isUnderWay] at hi
  intro c
  rw [hedge c]
  by_cases hix : i = x
  · subst hix
    have habides := hf.influences.own
    -- A routine under way has neither been suspended nor ended, so its slots are as they were.
    have hslots : (m.routine i).scope.isSome → (m'.routine i).slots = (m.routine i).slots := by
      intro hs
      cases hf.influences.moves hs with
      | on hslots _ => exact hslots
      | suspended _ hslots =>
        have hs' : (m'.routine i).scope.isSome := habides.isSome.trans hs
        have hstatus : (m'.routine i).status = .suspending := congrArg Prod.fst hslots
        rw [((hf.sound.linked.phase i hs').suspending hstatus).2.2.1] at hi'
        simp [isUnderWay] at hi'
      | atEnd o hc _ =>
        rw [hc] at hi'
        cases hi'
    constructor
    · rintro ⟨j, ⟨scope, hscope, hid⟩, hout⟩
      obtain ⟨scope', hscope', hages⟩ := habides.exists_scope hscope
      refine ⟨j, ⟨scope', hscope', by rw [hages.ctx]; exact hid⟩, ?_⟩
      exact (congrArg (fun r => r.2.2) (hslots (by rw [hscope]; rfl))).trans hout
    · rintro ⟨j, ⟨scope', hscope', hid⟩, hout⟩
      have hs : (m.routine i).scope.isSome := by
        rw [← habides.isSome, hscope']
        rfl
      obtain ⟨scope, hscope⟩ := Option.isSome_iff_exists.1 hs
      refine ⟨j, ⟨scope, hscope, ?_⟩, ?_⟩
      · rw [← (habides.ages _ _ hscope hscope').ctx]
        exact hid
      · exact (congrArg (fun r => r.2.2) (hslots hs)).symm.trans hout
  · exact exists_congr fun j => (hf.resumes_iff h hix hlt hreading).symm

/-- The machine plays a strand, and goes on doing so: code uses only places that belong to it. -/
structure OnCourse (code : P → Entry V → Code P V σ V) (opened : ContextId → Prop)
    (around : Option ContextId) (i : RoutineId) (st₀ : List (Frame P V σ)) (m : Machine P V σ)
    (f : RoutineId) (q : Strand P V σ) : Prop where
  proper : m.Proper
  uses : ∀ m', Reaches code m m' → m'.UsesOwn
  base : Settled (m.routine i).role st₀
  edge : m.Edge i around
  opened : ∀ c, opened c → c.val < m.contexts.size
  plays : Plays code m i st₀ f q

namespace OnCourse

variable (h : OnCourse code opened around i st₀ m f q)
include h

theorem passTurn : OnCourse code opened around i st₀ m.passTurn f q where
  proper := h.proper.passTurn
  uses m' hr := h.uses m' (.turn hr)
  base := by rw [routine_passTurn]; exact h.base
  edge := h.edge.congr (routine_passTurn m)
  opened c hc := by
    rw [contexts_passTurn]
    exact h.opened c hc
  plays := h.plays.congr (routine_passTurn m) (conts_passTurn m)

/-- With every step, as long as a strand is played. -/
theorem step (hstep : m.step code = some m') (hp : Plays code m' i st₀ f' q') :
    OnCourse code opened around i st₀ m' f' q' where
  proper := h.proper.step hstep
  uses m'' hr := h.uses m'' (.step hstep hr)
  base := by
    have hlt : i.val < m.routines.size := lt_of_ne_ended fun hc => by
      have hi := h.plays.isUnderWay
      rw [hc] at hi
      cases hi
    rw [(h.proper.sound.abides_step hstep hlt).role]
    exact h.base
  edge := by
    obtain ⟨x, ready, -, ⟨-, -, hf⟩ | ⟨-, rfl⟩⟩ := h.proper.sound.step_cases hstep
    · exact hf.edge h.proper.sound h.plays.isUnderWay hp.isUnderWay h.edge
    · exact h.edge.congr (routine_pause m x)
  opened c hc := (h.opened c hc).trans_le (contexts_step hstep)
  plays := hp

/-- Steps of other routines do not concern the strand. -/
theorem other (hstep : m.step code = some m') (hhead : m.ready.head? ≠ some f) :
    OnCourse code opened around i st₀ m' f q := by
  refine h.step hstep ?_
  obtain ⟨x, ready, hready, ⟨hx, rfl, hf⟩ | ⟨-, rfl⟩⟩ := h.proper.sound.step_cases hstep
  · have hx' : m.ready.head? = some x := by rw [hready]; rfl
    have hne : f ≠ x := by
      rintro rfl
      exact hhead hx'
    exact h.plays.stay (h.proper.leaves (h.uses m (.refl m)) hx' hx) hf hne
  · exact h.plays.congr (routine_pause m x) rfl

theorem atFront (hhead : m.ready.head? = some f) : m.AtFront code f :=
  ⟨h.proper, h.uses m (.refl m), hhead, h.plays.isActive⟩

/-- A step of the front. -/
theorem own (hhead : m.ready.head? = some f) (hstep : m.step code = some m')
    (hcan : (∃ c q', Strand.Step code opened around q c q') ∨ ∃ o, q = .returning o []) :
    (∃ f', OnCourse code opened around i st₀ m' f' q ∧ m.call? f = none ∧
        Prod.Lex (· < ·) (· < ·) (m'.rank f') (m.rank f)) ∨
      (∃ f' q', OnCourse code opened around i st₀ m' f' q' ∧
        Strand.Step code opened around q (m.call? f) q') ∨
      ∃ o, q = .returning o [] ∧ m.Arrived i st₀ o := by
  obtain rfl : m.stepOf code f = m' := stepOf_eq_of_step hhead hstep
  rcases h.plays.advances (h.atFront hhead) h.base h.edge h.opened hcan with hadvances | harrived
  · cases hadvances with
    | between f' hp hsilent hless => exact .inl ⟨f', h.step hstep hp, hsilent, hless⟩
    | goes f' hp hcall hgoes => exact .inr (.inl ⟨f', _, h.step hstep hp, hcall ▸ hgoes⟩)
  · exact .inr (.inr harrived)

end OnCourse

/-! ## Runs -/

/-- What remains to be done says whether a strand can go on. -/
theorem can_of_comes (h : Strand.Comes code opened around (Strand.Ends R) q calls) :
    (∃ c q', Strand.Step code opened around q c q') ∨ ∃ o, q = .returning o [] := by
  cases h with
  | here hends =>
    obtain ⟨o, -, heq⟩ := hends
    exact .inr ⟨o, heq⟩
  | step can _ _ => exact .inl ⟨_, can⟩

theorem not_step_of_ends {c : Option (Call P V)} (h : Strand.Ends R q) :
    ¬ Strand.Step code opened around q c q' := by
  rintro hstep
  obtain ⟨o, -, rfl⟩ := h
  cases hstep

/-- A strand without anything to do makes no more calls, and its outcome is one that was foreseen. -/
theorem ends_of_comes (h : Strand.Comes code opened around (Strand.Ends R) q calls)
    (hq : q = .returning o []) : calls = [] ∧ R o := by
  cases h with
  | here hends =>
    obtain ⟨o', ho', heq⟩ := hends
    obtain ⟨rfl, -⟩ := Strand.returning.inj (hq.symm.trans heq)
    exact ⟨rfl, ho'⟩
  | step can _ _ =>
    obtain ⟨q', hstep⟩ := can
    subst hq
    cases hstep

/-- In every run the calls are those of the strand, in this order, until its outcome has come to where it
began. -/
theorem OnCourse.follows (hrun : Calls code i m cs m') (h : OnCourse code opened around i st₀ m f q)
    (hcomes : Strand.Comes code opened around (Strand.Ends R) q calls) :
    (∃ f' q' rest, OnCourse code opened around i st₀ m' f' q' ∧
        Strand.Comes code opened around (Strand.Ends R) q' rest ∧ calls = cs ++ rest) ∨
      ∃ m₁ o after, Calls code i m calls m₁ ∧ m₁.Arrived i st₀ o ∧ R o ∧ Calls code i m₁ after m' ∧
        cs = calls ++ after := by
  induction hrun generalizing f q calls with
  | refl m => exact .inl ⟨f, q, calls, h, hcomes, rfl⟩
  | @step m m₁ m' call cs hcall hstep hrest ih =>
    -- What is true from the next machine on is true from this one on.
    have hlater : ∀ {f' q' calls'}, OnCourse code opened around i st₀ m₁ f' q' →
        Strand.Comes code opened around (Strand.Ends R) q' calls' → calls = call.toList ++ calls' →
        (∃ f' q' rest, OnCourse code opened around i st₀ m' f' q' ∧
            Strand.Comes code opened around (Strand.Ends R) q' rest ∧
              calls = call.toList ++ cs ++ rest) ∨
          ∃ m₂ o after, Calls code i m calls m₂ ∧ m₂.Arrived i st₀ o ∧ R o ∧
            Calls code i m₂ after m' ∧ call.toList ++ cs = calls ++ after := by
      intro f' q' calls' h' hcomes' hcalls
      rcases ih h' hcomes' with ⟨f'', q'', rest, h'', hcomes'', rfl⟩ |
          ⟨m₂, o, after, hbefore, harrived, ho, hafter, rfl⟩
      · exact .inl ⟨f'', q'', rest, h'', hcomes'', by rw [hcalls, List.append_assoc]⟩
      · refine .inr ⟨m₂, o, after, ?_, harrived, ho, hafter, by rw [hcalls, List.append_assoc]⟩
        rw [hcalls]
        exact .step hcall hstep hbefore
    rcases hcall.cases_front h.plays with ⟨hhead, rfl⟩ | ⟨hhead, rfl⟩
    · rcases h.own hhead hstep (can_of_comes hcomes) with
        ⟨f', h', hsilent, -⟩ | ⟨f', q', h', hgoes⟩ | ⟨o, hq, harrived⟩
      · exact hlater h' hcomes (by rw [hsilent]; rfl)
      · cases hcomes with
        | here hends => exact absurd hgoes (not_step_of_ends hends)
        | step can only rest => exact hlater h' (rest _ _ hgoes) (by rw [only _ _ hgoes])
      · obtain ⟨rfl, ho⟩ := ends_of_comes hcomes hq
        exact .inr ⟨m, o, _, .refl m, harrived, ho, .step hcall hstep hrest, rfl⟩
    · exact hlater (h.other hstep hhead) hcomes rfl
  | @turn m m' cs hrest ih =>
    rcases ih h.passTurn hcomes with hon | ⟨m₁, o, after, hbefore, harrived, ho, hafter, heq⟩
    · exact .inl hon
    · exact .inr ⟨m₁, o, after, .turn hbefore, harrived, ho, hafter, heq⟩

/-- The next thing that a strand does is on its way. -/
theorem goes_nears (code : P → Entry V → Code P V σ V) (i : RoutineId) (st₀ : List (Frame P V σ))
    (hcan : (∃ c q', Strand.Step code opened around q c q') ∨ ∃ o, q = .returning o []) :
    Nears code (Prod.Lex (· < ·) (· < ·))
      (fun a f m => OnCourse code opened around i st₀ m f q ∧ m.rank f = a)
      (fun m m' => (∃ f' c q', OnCourse code opened around i st₀ m' f' q' ∧
          Strand.Step code opened around q c q') ∨
        ∃ o, q = .returning o [] ∧ m.Arrived i st₀ o) where
  wf := (Prod.lex Nat.lt_wfRel Nat.lt_wfRel).wf
  ready := by
    rintro _ f m ⟨h, -⟩
    exact h.proper.sound.linked.ready f h.plays.isActive
  turn := by
    rintro _ f m ⟨h, rfl⟩
    refine ⟨h.passTurn, ?_⟩
    unfold rank delay
    rw [routine_passTurn]
  other := by
    rintro _ f m m' ⟨h, rfl⟩ hstep hhead
    refine ⟨h.other hstep hhead, ?_⟩
    -- The front is as it was.
    have hsame : (m'.routine f).control = (m.routine f).control ∧
        (m'.routine f).stack = (m.routine f).stack := by
      obtain ⟨x, ready, hready, ⟨-, -, hf⟩ | ⟨-, rfl⟩⟩ := h.proper.sound.step_cases hstep
      · refine hf.routine_of_isActive h.proper.sound ?_ h.plays.isActive
        rintro rfl
        exact hhead (by rw [hready]; rfl)
      · rw [routine_pause]
        exact ⟨rfl, rfl⟩
    unfold rank delay
    rw [hsame.1, hsame.2]
  own := by
    rintro _ f m m' ⟨h, rfl⟩ hstep hhead
    rcases h.own hhead hstep hcan with ⟨f', h', -, hless⟩ | ⟨f', q', h', hgoes⟩ | harrived
    · exact .inl ⟨_, f', hless, h', rfl⟩
    · exact .inr (.inl ⟨f', _, q', h', hgoes⟩)
    · exact .inr (.inr harrived)

/-- In every fair run the outcome of the strand comes to where it began. -/
theorem OnCourse.arrives {g : Nat → Machine P V σ} {n : Nat} (hfair : IsFairRun code g)
    (h : OnCourse code opened around i st₀ (g n) f q)
    (hcomes : Strand.Comes code opened around (Strand.Ends R) q calls) :
    ∃ k o, n ≤ k ∧ R o ∧ (g k).Arrived i st₀ o := by
  induction hcomes generalizing n f with
  | @here q hends =>
    have hcan : ∃ o, q = .returning o [] := by
      obtain ⟨o, -, heq⟩ := hends
      exact ⟨o, heq⟩
    obtain ⟨k, hnk, -, hgoes | ⟨o, hq, harrived⟩⟩ :=
      (goes_nears code i st₀ (.inr hcan)).of_isFairRun hfair ⟨h, rfl⟩
    · obtain ⟨-, _, q', -, hstep⟩ := hgoes
      exact absurd hstep (not_step_of_ends hends)
    · obtain ⟨o', ho', heq⟩ := hends
      obtain ⟨rfl, -⟩ := Strand.returning.inj (hq.symm.trans heq)
      exact ⟨k, o, hnk, ho', harrived⟩
  | @step q call calls can only rest ih =>
    obtain ⟨k, hnk, -, ⟨f', c, q', h', hgoes⟩ | ⟨o, rfl, -⟩⟩ :=
      (goes_nears code i st₀ (.inl ⟨_, can⟩)).of_isFairRun hfair ⟨h, rfl⟩
    · obtain ⟨k', o, hk', ho, harrived⟩ := ih c q' hgoes h'
      exact ⟨k', o, by omega, ho, harrived⟩
    · obtain ⟨q', hstep⟩ := can
      cases hstep

end Machine

end OneShot
