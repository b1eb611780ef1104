import OneShot.Proofs.Advancing

/-!
# Effects and continuations at the front of a strand

The routine at the front of a strand opens a scope, performs an effect, takes one, forwards it or resumes a
continuation. Each of these is one step of the machine, and the strand goes on as `Strand.Step` says.
`Plays.advances` puts all steps at the front together.
-/

namespace OneShot

variable {P V σ : Type}

namespace Machine

open Control

variable {code : P → Entry V → Code P V σ V} {m m' m₁ : Machine P V σ} {i j s f x : RoutineId}
  {st st₀ base : List (Frame P V σ)} {ps qs parts : List (Part P V σ)} {q : Strand P V σ}
  {opened : ContextId → Prop} {around : Option ContextId} {role : Option Mark}

/-- What a new scope does with the value of its body. -/
theorem hasGoal_of_opens {a : Act P V} {scope : Scope P} {body : P} (ha : a.opens? = some (scope, body)) :
    m.HasGoal scope.finish scope.ctx scope.clauses scope.goal := by
  cases a with
  | handle ctx hd b =>
    obtain ⟨rfl, rfl⟩ : Scope.ofHandler ctx hd = scope ∧ b = body := by simpa [Act.opens?] using ha
    cases hv : hd.value with
    | none =>
      simp only [Scope.ofHandler, Scope.goal, hv]
      exact .passOn
    | some p =>
      simp only [Scope.ofHandler, Scope.goal, hv]
      exact .call
  | tryWith ctx arms b =>
    obtain ⟨rfl, rfl⟩ : Scope.ofArms ctx arms = scope ∧ b = body := by simpa [Act.opens?] using ha
    exact .passOn
  | _ => cases ha

/-- The call that a scope makes when it takes an effect is that of the clause for it. -/
theorem call?_of_offer {y : Signal V} {e : Effect} {b : Boxed V} {k : Cont} {scope : Scope P}
    (hc : (m.routine f).control = .returning (.value (.signal y)))
    (hst : (m.routine f).stack = .dispatch s :: st) (hy : y.offer? s = some (e, b, k))
    (hscope : (m.routine s).scope = some scope) :
    m.call? f = (scope.clauses.lookup e).bind (·.call? b) := by
  rw [call?, hc, hst]
  show (m.routine s).scope.bind _ = _
  rw [hscope]
  cases y with
  | perform e' b' =>
    obtain ⟨rfl, rfl, -⟩ : _ ∧ _ ∧ _ := by simpa [Signal.offer?] using hy
    rfl
  | forward e' b' k' =>
    obtain ⟨rfl, rfl, -⟩ : _ ∧ _ ∧ _ := by simpa [Signal.offer?] using hy
    rfl
  | done b' => cases hy

/-- The forwarding of an effect leaves its frame on the stack. -/
theorem Sound.stack_forwards (h : m.Sound) {y : Signal V} {e : Effect} {b : Boxed V} {k : Cont}
    {scope : Scope P} (hc : (m.routine f).control = .returning (.value (.signal y)))
    (hst : (m.routine f).stack = .dispatch s :: st) (hy : y.offer? s = some (e, b, k))
    (hscope : (m.routine s).scope = some scope) (hlookup : scope.clauses.lookup e = none) :
    ((m.stepOf code f).routine f).stack = .forwarding e :: st := by
  obtain ⟨hwork, -, hne, -⟩ := h.worksOffer hc hst hy
  have hlt : f.val < m.routines.size := lt_of_isActive (by rw [hc]; rfl)
  have hstep := stepOf_claims code hc hst hscope hy
  unfold Machine.claim at hstep
  simp only [hlookup] at hstep
  rw [hstep, stack_suspend, Machine.pushFrame, routine_update_self hwork.lt, hold,
    routine_update_of_ne hne, routine_update_self hlt]

/-- A clause takes an effect that suits it. -/
theorem Advances.of_clause {e : Effect} {b : Boxed V} {kept : Kept P V σ} {clause : Clause P}
    {place : ContId} (hplays : Plays code (m.stepOf code f) i st₀ f
      (.running (clause.entered code kept.ctx b place) (.owning place (some kept) :: parts)))
    (hcall : m.call? f = clause.call? b) (hlookup : kept.clauses.lookup e = some clause)
    (hsuits : clause.Suits e) (hb : e.Suits b) :
    Advances code opened around m i st₀ f (.offering e b kept parts) := by
  cases e with
  | declared d =>
    cases clause with
    | arms choice => exact False.elim hsuits
    | function p =>
      cases b with
      | datum v => exact .goes f hplays hcall (.function place hlookup)
      | _ => exact False.elim hb
  | exception =>
    cases clause with
    | function p => exact False.elim hsuits
    | arms choice =>
      cases b with
      | raised cause =>
        simp only [Clause.entered] at hplays
        cases hselect : choice.select cause with
        | some p =>
          rw [hselect] at hplays
          exact .goes f hplays (hcall.trans (by rw [Clause.call?, hselect]; rfl)) (.arm place hlookup hselect)
        | none =>
          rw [hselect] at hplays
          exact .goes f hplays (hcall.trans (by rw [Clause.call?, hselect]; rfl))
            (.raisesAgain place hlookup hselect)
      | _ => exact False.elim hb

/-- The outermost scope of a continuation. -/
theorem HasKept.outer {y : Signal V} {e : Effect} {b : Boxed V} {k : Cont} {kept : Kept P V σ}
    (h : m.HasKept k kept) (hy : y.offer? s = some (e, b, k)) :
    ∃ scope, (m.routine s).scope = some scope ∧ scope.ctx = kept.ctx ∧
      scope.clauses = kept.clauses := by
  cases h with
  | @direct t _ _ _ _ hs =>
    obtain rfl : t = s := by
      cases y with
      | perform e' b' =>
        obtain ⟨rfl, rfl, heq⟩ : _ ∧ _ ∧ _ := by simpa [Signal.offer?] using hy
        exact heq.symm
      | forward e' b' k' => simp [Signal.offer?] at hy
      | done b' => cases hy
    cases hs with
    | intro hscope hctx hclauses _ _ _ => exact ⟨_, hscope, hctx, hclauses⟩
  | @through t _ _ _ _ _ _ _ hs =>
    obtain rfl : t = s := by
      cases y with
      | perform e' b' => simp [Signal.offer?] at hy
      | forward e' b' k' =>
        obtain ⟨rfl, rfl, heq, -⟩ : _ ∧ _ ∧ _ ∧ _ := by simpa [Signal.offer?] using hy
        exact heq.symm
      | done b' => cases hy
    cases hs with
    | intro hscope hctx hclauses _ _ _ => exact ⟨_, hscope, hctx, hclauses⟩

namespace AtFront

variable (h : m.AtFront code f)
include h

/-- An outcome goes outward, or has come to where the strand began. -/
theorem returns {o : Outcome V V} (hc : (m.routine f).control = .returning (o.map .plain))
    (hrest : m.HasRest i st₀ f (m.routine f).stack parts) :
    Advances code opened around m i st₀ f (.returning o parts) ∨ parts = [] ∧ m.Arrived i st₀ o := by
  obtain ⟨own, base, ps, qs, hst, hps, hout, rfl⟩ := hrest
  have hsilent := call?_of_returning hc (signal?_map_plain o)
  cases hps with
  | nil => exact h.passes hc hst hout
  | @code next own ps rest =>
    have hr : (m.stepOf code f).routine f =
        { m.routine f with stack := own ++ base, control := .running (next o) } := by
      rw [stepOf_next hc hst, setControl, update_update, routine_update_self h.lt, seen_map_plain]
      rfl
    refine .inl (.goes f (.running (by rw [hr]) ?_) hsilent .next)
    rw [show ((m.stepOf code f).routine f).stack = own ++ base by rw [hr]]
    exact h.rest (by rw [hr]; rfl) (fun k hk => h.place_of_returning hc hst hk)
      ⟨own, base, ps, qs, rfl, rest, hout, rfl⟩
  | @kept k c kept own ps hplace hkept rest =>
    obtain ⟨hc', hst', hrest'⟩ := h.handedOn hc hst rfl ⟨own, base, ps, qs, rfl, rest, hout, rfl⟩
    exact .inl (.goes f (.returning hc' (hst' ▸ hrest')) hsilent .leaves)
  | @gone k own ps hplace rest =>
    obtain ⟨hc', hst', hrest'⟩ := h.handedOn hc hst rfl ⟨own, base, ps, qs, rfl, rest, hout, rfl⟩
    exact .inl (.goes f (.returning hc' (hst' ▸ hrest')) hsilent .leaves)
  | @skip g own ps hg rest =>
    have hrest : m.HasRest i st₀ f (own ++ base) (ps ++ qs) := ⟨own, base, ps, qs, rfl, rest, hout, rfl⟩
    have hposture := h.posture
    simp only [Routine.Posture, hc, hst, List.cons_append] at hposture
    left
    have hpass : ∀ hand : g.handsOn? (o.map .plain) = some (o.map .plain),
        Advances code opened around m i st₀ f (.returning o (ps ++ qs)) := fun hand =>
      h.handsOn hc (signal?_map_plain o) hst hand hrest
    cases g with
    | registered p s => exact hpass rfl
    | nested d t => exact hpass rfl
    | holding s => exact hpass rfl
    | dispatch s =>
      cases o with
      | value v => exact False.elim hposture.1
      | failure e => exact hpass rfl
      | panic p => exact hpass rfl
    | handledBody =>
      cases o with
      | value v =>
        obtain ⟨-, hnil⟩ := (settled_handledBody).1 hposture.2
        obtain ⟨rfl, rfl⟩ := List.append_eq_nil_iff.1 hnil
        cases rest
        exact h.hasValue hc hst rfl rfl hrest hout
      | failure e => exact hpass rfl
      | panic p => exact hpass rfl
    | rejoining =>
      cases o with
      | value v =>
        obtain ⟨-, hnil⟩ := (settled_rejoining).1 hposture.2
        obtain ⟨rfl, rfl⟩ := List.append_eq_nil_iff.1 hnil
        cases rest
        exact h.hasValue hc hst rfl rfl hrest hout
      | failure e => exact hpass rfl
      | panic p => exact hpass rfl
    | _ => cases hg

/-- A body runs in a new scope. -/
theorem opens {a : Act P V} {n : Outcome V V → Code P V σ V} {scope : Scope P} {body : P}
    (hc : (m.routine f).control = .running (.act a n))
    (hrest : m.HasRest i st₀ f (m.routine f).stack parts) (ha : a.opens? = some (scope, body))
    (hctx : opened scope.ctx.id) (hopened : scope.ctx.id.val < m.contexts.size) :
    Advances code opened around m i st₀ f (.running (.act a n) parts) := by
  have h0 : scope.holders = 0 := by
    cases a <;> cases ha <;> rfl
  have hlt : f.val < (m.pushFrame f (.next n)).routines.size := by
    simpa [Machine.pushFrame] using h.lt
  have hstep : m.stepOf code f = (m.pushFrame f (.next n)).openScope f scope (.handled body) := by
    rw [stepOf_act hc]
    cases a <;> cases ha <;> exact if_pos hopened
  have hr := routine_openScope (m := m.pushFrame f (.next n)) (.handled body) h0 hlt
  rw [← hstep] at hr
  have hnext : (m.pushFrame f (.next n)).next = m.next := by simp [next, Machine.pushFrame]
  have hne : m.next ≠ f := by
    rintro rfl
    exact Nat.lt_irrefl _ h.lt
  have hrf := hr f
  rw [if_pos rfl, hnext, Machine.pushFrame, routine_update_self h.lt] at hrf
  have hrn := hr m.next
  rw [if_neg hne, hnext, if_pos rfl] at hrn
  refine .goes m.next (.entering (a := .boxed .start) (by rw [hrn]; rfl) ?_) (call?_of_running hc)
    (.opens ha hctx)
  have hrest' : (m.stepOf code f).HasRest i st₀ f ((m.stepOf code f).routine f).stack (.code n :: parts) := by
    rw [show ((m.stepOf code f).routine f).stack = _ by rw [hrf]]
    refine .skip rfl (.skip rfl (.skip rfl (.skip rfl (.next
      (h.rest (by rw [hrf]; rfl) (fun k hk => ?_) hrest)))))
    exact h.place_of_running hc hk (by cases a <;> cases ha <;> simp [Code.place?])
  have hgoal : (m.stepOf code f).HasGoal scope.finish scope.ctx scope.clauses scope.goal :=
    hasGoal_of_opens ha
  have hscope : ((m.stepOf code f).routine m.next).scope = some { scope with holders := 1 } := by
    rw [hrn]
    rfl
  have hparts := hrest'.inward (by rw [hrf]; rfl) hscope hgoal
  exact hparts

/-- The front answers a suspended body, which is the next one. -/
theorem continuesDirect {ctx : Context} {clauses : List (Effect × Clause P)} {goal : Goal P V σ}
    {v : V} (hstep : m.stepOf code f = m₁.enterScope f s (.datum v))
    (hwork : m.Works f m₁ [⟨.datum, s⟩] []) (hs : m.HasBody s ps ctx clauses goal)
    (hwaits : m.Waits ⟨.datum, s⟩)
    (hrest : ((m.stepOf code f).routine f).control.isUnderWay f = true →
      (m.stepOf code f).HasRest i st₀ f (m₁.routine f).stack parts) :
    Plays code (m.stepOf code f) i st₀ s
        (.returning (.value v) (ps ++ .scope ctx clauses goal :: parts)) ∧
      ∃ n, (m.stepOf code f).rank s = (2, n) := by
  obtain ⟨scope, hscope, hstatus, hinbox, hout, hreading, -, hne⟩ :=
    hwork.atWork.suspended (y := ⟨.datum, s⟩) List.mem_cons_self
  simp only at hscope hstatus hinbox hout hreading hne
  have hr := routine_enterScope (b := .datum v) hscope hstatus hinbox hout hreading hne hwork.lt
  rw [← hstep] at hr
  have hrf := hr f
  rw [if_pos rfl] at hrf
  have hrs := hr s
  rw [if_neg hne.symm, if_pos rfl] at hrs
  have hrest' : (m.stepOf code f).HasRest i st₀ f ((m.stepOf code f).routine f).stack parts := by
    rw [show ((m.stepOf code f).routine f).stack = _ by rw [hrf]]
    exact .skip rfl (.skip rfl (.skip rfl (.skip rfl (hrest (by rw [hrf]; rfl)))))
  exact ⟨h.resumes hs hwaits rfl rfl (by rw [hrf]; rfl) (by rw [hrs]; rfl) hrest', _,
    rank_of_returning (by rw [hrs]; rfl) rfl⟩

/-- A body that has forwarded an effect is answered by a new scope, whose body resumes the rest of the
continuation. -/
theorem continuesThrough {inner : Cont} {kept : Kept P V σ} {ctx : Context}
    {clauses : List (Effect × Clause P)} {goal : Goal P V σ} {v : V}
    (hstep : m.stepOf code f = m₁.continueWith f (.through s inner) (.datum v))
    (hwork : m.Works f m₁ (Cont.through s inner).keys []) (hinner : m.HasKept inner kept)
    (hs : m.HasBody s ps ctx clauses goal) (hwaits : ∀ y ∈ (Cont.through s inner).keys, m.Waits y)
    (hrest : ((m.stepOf code f).routine f).control.isUnderWay f = true →
      (m.stepOf code f).HasRest i st₀ f (m₁.routine f).stack parts) :
    ∃ f', Plays code (m.stepOf code f) i st₀ f' (.returning (.value v)
        (kept.resumed ++ .scope ctx clauses (.into ps goal) :: parts)) ∧
      (m.stepOf code f).rank f' = (3, inner.keys.length) := by
  obtain ⟨scope, hscope, -, -, -, -, -, hne⟩ :=
    hwork.atWork.suspended (y := ⟨.result, s⟩) List.mem_cons_self
  simp only at hscope hne
  have hlt : f.val < ((m₁.hold s).pushFrame f (.holding s)).routines.size := by
    simpa [Machine.pushFrame, hold] using hwork.lt
  rw [Machine.continueWith] at hstep
  simp only [hscope] at hstep
  have hr := routine_openScope (m := (m₁.hold s).pushFrame f (.holding s))
    (.rejoin inner (.datum v)) (rfl : (scope.rejoining s).holders = 0) hlt
  rw [← hstep] at hr
  have hnext : ((m₁.hold s).pushFrame f (.holding s)).next = m₁.next := by
    simp [next, Machine.pushFrame, hold]
  have hfresh : m₁.next ≠ f := by
    rintro rfl
    exact Nat.lt_irrefl _ hwork.lt
  have hrf := hr f
  rw [if_pos rfl, hnext, Machine.pushFrame, routine_update_self (by simpa [hold] using hwork.lt), hold,
    routine_update_of_ne hne.symm] at hrf
  have hrn := hr m₁.next
  rw [if_neg hfresh, hnext, if_pos rfl] at hrn
  have hscopen : ((m.stepOf code f).routine m₁.next).scope =
      some { scope.rejoining s with holders := 1 } := by
    rw [hrn]
    rfl
  have hafter := h.leaves.after.sound
  -- The body that forwarded waits for the value of the new scope.
  have hgoal : (m.stepOf code f).HasGoal (.into (some s)) ctx clauses (.into ps goal) :=
    .into (hs.leaves h.leaves (hwaits ⟨.result, s⟩ List.mem_cons_self)
      (hafter.waits_into hscopen Nat.one_pos rfl))
  obtain ⟨rfl, rfl⟩ : scope.ctx = ctx ∧ scope.clauses = clauses := by
    cases hs with
    | intro hscope₀ hctx hclauses _ _ _ =>
      have hages := (hwork.beside.abides s).ages _ _ hscope₀ hscope
      exact ⟨hages.ctx.trans hctx, hages.clauses.trans hclauses⟩
  have hkept' : (m.stepOf code f).HasKept inner kept := hinner.leaves h.leaves fun y hy =>
    ⟨hwaits y (List.mem_cons_of_mem _ hy), hafter.waits_of_carriedBy (j := m₁.next) (.inl (by
      rw [hrn]
      exact hy))⟩
  have hrest' : (m.stepOf code f).HasRest i st₀ f ((m.stepOf code f).routine f).stack parts := by
    rw [show ((m.stepOf code f).routine f).stack = _ by rw [hrf]]
    exact .skip rfl (.skip rfl (.skip rfl (.skip rfl (.skip rfl (hrest (by rw [hrf]; rfl))))))
  have hinward := hrest'.inward (by rw [hrf]; rfl) hscopen hgoal
  have hparts : (m.stepOf code f).Outside i st₀ m₁.next []
      (.scope scope.ctx scope.clauses (.into ps goal) :: parts) := hinward
  refine ⟨m₁.next, .rejoining (v := v) (a := .boxed .start) (by rw [hrn]; rfl) hkept' hparts, ?_⟩
  rw [rank, hrn]
  rfl

/-- The front resumes a continuation that it has in hand. -/
theorem continues {k : Cont} {kept : Kept P V σ} {v : V} (parts : List (Part P V σ))
    (hstep : m.stepOf code f = m₁.continueWith f k (.datum v)) (hwork : m.Works f m₁ k.keys [])
    (hkept : m.HasKept k kept) (hwaits : ∀ y ∈ k.keys, m.Waits y)
    (hrest : ((m.stepOf code f).routine f).control.isUnderWay f = true →
      (m.stepOf code f).HasRest i st₀ f (m₁.routine f).stack parts) :
    ∃ f', Plays code (m.stepOf code f) i st₀ f' (.returning (.value v) (kept.resumed ++ parts)) ∧
      Prod.Lex (· < ·) (· < ·) ((m.stepOf code f).rank f') (3, k.keys.length) := by
  cases hkept with
  | direct hs =>
    obtain ⟨hplays, n, hrank⟩ := h.continuesDirect hstep hwork hs (hwaits _ List.mem_cons_self) hrest
    refine ⟨_, by simpa [Kept.resumed] using hplays, ?_⟩
    rw [hrank]
    exact .left _ _ (Nat.lt_succ_self 2)
  | through hinner hs =>
    obtain ⟨f', hplays, hrank⟩ := h.continuesThrough hstep hwork hinner hs hwaits hrest
    refine ⟨f', by simpa [Kept.resumed] using hplays, ?_⟩
    rw [hrank]
    exact .right 3 (by simp [Cont.keys])

/-- A forwarded continuation is resumed in its new scope. -/
theorem rejoins {k : Cont} {kept : Kept P V σ} {v : V} {a : Parcel V}
    (hc : (m.routine f).control = .starting (.rejoin k (.datum v)) a) (hkept : m.HasKept k kept)
    (hout : m.Outside i st₀ f [] parts) :
    Advances code opened around m i st₀ f (.returning (.value v) (kept.resumed ++ parts)) := by
  have hposture := h.posture
  simp only [Routine.Posture, hc] at hposture
  have hwork : m.Works f m (m.routine f).control.keys [] :=
    h.proper.sound.works h.active fun c t => by simp [Routine.entries, hposture.1]
  rw [hc] at hwork
  have hpush := hwork.pushFrame (f := .rejoining) (fun _ => rfl) fun _ => rfl
  have hstep : m.stepOf code f = (m.pushFrame f .rejoining).continueWith f k (.datum v) := by
    rw [stepOf_starting hc]
    rfl
  have hwaits : ∀ y ∈ k.keys, m.Waits y := fun y hy =>
    h.proper.sound.waits_of_carriedBy (j := f) (.inl (by rw [hc]; exact hy))
  obtain ⟨f', hplays, hrank⟩ := h.continues parts hstep hpush hkept hwaits fun hstays => by
    rw [Machine.pushFrame, routine_update_self h.lt, hposture.1]
    exact .skip rfl (h.outside hstays hout).rest
  refine .between f' hplays (call?_of_starting hc) ?_
  have hbefore : m.rank f = (3, k.keys.length) := by rw [rank, hc]
  rw [hbefore]
  exact hrank

/-- A handler function resumes its continuation. -/
theorem resumesOwn {place : ContId} {v : V} {n : Outcome V V → Code P V σ V}
    {inside : List (Outcome V V → Code P V σ V)} {kept : Kept P V σ}
    (hc : (m.routine f).control = .running (.act (.continueWith place v) n))
    (hrest : m.HasRest i st₀ f (m.routine f).stack (inside.map .code ++ .owning place (some kept) :: parts)) :
    Advances code opened around m i st₀ f
      (.running (.act (.continueWith place v) n) (inside.map .code ++ .owning place (some kept) :: parts)) := by
  obtain ⟨own, base, ps, qs, hst, hps, hout, heq⟩ := hrest
  obtain ⟨ps', rfl, rfl⟩ := split_of_not_isScope hout.head heq.symm
  obtain ⟨st₁, st₂, c, rfl, hst₁, hno, hplace, hkept, hst₂⟩ := hps.split_owning rfl
  have hsettled : Settled (m.routine f).role (m.routine f).stack := by
    have hposture := h.posture
    simpa only [Routine.Posture, hc] using hposture
  have hwork := (h.proper.sound.worksSettled h.active (by rw [hc]; rfl) hsettled).pushFrame
    (f := .next n) (fun _ => rfl) fun _ => rfl
  have htake := hwork.takeCont place
  have hconts : (m.pushFrame f (.next n)).conts.getD place.val none = some c := hplace
  have hkeys : (m.pushFrame f (.next n)).keptAt place ++ [] = c.keys := by
    rw [keptAt, hconts]
    exact List.append_nil _
  rw [hkeys] at htake
  have hstep : m.stepOf code f =
      ((m.pushFrame f (.next n)).takeCont place).2.continueWith f c (.datum v) := by
    rw [stepOf_act hc]
    simp only [Machine.begin, Machine.takeCont, hconts]
  -- The place is empty from now on, and the others are as they were.
  have hgone : (m.stepOf code f).conts.getD place.val none = none := by
    have hempty : ((m.pushFrame f (.next n)).takeCont place).2.conts.getD place.val none = none := by
      show (m.conts.setIfInBounds place.val none).getD place.val none = none
      simp [Array.getD]
    have hlt : place.val < ((m.pushFrame f (.next n)).takeCont place).2.conts.size := by
      have hown : m.Owns f place := by
        rw [Owns, hst]
        simp
      show place.val < (m.conts.setIfInBounds place.val none).size
      rw [Array.size_setIfInBounds]
      exact h.proper.sound.lt_of_owns hown
    have hretains : ((m.pushFrame f (.next n)).takeCont place).2.Retains
        ⟨fun _ => False, fun _ => False, fun _ => False, False⟩ (m.stepOf code f) := by
      rw [hstep]
      exact (Retains.refl _).continueWith c (.datum v)
    exact (hretains.conts place hlt id).trans hempty
  obtain ⟨f', hplays, -⟩ := h.continues (.code n :: (inside.map .code ++ .owning place none :: (ps' ++ qs)))
      hstep htake hkept (fun y hy => h.proper.sound.waits_of_kept hplace hy) fun hstays => by
    have hstack : (((m.pushFrame f (.next n)).takeCont place).2.routine f).stack =
        .next n :: (st₁ ++ .owning place :: st₂ ++ base) := by
      show ((m.pushFrame f (.next n)).routine f).stack = _
      rw [Machine.pushFrame, routine_update_self h.lt, hst]
    have hst' : (m.routine f).stack = st₁ ++ .owning place :: (st₂ ++ base) := by simpa using hst
    obtain ⟨-, hnot⟩ := h.proper.sound.notMem_of_owning hst'
    rw [hstack]
    refine .next ⟨_, base, _, qs, rfl, HasParts.append (hst₁.leaves h.leaves fun k hk => absurd hk (hno k))
      (.gone hgone (hst₂.leaves h.leaves fun k hk => ?_)), h.outside hstays hout, by simp⟩
    have hne : k ≠ place := by
      rintro rfl
      exact hnot (List.mem_append_left _ hk)
    refine h.place_of_running hc ?_ (by simpa [Code.place?] using hne.symm)
    rw [hst']
    simp [hk]
  exact .goes f' hplays (call?_of_running hc) .resumes

/-- Who listens to the front awaits its signal after the step. -/
theorem awaits_of_listening {scope : Scope P} (hscope : (m.routine f).scope = some scope)
    (hj : (m.routine j).control = .listening f) :
    ((m.stepOf code f).routine j).stack = (m.routine j).stack ∧
      awaitedScope? ((m.stepOf code f).routine j).stack = some f := by
  obtain ⟨-, st, hst, -⟩ := h.proper.sound.linked.takesSignals hscope hj
  have hne : j ≠ f := by
    rintro rfl
    exact ne_listening_of_isActive h.active j hj
  have hstack : ((m.stepOf code f).routine j).stack = (m.routine j).stack :=
    h.leaves.stack j hne (lt_of_ne_ended (by rw [hj]; simp))
  refine ⟨hstack, ?_⟩
  rw [hstack, hst]
  rfl

/-- The body of the front is suspended by the step. -/
theorem suspends {scope : Scope P} {goal : Goal P V σ} {mark : Mark} {g : Frame P V σ}
    (hscope : (m.routine f).scope = some scope)
    (hgoal : m.HasGoal scope.finish scope.ctx scope.clauses goal)
    (hj : (m.routine j).control = .listening f) (hw : (m.stepOf code f).Waits ⟨mark, f⟩)
    (hstack : ((m.stepOf code f).routine f).stack = g :: st) (hps : (m.stepOf code f).HasParts st ps) :
    (m.stepOf code f).HasBody f ps scope.ctx scope.clauses goal := by
  have hafter := h.leaves.after.sound
  obtain ⟨scope', hscope', hctx, hclauses, hgoal'⟩ := h.leaves.goal hscope hgoal
    (h.proper.sound.holders_pos_of_frame
      (h.proper.sound.linked.holds_pos_of_listening (by rw [hscope]; rfl) hj) hscope)
    (fun _ => hafter.holders_pos_of_waits hw)
    (fun hover => by
      cases hover.ended.symm.trans ((hafter.linked.phase f hw.1).suspending hw.2.1).2.2.1)
  rw [← hctx, ← hclauses]
  exact .intro hscope' rfl rfl hstack hps hgoal'

/-- An effect that the front hands out for context `c` goes to the innermost scope of the strand: what is
inside of it is on the stack of the front, and what is outside belongs to routine `j`, which takes the
effect. The strand cannot go on in another way. -/
theorem innermost {c : ContextId} {rest : List RoutineId} (hrest : m.HasRest i st₀ f st parts)
    (hedge : m.Edge i around) (hj : (m.routine j).control = .listening f)
    (hchain : m.Chain c f (f :: rest))
    (hcan : (∃ x ∈ parts, x.isScope = true) ∨ Strand.nearest around parts ≠ some c) :
    ∃ scope goal ps rest', (m.routine f).scope = some scope ∧ scope.ctx.id = c ∧
      m.HasGoal scope.finish scope.ctx scope.clauses goal ∧ m.HasParts st ps ∧
      parts = ps ++ .scope scope.ctx scope.clauses goal :: rest' ∧
      awaitedScope? ((m.stepOf code f).routine j).stack = some f ∧
      (m.stepOf code f).HasRest i st₀ j ((m.stepOf code f).routine j).stack rest' := by
  have hnearest := hrest.nearest_eq h.proper.sound hedge c
  have hresumes : ∃ j, m.Resumes c j f := by
    cases hchain with
    | scope hr _ => exact ⟨_, hr⟩
  obtain ⟨own, base, ps, qs, rfl, hps, hout, rfl⟩ := hrest
  rcases h.outside_cases hout with
    ⟨-, -, rfl⟩ | ⟨scope, j', goal, rest', rfl, hscope, hgoal, hj', -, -, rfl, hrest'⟩
  · -- There is no scope of the strand to which the effect could go.
    exfalso
    rcases hcan with ⟨x, hmem, hx⟩ | hno
    · exact absurd hx (by simp [hps.isScope x (by simpa using hmem)])
    · exact hno (hnearest.2 hresumes)
  · obtain rfl : j = j' := h.proper.sound.linked.eq_of_listening (by rw [hscope]; rfl) hj hj'
    obtain ⟨hstack, hawaits⟩ := h.awaits_of_listening hscope hj
    obtain ⟨-, ⟨scope', hscope', hid⟩, -⟩ := hresumes
    obtain rfl : scope = scope' := Option.some.inj (hscope.symm.trans hscope')
    exact ⟨scope, goal, ps, rest', hscope, hid, hgoal, (List.append_nil own).symm ▸ hps, rfl,
      hawaits, hstack ▸ hrest'⟩

/-- Where the front has nobody to hand an effect out to, the strand has no scope for it. -/
theorem nearest_ne {c : ContextId} (hrest : m.HasRest i st₀ f st parts) (hedge : m.Edge i around)
    (hchain : m.Chain c f []) : Strand.nearest around parts ≠ some c := by
  intro heq
  obtain ⟨j, hj⟩ := (hrest.nearest_eq h.proper.sound hedge c).1 heq
  cases hchain with
  | stop hstop => exact hstop j hj

/-- Code performs an effect. -/
theorem performs {a : Act P V} {n : Outcome V V → Code P V σ V} {ctx : Context} {e : Effect} {b : Boxed V}
    (hc : (m.routine f).control = .running (.act a n)) (ha : a.performed? = some (ctx, e, b))
    (hrest : m.HasRest i st₀ f (m.routine f).stack parts) (hedge : m.Edge i around)
    (hcan : ∃ c q', Strand.Step code opened around (.running (.act a n) parts) c q') :
    Advances code opened around m i st₀ f (.running (.act a n) parts) := by
  obtain ⟨l, hchain⟩ := h.proper.sound.linked.exists_chain
    (fun s => ne_listening_of_isActive h.active s) ctx.id
  have hplaces : ∀ k, .owning k ∈ (m.routine f).stack →
      (m.stepOf code f).conts.getD k.val none = m.conts.getD k.val none := fun k hk =>
    h.place_of_running hc hk (by cases a <;> cases ha <;> simp [Code.place?])
  rcases h.proper.sound.step_performs hc ha hchain h.follows with
    ⟨j, rest, rfl, hj, htravels⟩ | ⟨rfl, hcontrol, hstack⟩
  · have hinside : (∃ x ∈ parts, x.isScope = true) ∨ Strand.nearest around parts ≠ some ctx.id := by
      obtain ⟨c, q', hstep⟩ := hcan
      rcases hstep.of_performed ha with ⟨inside, ctx', clauses, goal, rest, rfl, -⟩ | ⟨hno, -⟩
      · exact .inl ⟨.scope ctx' clauses goal, by simp, rfl⟩
      · exact .inr hno
    obtain ⟨scope, goal, ps, rest', hscope, hid, hgoal, hps, rfl, hawaits, hrest'⟩ :=
      h.innermost hrest hedge hj hchain hinside
    obtain ⟨x, hx, hoffer⟩ := htravels.signal
    have hafter := h.leaves.after.sound
    -- The body of the front waits for the answer now.
    have hw : (m.stepOf code f).Waits ⟨.datum, f⟩ :=
      hafter.waits_of_offers (htravels.offers hafter (by simp [Cont.keys]))
    have hbody : (m.stepOf code f).HasBody f (.code n :: ps) scope.ctx scope.clauses goal :=
      h.suspends hscope hgoal hj hw (stack_performs hc ha h.lt) (.code (hps.leaves h.leaves hplaces))
    exact .goes j (.offering hx hawaits hoffer (.direct hbody) hrest') (call?_of_running hc)
      (.performs ha hps.isScope hid)
  · refine .goes f (.waking hcontrol hstack rfl rfl ?_) (call?_of_running hc)
      (.performsAlone ha (h.nearest_ne hrest hedge hchain))
    exact .next (h.rest (by rw [hcontrol]; rfl) hplaces hrest)

/-- A scope that does not bind an effect forwards it to the next scope, if there is one. -/
theorem forwards {y : Signal V} {e : Effect} {b : Boxed V} {k : Cont} {kept : Kept P V σ}
    {scope : Scope P} {l : List RoutineId}
    (hc : (m.routine f).control = .returning (.value (.signal y)))
    (hst : (m.routine f).stack = .dispatch s :: st) (hy : y.offer? s = some (e, b, k))
    (hkept : m.HasKept k kept) (hscope : (m.routine s).scope = some scope)
    (hctx : scope.ctx = kept.ctx) (hclauses : scope.clauses = kept.clauses)
    (hlookup : scope.clauses.lookup e = none) (hrest : m.HasRest i st₀ f st parts)
    (hedge : m.Edge i around)
    (hcan : ∃ c q', Strand.Step code opened around (.offering e b kept parts) c q')
    (htravels : m.Travels scope.ctx.id e b k s f l) :
    Advances code opened around m i st₀ f (.offering e b kept parts) := by
  have hlookup' : kept.clauses.lookup e = none := hclauses ▸ hlookup
  have hafter := h.leaves.after.sound
  have hplaces : ∀ k, .owning k ∈ st →
      (m.stepOf code f).conts.getD k.val none = m.conts.getD k.val none :=
    fun k hk => h.place_of_returning hc hst hk
  have hstack : ((m.stepOf code f).routine f).stack = .forwarding e :: st :=
    h.proper.sound.stack_forwards hc hst hy hscope hlookup
  have hcall : m.call? f = none := by
    rw [call?_of_offer hc hst hy hscope, hlookup]
    rfl
  have hchain := htravels.chain
  rw [hctx] at hchain
  rcases htravels.step_takes h.proper.sound hst h.follows with
    ⟨hbinds, -⟩ | ⟨-, ⟨j, rest, rfl, hj, htravels'⟩ | ⟨rfl, hstrands, -⟩⟩
  · simp [binds, hscope, hlookup] at hbinds
  · have hinside : (∃ x ∈ parts, x.isScope = true) ∨
        Strand.nearest around parts ≠ some kept.ctx.id := by
      obtain ⟨c, q', hstep⟩ := hcan
      rcases hstep.of_unbound hlookup' with ⟨inside, ctx', clauses, goal, rest, rfl, -⟩ | ⟨hno, -⟩
      · exact .inl ⟨.scope ctx' clauses goal, by simp, rfl⟩
      · exact .inr hno
    obtain ⟨around', goal, ps, rest', haround, hid, hgoal, hps, rfl, hawaits, hrest'⟩ :=
      h.innermost hrest hedge hj hchain hinside
    obtain ⟨x, hx, hoffer⟩ := htravels'.signal
    -- The body of the front waits for the result now.
    have hoffers : ∀ z ∈ (Cont.through f k).keys, (m.stepOf code f).Offers j z := fun z hz =>
      htravels'.offers hafter hz
    have hw := hafter.waits_of_offers (hoffers ⟨.result, f⟩ List.mem_cons_self)
    have hbody : (m.stepOf code f).HasBody f ps around'.ctx around'.clauses goal :=
      h.suspends haround hgoal hj hw hstack (hps.leaves h.leaves hplaces)
    have hkept' := hkept.leaves h.leaves fun z hz =>
      ⟨h.proper.sound.waits_of_offers (htravels.offers h.proper.sound hz),
        hafter.waits_of_offers (hoffers z (List.mem_cons_of_mem _ hz))⟩
    exact .goes j (.offering hx hawaits hoffer (.through hkept' hbody) hrest') hcall
      (.forwards hlookup' hps.isScope hid)
  · refine .goes f (.waking hstrands.control hstack rfl rfl ?_) hcall
      (.unhandled hlookup' (h.nearest_ne hrest hedge hchain))
    exact h.rest (by rw [hstrands.control]; rfl) hplaces hrest

/-- A scope takes an effect, or forwards it. -/
theorem offers {y : Signal V} {e : Effect} {b : Boxed V} {k : Cont} {kept : Kept P V σ}
    (hbase : Settled role st₀) (hc : (m.routine f).control = .returning (.value (.signal y)))
    (hawaits : awaitedScope? (m.routine f).stack = some s) (hy : y.offer? s = some (e, b, k))
    (hkept : m.HasKept k kept) (hrest : m.HasRest i st₀ f (m.routine f).stack parts)
    (hedge : m.Edge i around)
    (hcan : ∃ c q', Strand.Step code opened around (.offering e b kept parts) c q') :
    Advances code opened around m i st₀ f (.offering e b kept parts) := by
  have hwaits : ∀ z ∈ k.keys, m.Waits z := fun z hz =>
    h.proper.sound.waits_of_carriedBy (carriedBy_of_offer hc hawaits hy z hz)
  have hafter := h.leaves.after.sound
  rcases h.proper.sound.awaits_cases hc hawaits with ⟨st, hst⟩ | ⟨c, st, hst⟩
  · rw [hst] at hrest
    have hrest' := hrest.unskip rfl fun _ => ne_of_awaits (s := s) hbase rfl
    have hplaces : ∀ k, .owning k ∈ st →
        (m.stepOf code f).conts.getD k.val none = m.conts.getD k.val none :=
      fun k hk => h.place_of_returning hc hst hk
    obtain ⟨scope, hscope, hctx, hclauses⟩ := hkept.outer hy
    obtain ⟨l, hchain⟩ := h.proper.sound.linked.exists_chain
      (fun s => ne_listening_of_isActive h.active s) scope.ctx.id
    have htravels : m.Travels scope.ctx.id e b k s f l :=
      ⟨⟨y, hc, hy⟩, ⟨st, .inl hst⟩, ⟨scope, hscope, rfl⟩, hchain⟩
    have hcall : m.call? f = (kept.clauses.lookup e).bind (·.call? b) := by
      rw [call?_of_offer hc hst hy hscope, hclauses]
    rcases htravels.step_takes h.proper.sound hst h.follows with ⟨-, henters⟩ | ⟨hunbound, -⟩
    · -- A clause takes the effect.
      obtain ⟨scope', clause, place, st', hscope', hlookup, hst', hstack, hrunning, hplace⟩ := henters.enters
      obtain rfl : scope = scope' := Option.some.inj (hscope.symm.trans hscope')
      obtain ⟨-, rfl⟩ : s = s ∧ st = st' := by simpa using hst.symm.trans hst'
      have hsuits := h.proper.sound.linked.suits_of_lookup hscope hlookup
      obtain ⟨-, -, -, hargument, -⟩ := h.proper.sound.worksOffer hc hst hy
      have hkept' := hkept.leaves h.leaves fun z hz => ⟨hwaits z hz, hafter.waits_of_kept hplace hz⟩
      have hplays : Plays code (m.stepOf code f) i st₀ f
          (.running (clause.entered code kept.ctx b place) (.owning place (some kept) :: parts)) := by
        refine .running (hctx ▸ hrunning) ?_
        rw [hstack]
        exact .kept hplace hkept' (h.rest (by rw [hrunning]; rfl) hplaces hrest')
      rw [hclauses] at hlookup
      rw [hlookup] at hcall
      exact .of_clause hplays hcall hlookup hsuits hargument
    · have hlookup : scope.clauses.lookup e = none := by simpa [binds, hscope] using hunbound
      exact h.forwards hc hst hy hkept hscope hctx hclauses hlookup hrest' hedge hcan htravels
  · rw [hst] at hrest
    obtain ⟨hc', hst', hrest', hcall, hless⟩ := h.withdraws hc hst
      (hrest.unskip rfl fun _ => ne_of_awaits (s := s) hbase rfl)
    have hawaits' : awaitedScope? ((m.stepOf code f).routine f).stack = some s := by rw [hst']; rfl
    have hkept' := hkept.leaves h.leaves fun z hz =>
      ⟨hwaits z hz, hafter.waits_of_carriedBy (carriedBy_of_offer hc' hawaits' hy z hz)⟩
    exact .between f (.offering hc' hawaits' hy hkept' (by rw [hst']; exact hrest')) hcall hless

end AtFront

/-- With a step of the routine at its front, a strand that can go on does, or the routine has less to do before
it does. The outcome of a strand that has nothing else to do comes to where the strand began. -/
theorem Plays.advances (hp : Plays code m i st₀ f q) (h : m.AtFront code f)
    (hbase : Settled (m.routine i).role st₀) (hedge : m.Edge i around)
    (hopened : ∀ c, opened c → c.val < m.contexts.size)
    (hcan : (∃ c q', Strand.Step code opened around q c q') ∨ ∃ o, q = .returning o []) :
    Advances code opened around m i st₀ f q ∨ ∃ o, q = .returning o [] ∧ m.Arrived i st₀ o := by
  have hgoes : (¬ ∃ o, q = .returning o []) → ∃ c q', Strand.Step code opened around q c q' :=
    hcan.resolve_right
  cases hp with
  | running hc hparts =>
    have hcan' := hgoes (by rintro ⟨o, heq⟩; cases heq)
    obtain ⟨call, q', hstep⟩ := id hcan'
    left
    cases hstep with
    | ends o hc' =>
      subst hc'
      exact h.ends hc hparts
    | calls => exact h.calls hc hparts
    | asks _ hplace => exact h.asks hc hplace hparts
    | accesses _ => exact h.accesses hc hparts
    | performs ha _ _ => exact h.performs hc ha hparts hedge hcan'
    | performsAlone ha _ => exact h.performs hc ha hparts hedge hcan'
    | opens ha hctx => exact h.opens hc hparts ha hctx (hopened _ hctx)
    | resumes => exact h.resumesOwn hc hparts
  | entering hc hparts => exact .inl (h.enters hc hparts)
  | rejoining hc hkept hparts => exact .inl (h.rejoins hc hkept hparts)
  | returning hc hparts =>
    refine (h.returns hc hparts).imp_right ?_
    rintro ⟨rfl, harrived⟩
    exact ⟨_, rfl, harrived⟩
  | waking hc hst hg ho hparts => exact .inl (h.wakes hc hst hg ho hparts)
  | done hc hst hb hparts => exact .inl (h.brings hc hst hb hparts hbase)
  | brought hc hawaits hb hscope hgoal hparts =>
    exact .inl (h.concludes hbase hc hawaits hb hscope hgoal hparts)
  | offering hc hawaits hx hkept hparts =>
    refine .inl (h.offers hbase hc hawaits hx hkept hparts hedge (hgoes ?_))
    rintro ⟨o, heq⟩
    cases heq

end Machine

end OneShot
