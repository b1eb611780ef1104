import OneShot.Proofs.Concluding
import OneShot.Proofs.Crossing
import OneShot.Proofs.Routing

/-!
# Where a body waits

A handled body is suspended by its own step: it performs an effect, or it runs a scope that forwards one.
So a body that waits in a perform waits in the one that it made last, and has not been resumed since:
`Reaches.performed`.
-/

namespace OneShot

variable {P V σ : Type}

namespace Machine

open Control

variable {code : P → Entry V → Code P V σ V} {m m₀ m₁ m' : Machine P V σ} {i j s : RoutineId}
  {st : List (Frame P V σ)}

/-! ## Suspending leaves the stacks alone -/

theorem stack_release (k : Cont) (m : Machine P V σ) :
    ((m.release k).routine j).stack = (m.routine j).stack := by
  induction k generalizing m with
  | direct s => exact stack_letGoWithin _ m s
  | through s inner ih => exact (ih _).trans (stack_letGoWithin _ m s)

theorem stack_releaseParcel (p : Parcel V) :
    ((m.releaseParcel p).routine j).stack = (m.routine j).stack := by
  unfold releaseParcel
  split
  · exact stack_release _ m
  · rfl

theorem stack_yield (p : Parcel V) : ((m.yield i s p).routine j).stack = (m.routine j).stack := by
  have hset : ∀ (m : Machine P V σ) (l : RoutineId) (d : Control P V σ),
      ((m.setControl l d).routine j).stack = (m.routine j).stack := by
    intro m l d
    rw [setControl, routine_update]
    split <;> rfl
  have hstatus : ∀ (m : Machine P V σ) (l : RoutineId) (a : Status),
      ((m.setStatus l a).routine j).stack = (m.routine j).stack := by
    intro m l a
    rw [setStatus, routine_update]
    split <;> rfl
  have hinbox : ∀ (m : Machine P V σ) (b : Slot (Input V)),
      ((m.update s fun r => { r with inbox := b }).routine j).stack = (m.routine j).stack := by
    intro m b
    rw [routine_update]
    split <;> rfl
  have hsend : ∀ m : Machine P V σ,
      ((m.sendOutput s (.value p)).routine j).stack = (m.routine j).stack := by
    intro m
    have hbox : ∀ b : Slot (Outcome V (Parcel V)),
        ((m.update s fun r => { r with outbox := b }).routine j).stack = (m.routine j).stack := by
      intro b
      rw [routine_update]
      split <;> rfl
    unfold sendOutput
    split
    · exact (hset _ _ _).trans (hbox _)
    · exact hbox _
    · rfl
  have hread : ∀ m : Machine P V σ, ((m.read i s).routine j).stack = (m.routine j).stack := by
    intro m
    unfold read
    split
    · rw [deliver_eq]
      exact (hset _ _ _).trans (hinbox _ _)
    · exact (hset _ _ _).trans (hinbox _ _)
    · exact hset _ _ _
  unfold yield
  split
  · exact (hread _).trans ((hsend _).trans (hstatus _ _ _))
  · exact (hset _ _ _).trans (stack_releaseParcel p)
  · exact (hset _ _ _).trans (stack_releaseParcel p)

theorem stack_suspend (place : Place) (p : Parcel V) :
    ((m.suspend i place p).routine j).stack = (m.routine j).stack := by
  have hfail : ∀ f : Failure,
      (((m.releaseParcel p).fail i f).routine j).stack = (m.routine j).stack := by
    intro f
    rw [fail, reply, setControl, routine_update]
    split <;> exact stack_releaseParcel p
  unfold suspend
  split
  · exact hfail _
  · split
    · exact (stack_yield p).trans (congrArg Routine.stack (routine_setRegistry ..))
    · exact hfail _

/-- A perform leaves its frame on the stack. -/
theorem stack_performs {ctx : Context} {a : Act P V} {e : Effect} {b : Boxed V}
    {next : Outcome V V → Code P V σ V}
    (hc : (m.routine i).control = .running (.act a next)) (ha : a.performed? = some (ctx, e, b))
    (hlt : i.val < m.routines.size) :
    ((m.stepOf code i).routine i).stack = .performing :: .next next :: (m.routine i).stack := by
  rw [stepOf_performs code hc ha, stack_suspend, Machine.pushFrame,
    routine_update_self (by simpa [Machine.pushFrame] using hlt), Machine.pushFrame,
    routine_update_self hlt]

/-! ## What suspends a body -/

/-- A routine that goes on, or listens, does not wait for an input. -/
theorem setControl_ne_reading {d : Control P V σ} (hd : ∀ c, d ≠ .reading c) (c : RoutineId) :
    ((m.setControl i d).routine i).control ≠ .reading c := by
  rw [setControl, routine_update]
  split
  · exact hd c
  · next hno =>
    rw [routine_of_size_le (by simpa using hno)]
    intro h
    cases h

theorem reply_ne_reading (o : Outcome V (Parcel V)) (c : RoutineId) :
    ((m.reply i o).routine i).control ≠ .reading c :=
  setControl_ne_reading (by simp) c

theorem resume_ne_reading (p : Parcel V) (c : RoutineId) :
    ((m.resume i s p).routine i).control ≠ .reading c := by
  have hlisten : ∀ m₁ : Machine P V σ, ((m₁.listen i s).routine i).control ≠ .reading c := by
    intro m₁
    unfold listen
    split
    · unfold hear
      split <;> exact reply_ne_reading _ c
    · exact setControl_ne_reading (by simp) c
    · exact setControl_ne_reading (by simp) c
  unfold resume
  split
  · exact hlisten _
  · exact reply_ne_reading _ c

theorem enterScope_ne_reading (b : Boxed V) (c : RoutineId) :
    ((m.enterScope i s b).routine i).control ≠ .reading c := by
  unfold enterScope
  split
  · exact resume_ne_reading _ c
  · exact reply_ne_reading _ c

theorem continueWith_ne_reading (k : Cont) (b : Boxed V) (c : RoutineId) :
    ((m.continueWith i k b).routine i).control ≠ .reading c := by
  unfold continueWith
  split
  · exact enterScope_ne_reading _ c
  · split
    · exact enterScope_ne_reading _ c
    · exact reply_ne_reading _ c

/-- An operation that performs no effect does not suspend the handled body that begins it. -/
theorem Works.status_begin {a : Act P V} (h : m₀.Works i m [] [])
    (hst : Settled (m.routine i).role (m.routine i).stack) (hs : (m.routine i).scope.isSome)
    (ha : a.performed? = none) :
    ((m.begin code i a).routine i).status = (m.routine i).status ∨
      ∀ c, ((m.begin code i a).routine i).control ≠ .reading c := by
  have hsound := h.atWork.soundBut
  have hcoroutine : ∀ (c : RoutineId) (op : Machine P V σ → Machine P V σ),
      ((m.routine c).scope = none → m.Deals i (op m)) →
        ((m.onCoroutine i c op).routine i).status = (m.routine i).status ∨
          ∀ d, ((m.onCoroutine i c op).routine i).control ≠ .reading d := by
    intro c op hop
    unfold Machine.onCoroutine
    split
    · next hc =>
      simp only [isCoroutine, Bool.and_eq_true, Option.isNone_iff_eq_none] at hc
      exact .inl (congrArg Prod.fst ((hop hc.2).eases.slots i hs))
    · exact .inr (reply_ne_reading _)
  have hcontext : ∀ (scope : Scope P) (body : P),
      ∀ d, ((m.onContext i scope body).routine i).control ≠ .reading d := by
    intro scope body
    unfold Machine.onContext
    split
    · exact enterScope_ne_reading _
    · exact reply_ne_reading _
  cases a with
  | call p entry => exact .inr (setControl_ne_reading (by simp))
  | resume c v => exact hcoroutine c (·.resume i c (.plain v)) fun hc => hsound.resume hc hst.listening v
  | resumeOn r c v =>
    exact hcoroutine c (·.resumeOn i (.registry r) c (.plain v)) fun hc => hsound.resumeOn hc hst r v
  | cancel c answer =>
    exact hcoroutine c (·.cancel i c answer) fun hc => hsound.cancel hc hst answer
  | dispose c answer =>
    exact hcoroutine c (·.dispose i c answer) fun hc => hsound.dispose hc hst answer
  | yield c v => exact hcoroutine c (·.yield i c (.plain v)) fun hc => hsound.yield hc hst v
  | suspend r v =>
    unfold Machine.begin
    dsimp only
    split
    · next hi =>
      simp only [isCoroutine, Bool.and_eq_true, Option.isNone_iff_eq_none] at hi
      rw [hi.2] at hs
      cases hs
    · exact .inr (reply_ne_reading _)
  | perform ctx e v => cases ha
  | raise ctx cause => cases ha
  | handle ctx hd body => exact .inr (hcontext (.ofHandler ctx hd) body)
  | tryWith ctx arms body => exact .inr (hcontext (.ofArms ctx arms) body)
  | continueWith k v =>
    unfold Machine.begin
    dsimp only
    split
    · exact .inr (continueWith_ne_reading _ _)
    · exact .inr (reply_ne_reading _)

/-- Of the frames that take an outcome, only that of a scope may suspend the routine: it forwards an
effect. -/
theorem unwind_ne_reading (hi : i.val < m.routines.size) (o : Outcome V (Parcel V))
    (f : Frame P V σ) :
    (∀ c, ((m.unwind code i o f).routine i).control ≠ .reading c) ∨
      ∃ e, ((m.unwind code i o f).routine i).stack = .forwarding e :: (m.routine i).stack := by
  have hclaim : ∀ (s : RoutineId) (scope : Scope P) (e : Effect) (b : Boxed V) (k : Cont),
      (∀ c, (((m.hold s).claim code i scope e b k).routine i).control ≠ .reading c) ∨
        ∃ e', (((m.hold s).claim code i scope e b k).routine i).stack =
          .forwarding e' :: (m.routine i).stack := by
    intro s scope e b k
    unfold claim
    cases scope.clauses.lookup e with
    | some cl =>
      left
      cases cl with
      | function p =>
        cases b with
        | datum v => exact setControl_ne_reading (by simp)
        | _ => exact reply_ne_reading _
      | arms choice =>
        cases b with
        | raised c => exact setControl_ne_reading (by simp)
        | _ => exact reply_ne_reading _
    | none =>
      refine .inr ⟨e, ?_⟩
      dsimp only
      rw [stack_suspend, pushFrame, routine_update_self (by simpa [hold] using hi), hold,
        routine_update]
      split <;> rfl
  cases f with
  | next k => exact .inl (setControl_ne_reading (by simp))
  | registered p s => exact .inl (reply_ne_reading _)
  | nested d t => exact .inl (reply_ne_reading _)
  | holding s => exact .inl (reply_ne_reading _)
  | owning k => exact .inl (reply_ne_reading _)
  | dispatch s =>
    unfold Machine.unwind
    dsimp only
    split
    · unfold dispatch
      split
      · exact hclaim s _ _ _ _
      · exact hclaim s _ _ _ _
      · unfold conclude
        split
        · exact .inl (reply_ne_reading _)
        · exact .inl (setControl_ne_reading (by simp))
        · exact .inl (enterScope_ne_reading _)
        · exact .inl (reply_ne_reading _)
        · exact .inl (reply_ne_reading _)
      · exact .inl (reply_ne_reading _)
    · exact .inl (reply_ne_reading _)
    · exact .inl (reply_ne_reading _)
  | canceling a => unfold Machine.unwind; dsimp only; split <;> exact .inl (reply_ne_reading _)
  | _ => unfold Machine.unwind; dsimp only; split <;> exact .inl (reply_ne_reading _)

/-- What suspends a handled body: it performs an effect, or runs a scope that forwards one. -/
theorem Sound.suspends (h : m.Sound) (ht : m.Tidy) (hs : (m.routine i).scope.isSome)
    (hi : (m.routine i).control.isActive = true)
    (hstatus : ((m.stepOf code i).routine i).status = .suspending) :
    (∃ a next x, (m.routine i).control = .running (.act a next) ∧ a.performed? = some x ∧
        ((m.stepOf code i).routine i).stack = .performing :: .next next :: (m.routine i).stack) ∨
      ∃ e st, ((m.stepOf code i).routine i).stack = .forwarding e :: st := by
  have hf : m.Follows i (m.stepOf code i) := h.stepOf hi
  have hreading : ((m.stepOf code i).routine i).control = .reading i :=
    ((hf.sound.linked.phase i (hf.influences.own.isSome.trans hs)).suspending hstatus).2.2.1
  have hsame : ((m.stepOf code i).routine i).status ≠ (m.routine i).status := fun heq =>
    ne_reading_of_isActive hi i ((h.linked.phase i hs).suspending (heq ▸ hstatus)).2.2.1
  have hlt := lt_of_isActive hi
  cases hc : (m.routine i).control with
  | starting s a =>
    rw [stepOf_starting hc] at hreading
    refine absurd hreading ?_
    unfold Machine.start
    split
    · exact setControl_ne_reading (by simp) i
    · exact reply_ne_reading _ i
    · exact setControl_ne_reading (by simp) i
    · exact continueWith_ne_reading _ _ i
  | running c =>
    cases c with
    | act a next =>
      cases ha : a.performed? with
      | some x => exact .inl ⟨a, next, x, rfl, ha, stack_performs hc ha hlt⟩
      | none =>
        rw [stepOf_act hc] at hreading hsame
        have hst : Settled (m.routine i).role (m.routine i).stack := by
          have hposture := h.linked.posture i (by simp)
          simpa only [Routine.Posture, hc] using hposture
        have hwork := (h.worksSettled hi (by rw [hc]; rfl) hst).pushFrame (f := .next next)
          (fun _ => rfl) fun _ => rfl
        have hself : (m.pushFrame i (.next next)).routine i =
            { m.routine i with stack := .next next :: (m.routine i).stack } :=
          routine_update_self hlt _
        rcases hwork.status_begin (a := a) (by rw [hself]; exact (settled_next _).2 hst)
          (by rw [hself]; exact hs) ha with heq | hne
        · exact absurd (heq.trans (by rw [hself])) hsame
        · exact absurd hreading (hne i)
    | _ =>
      rw [Machine.stepOf_running hc] at hreading
      exact absurd hreading (setControl_ne_reading (by simp) i)
  | returning o =>
    cases hst : (m.routine i).stack with
    | nil =>
      rw [stepOf_ending hc hst, routine_finish ht hi] at hreading
      simp [finished] at hreading
    | cons f st =>
      rw [stepOf_returning hc hst] at hreading ⊢
      rcases unwind_ne_reading (m := m.update i fun r => { r with stack := st })
        (by simpa using hlt) o f with hne | ⟨e, hstack⟩
      · exact absurd hreading (hne i)
      · exact .inr ⟨e, _, hstack⟩
  | _ => rw [hc] at hi; cases hi

/-! ## Runs -/

/-- The body `i` waits in the perform that it made in machine `m₁`, when nobody had a way to resume it. It has
not been resumed since. -/
structure WaitsSince (code : P → Entry V → Code P V σ V) (m₁ m : Machine P V σ) (i : RoutineId)
    (next : Outcome V V → Code P V σ V) : Prop where
  performs : ∃ a x, (m₁.routine i).control = .running (.act a next) ∧ a.performed? = some x
  uncarried : ∀ y, y.scope = i → ¬ m₁.Carries y
  stack : (m.routine i).stack = .performing :: .next next :: (m₁.routine i).stack
  unanswered : ∃ calls, Unanswered code i m₁ m calls

/-- Nobody has a way to resume a body that can go on. -/
theorem Sound.not_carries (h : m.Sound) {y : Key} (hi : (m.routine y.scope).control.isActive = true) :
    ¬ m.Carries y := by
  rintro (hkept | ⟨j, hj⟩)
  · refine h.linked.not_waits hi (h.counted.waits y ?_)
    have hpos : 0 < m.kept.count y := List.count_pos_iff.2 hkept
    simp only [tokens]
    omega
  · exact h.linked.not_waits hi (h.waits_of_carriedBy hj)

/-- Each body that waits in a perform has waited in it since it performed. -/
def KeepsOrigins (code : P → Entry V → Code P V σ V) (m₀ m : Machine P V σ) : Prop :=
  ∀ i st, (m.routine i).scope.isSome → (m.routine i).status = .suspending →
    (m.routine i).stack = .performing :: st →
      ∃ m₁ next, Reaches code m₀ m₁ ∧ m₁.WaitsSince code m i next

theorem KeepsOrigins.congr (hr : ∀ j, m'.routine j = m.routine j)
    (hturn : ∀ i m₁ calls, Unanswered code i m₁ m calls → Unanswered code i m₁ m' calls)
    (h : KeepsOrigins code m₀ m) : KeepsOrigins code m₀ m' := by
  intro i st hs hstatus hst
  rw [hr] at hs hstatus hst
  obtain ⟨m₁, next, hreach, hw⟩ := h i st hs hstatus hst
  obtain ⟨calls, hcalls⟩ := hw.unanswered
  exact ⟨m₁, next, hreach, hw.performs, hw.uncarried, by rw [hr]; exact hw.stack, calls,
    hturn i m₁ calls hcalls⟩

/-- A body that waits after a step waited before it, or was suspended by its own step. -/
theorem Sound.waited (h : m.Sound) (hstep : m.step code = some m')
    (hs : (m'.routine i).scope.isSome) (hstatus : (m'.routine i).status = .suspending) :
    (m.routine i).scope.isSome ∧ ((m.routine i).status = .suspending ∧
        (m'.routine i).stack = (m.routine i).stack ∨
      m.ready.head? = some i ∧ (m.routine i).control.isActive = true) := by
  have hlt : i.val < m.routines.size := by
    by_contra hge
    rw [h.running_of_opened hstep (not_lt.1 hge) hs] at hstatus
    cases hstatus
  have hs₀ : (m.routine i).scope.isSome := (h.abides_step hstep hlt).isSome ▸ hs
  refine ⟨hs₀, ?_⟩
  obtain ⟨x, ready, hready, ⟨hx, -, hf⟩ | ⟨-, rfl⟩⟩ := h.step_cases hstep
  case inr => exact .inl ⟨hstatus, rfl⟩
  by_cases hix : i = x
  · subst hix
    exact .inr ⟨by rw [hready]; rfl, hx⟩
  · refine .inl ⟨?_, hf.influences.stack i hix hlt⟩
    have hslots : ∀ {a b}, (m'.routine i).slots = (.running, a, b) ∨
        (m'.routine i).slots = (.canceled, a, b) → (m.routine i).status = .suspending := by
      rintro a b (heq | heq) <;> cases hstatus.symm.trans (congrArg Prod.fst heq)
    cases hf.influences.touches i hix hlt with
    | rests hrests =>
      cases hrests with
      | spared heq _ => exact (congrArg Prod.fst heq).symm.trans hstatus
      | closed _ _ heq _ => exact hslots (.inr heq)
    | resumed b _ _ _ heq _ => exact hslots (.inl heq)
    | told o _ _ heq _ => exact (congrArg Prod.fst heq).symm.trans hstatus
    | eased heq _ => exact (congrArg Prod.fst (heq hs₀)).symm.trans hstatus

/-- A body that begins to wait in a perform makes the perform with this step. -/
theorem KeepsOrigins.step (h : KeepsOrigins code m₀ m) (hm : m.Proper) (hr : Reaches code m₀ m)
    (hstep : m.step code = some m') : KeepsOrigins code m₀ m' := by
  intro i st hs hstatus hst
  have hwaits : ¬ m.Answers m' i := fun ⟨_, _, hrunning⟩ => by cases hstatus.symm.trans hrunning
  have hlast : Unanswered code i m m' (m.callsFor i ++ []) := .step hstep hwaits (.refl m')
  obtain ⟨hs₀, ⟨hstatus₀, hstack⟩ | ⟨hhead, hi⟩⟩ := hm.sound.waited hstep hs hstatus
  · obtain ⟨m₁, next, hreach, hw⟩ := h i st hs₀ hstatus₀ (hstack ▸ hst)
    obtain ⟨calls, hcalls⟩ := hw.unanswered
    exact ⟨m₁, next, hreach, hw.performs, hw.uncarried, hstack.trans hw.stack, _,
      hcalls.trans hlast⟩
  · obtain rfl : m.stepOf code i = m' := stepOf_eq_of_step hhead hstep
    rcases hm.sound.suspends hm.tidy hs₀ hi hstatus with ⟨a, next, x, hc, ha, hstack⟩ | ⟨e, st', hst'⟩
    · refine ⟨m, next, hr, ⟨a, x, hc, ha⟩, ?_, hstack, _, hlast⟩
      rintro y rfl
      exact hm.sound.not_carries hi
    · cases (List.cons.inj (hst.symm.trans hst')).1

/-- A handled body that waits in a perform has waited in it since it performed. -/
theorem Reaches.keepsOrigins {store : σ} {c : Code P V σ V} (h : Reaches code (initial store c) m) :
    KeepsOrigins code (initial store c) m := by
  have hinv := @Reaches.invariant P V σ code
    (fun m => m.Proper ∧ Reaches code (initial store c) m ∧ KeepsOrigins code (initial store c) m)
    (fun m m' ⟨hm, hr, hk⟩ hstep =>
      ⟨hm.step hstep, hr.trans (.step hstep (.refl m')), hk.step hm hr hstep⟩)
    (fun m ⟨hm, hr, hk⟩ => ⟨hm.passTurn, hr.trans (.turn (.refl _)),
      hk.congr (routine_passTurn m) fun i m₁ calls hcalls => ?_⟩)
    _ _ h ⟨proper_initial store c, .refl _, fun i st hs => ?_⟩
  · exact hinv.2.2
  · have hturn := hcalls.trans (.turn (.refl m.passTurn))
    rwa [List.append_nil] at hturn
  · obtain ⟨_ | i⟩ := i
    · cases hs
    · rw [routine_of_size_le (by simp [initial])] at hs
      cases hs

end Machine

end OneShot
