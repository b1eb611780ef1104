import OneShot.Proofs.Unwinding

/-!
# What a step may do with code

A step moves a lot around in a machine, but the code that it enters, the frames of code that it puts on a
stack, and the place that it empties are those that the control of its routine names. `Machine.permit` lists
them, and `retains_stepOf` says that everything else of this kind is as it was before.

Each operation is looked at once, for all permits.
-/

namespace OneShot

variable {P V σ : Type}

/-- The place that code names with its next operation. -/
def Code.place? : Code P V σ V → Option ContId
  | .act (.continueWith k _) _ => some k
  | .ask (.holds k) _ | .ask (.keep k) _ | .ask (.discard k) _ => some k
  | _ => none

/-- Whether code asked for the frame: it goes on there, or waits for a coroutine that it cancels. -/
def Frame.isOfCode : Frame P V σ → Bool
  | .next _ | .canceling _ => true
  | _ => false

/-- Whether the answer to a question is a new routine. -/
def Query.makesRoutine : Query P → Bool
  | .spawn _ _ | .skip => true
  | _ => false

/-- What an operation may do. -/
structure Permit (P V σ : Type) where
  /-- Enter such code. -/
  code : Code P V σ V → Prop
  /-- Put such frames on a stack, of those that code asks for. -/
  frame : Frame P V σ → Prop
  /-- Empty such places. -/
  place : ContId → Prop
  /-- Make routines that are no handled bodies. -/
  makes : Prop

namespace Machine

open Control

variable {code : P → Entry V → Code P V σ V} {m m' : Machine P V σ} {i j s c : RoutineId}
  {o : Outcome V (Parcel V)} {a : Permit P V σ}

/-- From the first machine to the second, nothing was done that is not permitted. Contexts are not closed. -/
structure Retains (a : Permit P V σ) (m m' : Machine P V σ) : Prop where
  conts : ∀ k : ContId, k.val < m.conts.size → ¬ a.place k →
    m'.conts.getD k.val none = m.conts.getD k.val none
  size : m.conts.size ≤ m'.conts.size
  contexts : m.contexts.size ≤ m'.contexts.size
  running : ∀ j e, (m'.routine j).control = .running e → (m.routine j).control = .running e ∨ a.code e
  frames : ∀ j f, f.isOfCode = true → f ∈ (m'.routine j).stack → f ∈ (m.routine j).stack ∨ a.frame f
  scopes : ∀ j, j.val < m'.routines.size → (m'.routine j).scope = none →
    j.val < m.routines.size ∧ (m.routine j).scope = none ∨ a.makes

/-! ## Operations -/

namespace Retains

variable {m₀ : Machine P V σ}

theorem refl (m : Machine P V σ) : m.Retains a m :=
  ⟨fun _ _ _ => rfl, le_rfl, le_rfl, fun _ _ => .inl, fun _ _ _ => .inl, fun _ hj hs => .inl ⟨hj, hs⟩⟩

section

variable (h : m₀.Retains a m)
include h

/-- Neither routines nor places change. -/
theorem congr (hr : m'.routines = m.routines) (hconts : m'.conts = m.conts)
    (hcontexts : m.contexts.size ≤ m'.contexts.size) : m₀.Retains a m' := by
  have hroutine : ∀ j, m'.routine j = m.routine j := fun j => by rw [routine, hr, routine]
  exact
    { conts := fun k hk ha => by rw [hconts, h.conts k hk ha]
      size := by rw [hconts]; exact h.size
      contexts := h.contexts.trans hcontexts
      running := fun j => by rw [hroutine]; exact h.running j
      frames := fun j => by rw [hroutine]; exact h.frames j
      scopes := fun j => by rw [hroutine, hr]; exact h.scopes j }

/-- A routine changes. -/
theorem update {f : Routine P V σ → Routine P V σ}
    (hrunning : ∀ e, (f (m.routine i)).control = .running e → (m.routine i).control = .running e ∨ a.code e)
    (hframes : ∀ g, g.isOfCode = true → g ∈ (f (m.routine i)).stack →
      g ∈ (m.routine i).stack ∨ a.frame g)
    (hscope : (f (m.routine i)).scope = none → (m.routine i).scope = none) : m₀.Retains a (m.update i f) := by
  have hcases : ∀ j, (m.update i f).routine j = m.routine j ∨
      j = i ∧ (m.update i f).routine j = f (m.routine i) := by
    intro j
    rw [routine_update]
    split
    · next hij => exact .inr ⟨hij.1.symm, by rw [hij.1]⟩
    · exact .inl rfl
  refine ⟨h.conts, h.size, h.contexts, fun j e he => ?_, fun j g hg hmem => ?_, fun j hj hs => ?_⟩
  · rcases hcases j with heq | ⟨rfl, heq⟩
    · exact h.running j e (heq ▸ he)
    · exact (hrunning e (heq ▸ he)).elim (h.running j e) .inr
  · rcases hcases j with heq | ⟨rfl, heq⟩
    · exact h.frames j g hg (heq ▸ hmem)
    · exact (hframes g hg (heq ▸ hmem)).elim (h.frames j g hg) .inr
  · rw [size_update] at hj
    rcases hcases j with heq | ⟨rfl, heq⟩
    · exact h.scopes j hj (heq ▸ hs)
    · exact h.scopes j hj (hscope (heq ▸ hs))

/-- A routine changes something that is not concerned. -/
theorem updateOther {f : Routine P V σ → Routine P V σ} (hcontrol : ∀ r, (f r).control = r.control)
    (hstack : ∀ r, (f r).stack = r.stack) (hscope : ∀ r, (f r).scope = r.scope) :
    m₀.Retains a (m.update i f) :=
  h.update (fun _ he => .inl (hcontrol _ ▸ he)) (fun _ _ hg => .inl (hstack _ ▸ hg)) fun hs => hscope _ ▸ hs

theorem setControl {d : Control P V σ} (hd : ∀ e, d = .running e → a.code e) :
    m₀.Retains a (m.setControl i d) :=
  h.update (fun e he => .inr (hd e he)) (fun _ _ => .inl) id

/-- A routine waits, or has an outcome. -/
theorem setOther {d : Control P V σ} (hd : ∀ e, d ≠ .running e) : m₀.Retains a (m.setControl i d) :=
  h.setControl fun e he => absurd he (hd e)

theorem run {e : Code P V σ V} (he : a.code e) : m₀.Retains a (m.setControl i (.running e)) :=
  h.setControl (by rintro _ ⟨⟩; exact he)

theorem reply (o : Outcome V (Parcel V)) : m₀.Retains a (m.reply i o) := h.setOther (by rintro _ ⟨⟩)

theorem fail (e : Failure) : m₀.Retains a (m.fail i e) := h.reply _

theorem setStatus (b : Status) : m₀.Retains a (m.setStatus i b) :=
  h.updateOther (fun _ => rfl) (fun _ => rfl) fun _ => rfl

theorem setScope {g : Option (Scope P)} (hg : g = none → (m.routine s).scope = none) :
    m₀.Retains a (m.update s fun r => { r with scope := g }) :=
  h.update (fun _ => .inl) (fun _ _ => .inl) hg

theorem hold : m₀.Retains a (m.hold s) :=
  h.update (fun _ => .inl) (fun _ _ => .inl) Option.map_eq_none_iff.1

/-- A frame is put on a stack. Code asks for it, or it is one of the operation itself. -/
theorem pushFrame {f : Frame P V σ} (hf : f.isOfCode = true → a.frame f) : m₀.Retains a (m.pushFrame i f) := by
  refine h.update (fun _ => .inl) (fun g hg hmem => ?_) id
  rcases List.mem_cons.1 hmem with rfl | hmem
  · exact .inr (hf hg)
  · exact .inl hmem

theorem pushOther {f : Frame P V σ} (hf : f.isOfCode = false) : m₀.Retains a (m.pushFrame i f) :=
  h.pushFrame fun hcode => by rw [hf] at hcode; cases hcode

theorem popFrame {f : Frame P V σ} {st : List (Frame P V σ)} (hst : (m.routine i).stack = f :: st) :
    m₀.Retains a (m.update i fun r => { r with stack := st }) :=
  h.update (fun _ => .inl) (fun _ _ hmem => .inl (hst ▸ List.mem_cons_of_mem _ hmem)) id

theorem enter (config : Config) : m₀.Retains a (m.enter i config) := by
  refine h.update (fun e he => ?_) (fun g hg hmem => ?_) fun hs => ?_
  · dsimp only at he
    split at he <;> exact .inl he
  · have hmem' : g ∈ .nested (m.routine i).depth (m.routine i).thread :: (m.routine i).stack := by
      dsimp only at hmem
      split at hmem <;> exact hmem
    rcases List.mem_cons.1 hmem' with rfl | hmem'
    · cases hg
    · exact .inl hmem'
  · dsimp only at hs
    split at hs <;> exact hs

theorem grow {r : Routine P V σ} (hrunning : ∀ e, r.control ≠ .running e) (hstack : r.stack = [])
    (hscope : r.scope = none → a.makes) : m₀.Retains a (m.grow r) := by
  refine ⟨h.conts, h.size, h.contexts, fun j e he => ?_, fun j g hg hmem => ?_, fun j hj hs => ?_⟩
  · rw [routine_grow] at he
    split at he
    · exact absurd he (hrunning e)
    · exact h.running j e he
  · rw [routine_grow] at hmem
    split at hmem
    · rw [hstack] at hmem
      cases hmem
    · exact h.frames j g hg hmem
  · rw [routine_grow] at hs
    split at hs
    · exact .inr (hscope hs)
    · next hne =>
      have hlt : j.val < m.routines.size := by
        have hsize : (m.grow r).routines.size = m.routines.size + 1 := Array.size_push ..
        have hval : j.val ≠ m.routines.size := fun heq => hne (congrArg RoutineId.mk heq)
        omega
      exact h.scopes j hlt hs

theorem wake : m₀.Retains a (m.wake i) := h.congr rfl rfl le_rfl

theorem pause : m₀.Retains a (m.pause i) := h.congr rfl rfl le_rfl

theorem setRegistry (p : Place) (g : Registry RoutineId) : m₀.Retains a (m.setRegistry p g) := by
  cases p with
  | registry r => exact h.congr rfl rfl le_rfl
  | context c => exact h.congr rfl rfl (Array.size_setIfInBounds ..).ge

theorem takeCont {k : ContId} (hk : a.place k) : m₀.Retains a (m.takeCont k).2 := by
  refine { h with conts := fun k' hlt hk' => ?_, size := h.size.trans (Array.size_setIfInBounds ..).ge }
  have hne : k ≠ k' := by
    rintro rfl
    exact hk' hk
  exact (conts_takeCont_of_ne hne).trans (h.conts k' hlt hk')

theorem keepCont (k : Cont) : m₀.Retains a (m.keepCont k).2 := by
  refine { h with
    conts := fun k' hlt hk' => Eq.trans ?_ (h.conts k' hlt hk')
    size := h.size.trans ((Array.size_push ..).symm ▸ Nat.le_succ _) }
  unfold Machine.keepCont
  simp only [Array.getD_eq_getD_getElem?, Array.getElem?_push,
    if_neg (Nat.ne_of_lt (hlt.trans_le h.size))]

theorem deliver (x : Input V) : m₀.Retains a (m.deliver i x) := by
  unfold Machine.deliver
  split
  · exact h.setOther (by rintro _ ⟨⟩)
  · exact h.setOther (by rintro _ ⟨⟩)
  · exact h.reply _
  · exact h.fail _

theorem hear : m₀.Retains a (m.hear i c o) := by
  unfold Machine.hear
  split
  · exact (h.setStatus _).reply _
  · exact h.reply _

theorem setInbox (x : Slot (Input V)) : m₀.Retains a (m.update c fun r => { r with inbox := x }) :=
  h.updateOther (fun _ => rfl) (fun _ => rfl) fun _ => rfl

theorem setOutbox (x : Slot (Outcome V (Parcel V))) :
    m₀.Retains a (m.update c fun r => { r with outbox := x }) :=
  h.updateOther (fun _ => rfl) (fun _ => rfl) fun _ => rfl

theorem sendInput (x : Input V) : m₀.Retains a (m.sendInput c x) := by
  unfold Machine.sendInput
  split
  · exact ((h.setInbox _).deliver x).wake
  · exact h.setInbox _
  · exact h

theorem sendOutput : m₀.Retains a (m.sendOutput c o) := by
  unfold Machine.sendOutput
  split
  · exact (h.setOutbox _).hear.wake
  · exact h.setOutbox _
  · exact h

theorem read : m₀.Retains a (m.read i c) := by
  unfold Machine.read
  split
  · exact (h.setInbox _).deliver _
  · exact ((h.setInbox _).setOther (by rintro _ ⟨⟩)).pause
  · exact (h.setOther (by rintro _ ⟨⟩)).pause

theorem listen : m₀.Retains a (m.listen i c) := by
  unfold Machine.listen
  split
  · exact (h.setOutbox _).hear
  · exact ((h.setOutbox _).setOther (by rintro _ ⟨⟩)).pause
  · exact (h.setOther (by rintro _ ⟨⟩)).pause

theorem close : m₀.Retains a (m.close c).2 := by
  unfold Machine.close
  split
  · have hclosed : m₀.Retains a (m.update c fun r => { r with status := .canceled, inbox := .empty }) :=
      h.updateOther (fun _ => rfl) (fun _ => rfl) fun _ => rfl
    exact (hclosed.deliver _).wake
  · show m₀.Retains a (if _ then _ else _ : Machine P V σ)
    split
    · exact h.setStatus _
    · exact h

theorem spawn (config : Config) (start : Start P V) {scope : Option (Scope P)}
    (hscope : scope = none → a.makes) : m₀.Retains a (m.spawn config start scope).2 :=
  h.grow (by rintro _ ⟨⟩) rfl hscope

theorem resume (p : Parcel V) : m₀.Retains a (m.resume i c p) := by
  unfold Machine.resume
  split
  · exact ((h.setStatus _).sendInput _).listen
  · exact h.fail _

theorem resumeOn (place : Place) (p : Parcel V) : m₀.Retains a (m.resumeOn i place c p) :=
  ((h.setRegistry ..).pushOther rfl).resume p

theorem cancel {answer : V} (hf : a.frame (.canceling answer)) : m₀.Retains a (m.cancel i c answer) := by
  unfold Machine.cancel
  split
  · exact (((h.setStatus _).pushFrame fun _ => hf).sendInput _).listen
  · exact h.fail _

theorem join (answer : V) : m₀.Retains a (m.join i c answer) := by
  unfold Machine.join
  split
  · exact h.reply _
  · have hjoins : m₀.Retains a (m.update c fun r => { r with joiners := i :: r.joiners }) :=
      h.updateOther (fun _ => rfl) (fun _ => rfl) fun _ => rfl
    exact (hjoins.setOther (by rintro _ ⟨⟩)).pause

theorem dispose (answer : V) : m₀.Retains a (m.dispose i c answer) := by
  have hclose : m₀.Retains a (m.close c).2 := h.close
  unfold Machine.dispose
  split
  · exact h.fail _
  · split
    · next heq =>
      rw [heq] at hclose
      exact hclose.join answer
    · next heq =>
      rw [heq] at hclose
      exact hclose.reply _

theorem enterScope (b : Boxed V) : m₀.Retains a (m.enterScope i s b) := by
  unfold Machine.enterScope
  split
  · exact (((h.pushOther rfl).enter _).pushOther rfl).resumeOn ..
  · exact h.fail _

theorem openScope (scope : Scope P) (start : Start P V) : m₀.Retains a (m.openScope i scope start) :=
  (h.spawn _ start (by rintro ⟨⟩)).hold.enterScope _

theorem continueWith (k : Cont) (b : Boxed V) : m₀.Retains a (m.continueWith i k b) := by
  unfold Machine.continueWith
  split
  · exact h.enterScope b
  · split
    · exact (h.hold.pushOther rfl).openScope ..
    · exact h.fail _

theorem callOwning (k : Cont) {d : ContId → Code P V σ V} (hd : ∀ place, a.code (d place)) :
    m₀.Retains a (m.callOwning i k d) :=
  ((h.keepCont k).pushOther rfl).run (hd _)

theorem conclude (hcode : ∀ p entry, a.code (code p entry)) {scope : Scope P} {b : Boxed V} :
    m₀.Retains a (m.conclude code i s scope b) := by
  unfold Machine.conclude
  split
  · exact h.reply _
  · exact h.run (hcode _ _)
  · exact (h.setScope (by rintro ⟨⟩)).enterScope ..
  · exact h.fail _
  · exact h.fail _

end

theorem letGoWithin (fuel : Nat) (h : m₀.Retains a m) (s : RoutineId) :
    m₀.Retains a (m.letGoWithin fuel s) := by
  induction fuel generalizing m s with
  | zero => exact h
  | succ fuel ih =>
    unfold Machine.letGoWithin
    split
    · exact h
    · next scope hscope =>
      have hless : m₀.Retains a (m.update s fun r =>
          { r with scope := some { scope with holders := scope.holders - 1 } }) :=
        h.setScope (by rintro ⟨⟩)
      dsimp only
      split
      · split
        · exact (ih hless _).close
        · exact hless.close
      · exact hless

theorem release (k : Cont) (h : m₀.Retains a m) : m₀.Retains a (m.release k) := by
  induction k generalizing m with
  | direct s => exact h.letGoWithin _ s
  | through s inner ih => exact ih (h.letGoWithin _ s)

theorem wakeJoiners (js : List RoutineId) (h : m₀.Retains a m) : m₀.Retains a (js.foldl wakeJoiner m) := by
  induction js generalizing m with
  | nil => exact h
  | cons j js ih =>
    refine ih ?_
    unfold wakeJoiner
    split
    · exact (h.reply _).wake
    · exact h

section

variable (h : m₀.Retains a m)
include h

theorem releaseParcel (p : Parcel V) : m₀.Retains a (m.releaseParcel p) := by
  unfold Machine.releaseParcel
  split
  · exact release _ h
  · exact h

theorem releaseAt {k : ContId} (hk : a.place k) : m₀.Retains a (m.releaseAt k) := by
  have htake : m₀.Retains a (m.takeCont k).2 := h.takeCont hk
  unfold Machine.releaseAt
  split
  · next heq =>
    rw [heq] at htake
    exact release _ htake
  · next heq =>
    rw [heq] at htake
    exact htake

theorem yield (p : Parcel V) : m₀.Retains a (m.yield i c p) := by
  unfold Machine.yield
  split
  · exact (h.setStatus _).sendOutput.read
  · exact (h.releaseParcel p).fail _
  · exact (h.releaseParcel p).fail _

theorem suspend (place : Place) (p : Parcel V) : m₀.Retains a (m.suspend i place p) := by
  unfold Machine.suspend
  split
  · exact (h.releaseParcel p).fail _
  · split
    · exact (h.setRegistry ..).yield p
    · exact (h.releaseParcel p).fail _

theorem finish : m₀.Retains a (m.finish i o) := by
  have hended : m₀.Retains a (m.update i (Routine.atEnd o)) :=
    h.update (by rintro _ ⟨⟩) (fun _ _ => .inl) id
  rw [finish_eq]
  exact wakeJoiners _ hended.pause.sendOutput

/-- A scope gives an effect to one of its clauses, or forwards it. -/
theorem claim (hcode : ∀ p entry, a.code (code p entry))
    (hraise : ∀ ctx cause, a.code (.perform (.raise ctx cause))) {scope : Scope P} {e : Effect}
    {b : Boxed V} {k : Cont} : m₀.Retains a (m.claim code i scope e b k) := by
  unfold Machine.claim
  split
  · exact h.callOwning k fun _ => hcode _ _
  · refine h.callOwning k fun _ => ?_
    split
    · exact hcode _ _
    · exact hraise _ _
  · exact (release k h).fail _
  · exact (h.pushOther rfl).suspend ..

theorem dispatch (hcode : ∀ p entry, a.code (code p entry))
    (hraise : ∀ ctx cause, a.code (.perform (.raise ctx cause))) {x : Signal V} :
    m₀.Retains a (m.dispatch code i s x) := by
  unfold Machine.dispatch
  split
  · exact h.hold.claim hcode hraise
  · exact h.hold.claim hcode hraise
  · exact h.conclude hcode
  · exact h.fail _

theorem onCoroutine {f : Machine P V σ → Machine P V σ} (hf : m₀.Retains a (f m)) :
    m₀.Retains a (m.onCoroutine i c f) := by
  unfold Machine.onCoroutine
  split
  · exact hf
  · exact h.fail _

theorem onContext (scope : Scope P) (body : P) : m₀.Retains a (m.onContext i scope body) := by
  unfold Machine.onContext
  split
  · exact h.openScope ..
  · exact h.fail _

theorem begin (hcode : ∀ p entry, a.code (code p entry)) {act : Act P V}
    (hplace : ∀ k v, act = .continueWith k v → a.place k)
    (hcancel : ∀ c answer, act = .cancel c answer → a.frame (.canceling answer)) :
    m₀.Retains a (m.begin code i act) := by
  cases act with
  | call p entry => exact h.run (hcode p entry)
  | resume c v =>
    apply h.onCoroutine
    exact h.resume _
  | resumeOn r c v =>
    apply h.onCoroutine
    exact h.resumeOn ..
  | cancel c answer =>
    apply h.onCoroutine
    exact h.cancel (hcancel c answer rfl)
  | dispose c answer =>
    apply h.onCoroutine
    exact h.dispose answer
  | yield c v =>
    apply h.onCoroutine
    exact h.yield _
  | suspend r v =>
    unfold Machine.begin
    dsimp only
    split
    · exact h.suspend ..
    · exact h.fail _
  | perform ctx e v => exact (h.pushOther rfl).suspend ..
  | raise ctx cause => exact (h.pushOther rfl).suspend ..
  | handle ctx hd body => exact h.onContext ..
  | tryWith ctx arms body => exact h.onContext ..
  | continueWith k v =>
    have htake : m₀.Retains a (m.takeCont k).2 := h.takeCont (hplace k v rfl)
    unfold Machine.begin
    dsimp only
    split
    · next heq =>
      rw [heq] at htake
      exact htake.continueWith ..
    · next heq =>
      rw [heq] at htake
      exact htake.fail _

theorem answer {q : Query P} {next : q.Reply → Code P V σ V}
    (hplace : ∀ k, (Code.ask q next : Code P V σ V).place? = some k → a.place k)
    (hmakes : q.makesRoutine = true → a.makes) : m₀.Retains a (m.answer i q).2 := by
  cases q with
  | spawn config body => exact h.spawn _ _ fun _ => hmakes rfl
  | skip => exact h.grow (r := .absent) (by rintro _ ⟨⟩) rfl fun _ => hmakes rfl
  | keep k =>
    have htake : m₀.Retains a (m.takeCont k).2 := h.takeCont (hplace k rfl)
    unfold Machine.answer
    dsimp only
    split
    · next heq =>
      rw [heq] at htake
      exact htake.keepCont _
    · next heq =>
      rw [heq] at htake
      exact htake
  | discard k => exact h.releaseAt (hplace k rfl)
  | abandon c =>
    show m₀.Retains a (if m.isCoroutine c && !m.isBusy c then m.abandon c else m)
    split
    · exact h.close
    · exact h
  | register r op => exact h.setRegistry (.registry r) ((m.registry (.registry r)).apply op).2
  | openContext config => exact h.congr rfl rfl ((Array.size_push ..).symm ▸ Nat.le_succ _)
  | _ => exact h.congr rfl rfl le_rfl

end

end Retains

/-! ## Steps -/

/-- The place that a step may use: code names it, or a handler function ends that owns it. -/
def MayUse (m : Machine P V σ) (i : RoutineId) (k : ContId) : Prop :=
  (∃ c, (m.routine i).control = .running c ∧ c.place? = some k) ∨
    ∃ o st, (m.routine i).control = .returning o ∧ (m.routine i).stack = .owning k :: st

/-- The code that a step of routine `i` may enter. -/
inductive MayRun (code : P → Entry V → Code P V σ V) (m : Machine P V σ) (i : RoutineId) :
    Code P V σ V → Prop where
  | procedure (p : P) (entry : Entry V) : MayRun code m i (code p entry)
  /-- An error for which a scope has no arm is raised again. -/
  | raises (ctx : Context) (cause : Cause) : MayRun code m i (.perform (.raise ctx cause))
  | answered {q : Query P} {next : q.Reply → Code P V σ V} (r : q.Reply)
    (hc : (m.routine i).control = .running (.ask q next)) : MayRun code m i (next r)
  | accessed {change : σ → σ} {next : σ → Code P V σ V} (s : σ)
    (hc : (m.routine i).control = .running (.access change next)) : MayRun code m i (next s)
  | next {n : Outcome V V → Code P V σ V} (o : Outcome V (Parcel V)) {st : List (Frame P V σ)}
    (hc : (m.routine i).control = .returning o) (hst : (m.routine i).stack = .next n :: st) :
    MayRun code m i (n (seen o))

/-- What a step of routine `i` may do. -/
def permit (code : P → Entry V → Code P V σ V) (m : Machine P V σ) (i : RoutineId) : Permit P V σ where
  code := m.MayRun code i
  frame f := ∃ act next, (m.routine i).control = .running (.act act next) ∧
    (f = .next next ∨ ∃ c answer, act = .cancel c answer ∧ f = .canceling answer)
  place := m.MayUse i
  makes := ∃ q next, (m.routine i).control = .running (.ask q next) ∧ q.makesRoutine = true

/-- A step does what it may do. -/
theorem retains_stepOf : m.Retains (m.permit code i) (m.stepOf code i) := by
  have h : m.Retains (m.permit code i) m := .refl m
  have hcode : ∀ p entry, (m.permit code i).code (code p entry) := .procedure
  unfold Machine.stepOf
  split
  · next s x hc =>
    unfold start
    split
    · exact h.run (hcode _ _)
    · exact h.fail _
    · exact (h.pushOther rfl).run (hcode _ _)
    · exact (h.pushOther rfl).continueWith ..
  · next e hc =>
    cases e with
    | pure v => exact h.reply _
    | fail f => exact h.fail _
    | panic p => exact h.reply _
    | access change next =>
      have hchange : m.Retains (m.permit code i) { m with store := change m.store } := h.congr rfl rfl le_rfl
      exact hchange.run (.accessed m.store hc)
    | ask q next =>
      have hanswer : m.Retains (m.permit code i) (m.answer i q).2 :=
        h.answer (fun k hk => .inl ⟨_, hc, hk⟩) fun hq => ⟨q, next, hc, hq⟩
      exact hanswer.run (.answered _ hc)
    | act act next =>
      refine (h.pushFrame fun _ => ⟨act, next, hc, .inl rfl⟩).begin hcode ?_ ?_
      · rintro k v rfl
        exact .inl ⟨_, hc, rfl⟩
      · rintro c answer rfl
        exact ⟨_, next, hc, .inr ⟨c, answer, rfl, rfl⟩⟩
  · next o hc =>
    split
    · exact h.finish
    · next f st hst =>
      have hpop : m.Retains (m.permit code i) (m.update i fun r => { r with stack := st }) := h.popFrame hst
      cases f with
      | next n => exact hpop.run (.next o hc hst)
      | registered p c => exact (hpop.setRegistry ..).reply _
      | nested d t =>
        have hback : m.Retains (m.permit code i) ((m.update i fun r => { r with stack := st }).update i
            fun r => { r with depth := d, thread := t }) :=
          hpop.updateOther (fun _ => rfl) (fun _ => rfl) fun _ => rfl
        exact hback.reply _
      | holding s => exact (hpop.letGoWithin _ _).reply _
      | owning k => exact (hpop.releaseAt (.inr ⟨o, st, hc, hst⟩)).reply _
      | dispatch s =>
        unfold unwind
        dsimp only
        split
        · exact hpop.dispatch hcode .raises
        · exact hpop.fail _
        · exact hpop.reply _
      | canceling answer =>
        unfold unwind
        dsimp only
        split
        · exact (hpop.releaseParcel _).reply _
        · exact hpop.reply _
        · exact hpop.reply _
      | _ =>
        unfold unwind
        dsimp only
        split
        all_goals exact hpop.reply _
  · exact h.pause

theorem contexts_step (hstep : m.step code = some m') : m.contexts.size ≤ m'.contexts.size := by
  obtain ⟨i, -, rfl⟩ := head_of_step hstep
  exact retains_stepOf.contexts

end Machine

end OneShot
