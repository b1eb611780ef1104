import OneShot.Proofs.Lifecycle
import OneShot.Proofs.Passing

/-!
# Faults do not come from the machine

A *fault* says that a continuation was resumed twice, that a value is not of the kind that its receiver
expects, or that a resume met a coroutine that cannot be resumed. `Clear` describes machines in which no
routine has a fault of some kind to hand on. Most changes of a machine keep it clear, whatever the
machine; the few that do not are the subject of the next module.
-/

namespace OneShot

variable {P V σ : Type}

/-- Whether a failure says that a continuation, a value or a coroutine was not used as it can be. -/
def Failure.isFault : Failure → Bool
  | .continuationReused | .typeMismatch _ | .cannotResume _ => true
  | _ => false

theorem Boxed.exists_datum {b : Boxed V} (h : b.mark? = some .datum) : ∃ v, b = .datum v := by
  cases b with
  | datum v => exact ⟨v, rfl⟩
  | _ => cases h

theorem Boxed.exists_result {b : Boxed V} (h : b.mark? = some .result) : ∃ v, b = .result v := by
  cases b with
  | result v => exact ⟨v, rfl⟩
  | _ => cases h

/-- The routine has no bad failure to hand on, a coroutine that code has made starts with a plain input, and
the scope, if it is to be whole, has not given its value away. -/
structure Routine.Clear (bad : Failure → Prop) (whole : Prop) (r : Routine P V σ) : Prop where
  control : ∀ f, bad f → r.control ≠ .returning (.failure f)
  outbox : ∀ f, bad f → r.outbox ≠ .full (.failure f)
  input : ∀ p a, r.control = .starting (.body p) a → ∃ v, a = .plain v
  finish : whole → ∀ c, r.scope = some c → c.finish ≠ .into none

/-- All routines are clear. -/
def Machine.Clear (m : Machine P V σ) (bad : Failure → Prop) (whole : RoutineId → Prop) : Prop :=
  ∀ j, (m.routine j).Clear bad (whole j)

namespace Machine.Clear

variable {m m' : Machine P V σ} {i j c s : RoutineId} {bad : Failure → Prop}
  {whole : RoutineId → Prop} {o : Outcome V (Parcel V)} {d : Control P V σ}

/-- Who can go on still can when somebody hears an output. -/
theorem isActive_sendOutput (hi : (m.routine i).control.isActive = true) :
    ((m.sendOutput c o).routine i).control.isActive = true := by
  have hreply : ∀ (m₁ : Machine P V σ) (l : RoutineId), (m₁.routine i).control.isActive = true →
      ((m₁.reply l o).routine i).control.isActive = true := by
    intro m₁ l h₁
    rw [Machine.reply, Machine.setControl, routine_update]
    split
    · rfl
    · exact h₁
  have hempty : ((m.update c fun r => { r with outbox := .empty }).routine i).control.isActive =
      true := by
    rw [routine_update]
    split <;> exact hi
  unfold Machine.sendOutput
  split
  · rw [routine_wake]
    unfold hear
    split
    · refine hreply _ _ ?_
      rw [Machine.setStatus, routine_update]
      split <;> exact hempty
    · exact hreply _ _ hempty
  · rw [routine_update]
    split <;> exact hi
  · exact hi

section Changes

variable (h : m.Clear bad whole)
include h

theorem congr (hr : ∀ j, m'.routine j = m.routine j) : m'.Clear bad whole :=
  fun j => hr j ▸ h j

/-- One routine changes. -/
theorem update {f : Routine P V σ → Routine P V σ}
    (hf : (m.routine i).Clear bad (whole i) → (f (m.routine i)).Clear bad (whole i)) :
    (m.update i f).Clear bad whole := by
  intro j
  rw [routine_update]
  split
  · next hij =>
    obtain ⟨rfl, -⟩ := hij
    exact hf (h i)
  · exact h j

/-- A routine changes something else. -/
theorem updateOther {f : Routine P V σ → Routine P V σ} (hcontrol : ∀ r, (f r).control = r.control)
    (houtbox : ∀ r, (f r).outbox = r.outbox) (hscope : ∀ r, (f r).scope = r.scope) :
    (m.update i f).Clear bad whole :=
  h.update fun hi => ⟨by rw [hcontrol]; exact hi.control, by rw [houtbox]; exact hi.outbox,
    by rw [hcontrol]; exact hi.input, by rw [hscope]; exact hi.finish⟩

theorem setControl (hbad : ∀ f, bad f → d ≠ .returning (.failure f))
    (hinput : ∀ p a, d = .starting (.body p) a → ∃ v, a = .plain v) :
    (m.setControl i d).Clear bad whole :=
  h.update fun hi => ⟨hbad, hi.outbox, hinput, hi.finish⟩

theorem run (c : Code P V σ V) : (m.setControl i (.running c)).Clear bad whole :=
  h.setControl (fun _ _ hc => by cases hc) fun _ _ hc => by cases hc

theorem reply (ho : ∀ f, bad f → o ≠ .failure f) : (m.reply i o).Clear bad whole :=
  h.setControl (fun f hf hc => ho f hf (Control.returning.inj hc)) fun _ _ hc => by cases hc

theorem replyValue (p : Parcel V) : (m.reply i (.value p)).Clear bad whole :=
  h.reply fun _ _ hc => by cases hc

theorem fail {f : Failure} (hf : ¬ bad f) : (m.fail i f).Clear bad whole :=
  h.reply fun f' hf' hc => by
    obtain rfl := Outcome.failure.inj hc
    exact hf hf'

theorem pushFrame (f : Frame P V σ) : (m.pushFrame i f).Clear bad whole :=
  h.updateOther (fun _ => rfl) (fun _ => rfl) fun _ => rfl

theorem popFrame (st : List (Frame P V σ)) :
    (m.update i fun r => { r with stack := st }).Clear bad whole :=
  h.updateOther (fun _ => rfl) (fun _ => rfl) fun _ => rfl

theorem setStatus (s : Status) : (m.setStatus i s).Clear bad whole :=
  h.updateOther (fun _ => rfl) (fun _ => rfl) fun _ => rfl

theorem setRegistry (p : Place) (g : Registry RoutineId) : (m.setRegistry p g).Clear bad whole :=
  h.congr fun j => routine_setRegistry m p g j

/-- A scope changes, but not what it does with the value of its body. -/
theorem setScope {g : Option (Scope P)}
    (hg : ∀ c, g = some c → ∃ c', (m.routine s).scope = some c' ∧ c.finish = c'.finish) :
    (m.update s fun r => { r with scope := g }).Clear bad whole :=
  h.update fun hs => ⟨hs.control, hs.outbox, hs.input, fun hw c hc => by
    obtain ⟨c', hc', heq⟩ := hg c hc
    rw [heq]
    exact hs.finish hw c' hc'⟩

theorem hold (s : RoutineId) : (m.hold s).Clear bad whole := by
  refine h.update fun hs => ⟨hs.control, hs.outbox, hs.input, fun hw c hc => ?_⟩
  simp only [Option.map_eq_some_iff] at hc
  obtain ⟨c', hc', rfl⟩ := hc
  exact hs.finish hw c' hc'

/-- A routine is made that is clear itself. -/
theorem grow {r : Routine P V σ} (hr : r.Clear bad (whole m.next)) : (m.grow r).Clear bad whole := by
  intro j
  rw [routine_grow]
  split
  · next hj => exact hj ▸ hr
  · exact h j

theorem takeCont (k : ContId) : (m.takeCont k).2.Clear bad whole := h.congr fun _ => rfl

theorem listen : (m.listen i c).Clear bad whole := by
  unfold Machine.listen
  split
  · next o hout =>
    have hempty : (m.update c fun r => { r with outbox := .empty }).Clear bad whole :=
      h.update fun hc => ⟨hc.control, fun _ _ heq => by (cases heq), hc.input, hc.finish⟩
    unfold hear
    split
    · exact (hempty.setStatus _).reply fun _ _ heq => by cases heq
    · refine hempty.reply fun f hf heq => ?_
      exact (h c).outbox f hf (heq ▸ hout)
  · have hwaits : (m.update c fun r => { r with outbox := .awaited i }).Clear bad whole :=
      h.update fun hc => ⟨hc.control, fun _ _ heq => by (cases heq), hc.input, hc.finish⟩
    exact hwaits.setControl (fun _ _ heq => by cases heq) fun _ _ heq => by cases heq
  · exact h.setControl (fun _ _ heq => by cases heq) fun _ _ heq => by cases heq

theorem sendOutput (ho : ∀ f, bad f → o ≠ .failure f) : (m.sendOutput c o).Clear bad whole := by
  unfold Machine.sendOutput
  split
  · have hempty : (m.update c fun r => { r with outbox := .empty }).Clear bad whole :=
      h.update fun hc => ⟨hc.control, fun _ _ heq => by (cases heq), hc.input, hc.finish⟩
    unfold hear
    split
    · exact ((hempty.setStatus _).reply fun _ _ heq => by cases heq)
    · exact hempty.reply ho
  · exact h.update fun hc => ⟨hc.control, fun f hf heq => ho f hf (Slot.full.inj heq), hc.input,
      hc.finish⟩
  · exact h

theorem join (answer : V) : (m.join i c answer).Clear bad whole := by
  unfold Machine.join
  split
  · exact h.replyValue _
  · have hjoins : (m.update c fun r => { r with joiners := i :: r.joiners }).Clear bad whole :=
      h.updateOther (fun _ => rfl) (fun _ => rfl) fun _ => rfl
    exact hjoins.setControl (fun _ _ heq => by cases heq) fun _ _ heq => by cases heq

theorem wakeJoiner : (m.wakeJoiner i).Clear bad whole := by
  unfold Machine.wakeJoiner
  split
  · exact h.replyValue _
  · exact h

theorem finish (ho : ∀ f, bad f → o ≠ .failure f) : (m.finish i o).Clear bad whole := by
  rw [finish_eq]
  have hended : ((m.update i (Routine.atEnd o)).pause i).Clear bad whole :=
    h.update fun hi => ⟨fun _ _ heq => by (cases heq), hi.outbox, fun _ _ heq => by (cases heq),
      hi.finish⟩
  have hsent : (((m.update i (Routine.atEnd o)).pause i).sendOutput i o).Clear bad whole :=
    hended.sendOutput ho
  generalize (((m.update i (Routine.atEnd o)).pause i).sendOutput i o) = m₁ at hsent
  induction (m.routine i).joiners generalizing m₁ with
  | nil => exact hsent
  | cons j js ih => exact ih _ hsent.wakeJoiner

end Changes

/-! ## Changes that make failures of other kinds -/

section Faults

variable (hbad : ∀ f, bad f → f.isFault = true)
include hbad

theorem not_bad {f : Failure} (hf : f.isFault = false) : ¬ bad f := fun h => by
  rw [hbad f h] at hf
  cases hf

variable (h : m.Clear bad whole)
include h

theorem deliver {a : Input V} (ha : ∀ p, a = .parcel p → ∃ v, p = .plain v) :
    (m.deliver i a).Clear bad whole := by
  unfold Machine.deliver
  split
  · next s p hfresh =>
    obtain ⟨v, rfl⟩ := ha p rfl
    refine h.setControl (fun _ _ heq => by cases heq) fun _ _ heq => ?_
    cases heq
    exact ⟨v, rfl⟩
  · exact h.setControl (fun _ _ heq => by cases heq) fun _ _ heq => by cases heq
  · exact h.replyValue _
  · exact h.fail (not_bad hbad rfl)

theorem sendInput {a : Input V} (ha : ∀ p, a = .parcel p → ∃ v, p = .plain v) :
    (m.sendInput c a).Clear bad whole := by
  unfold Machine.sendInput
  split
  · have hempty : (m.update c fun r => { r with inbox := .empty }).Clear bad whole :=
      h.updateOther (fun _ => rfl) (fun _ => rfl) fun _ => rfl
    exact (hempty.deliver hbad ha)
  · exact h.updateOther (fun _ => rfl) (fun _ => rfl) fun _ => rfl
  · exact h

/-- Who goes on with an input that has come does not begin with it. -/
theorem read (hi : (m.routine i).control.isActive = true) : (m.read i c).Clear bad whole := by
  unfold Machine.read
  split
  · next a hin =>
    have hempty : (m.update c fun r => { r with inbox := .empty }).Clear bad whole :=
      h.updateOther (fun _ => rfl) (fun _ => rfl) fun _ => rfl
    have hactive : ((m.update c fun r => { r with inbox := .empty }).routine i).control.isActive =
        true := by
      rw [routine_update]
      split <;> exact hi
    unfold Machine.deliver
    split
    · next hc => rw [hc] at hactive; cases hactive
    · next hc => rw [hc] at hactive; cases hactive
    · exact hempty.replyValue _
    · exact hempty.fail (not_bad hbad rfl)
  · have hwaits : (m.update c fun r => { r with inbox := .awaited i }).Clear bad whole :=
      h.updateOther (fun _ => rfl) (fun _ => rfl) fun _ => rfl
    exact hwaits.setControl (fun _ _ heq => by cases heq) fun _ _ heq => by cases heq
  · exact h.setControl (fun _ _ heq => by cases heq) fun _ _ heq => by cases heq

theorem close : (m.close c).2.Clear bad whole := by
  unfold Machine.close
  split
  · have hclosed : (m.update c fun r => { r with status := .canceled, inbox := .empty }).Clear bad
        whole := h.updateOther (fun _ => rfl) (fun _ => rfl) fun _ => rfl
    exact hclosed.deliver hbad fun _ heq => by cases heq
  · dsimp only
    split
    · exact h.setStatus _
    · exact h

theorem letGoWithin (n : Nat) (s : RoutineId) : (m.letGoWithin n s).Clear bad whole := by
  induction n generalizing m s with
  | zero => exact h
  | succ n ih =>
    unfold Machine.letGoWithin
    split
    · exact h
    · next scope hscope =>
      have hless : (m.update s fun r =>
          { r with scope := some { scope with holders := scope.holders - 1 } }).Clear bad whole :=
        h.setScope fun c hc => ⟨scope, hscope, by cases hc; rfl⟩
      dsimp only
      split
      · split
        · exact (ih hless _).close hbad
        · exact hless.close hbad
      · exact hless

theorem release (k : Cont) : (m.release k).Clear bad whole := by
  induction k generalizing m with
  | direct s => exact h.letGoWithin hbad _ s
  | through s inner ih => exact ih (h.letGoWithin hbad _ s)

theorem releaseParcel (p : Parcel V) : (m.releaseParcel p).Clear bad whole := by
  unfold Machine.releaseParcel
  split
  · exact h.release hbad _
  · exact h

theorem releaseAt (k : ContId) : (m.releaseAt k).Clear bad whole := by
  have htake := h.takeCont k
  unfold Machine.releaseAt
  split
  · next c m₂ heq =>
    rw [heq] at htake
    exact htake.release hbad c
  · next m₂ heq =>
    rw [heq] at htake
    exact htake

/-- A resume fails only if the coroutine cannot be resumed. -/
theorem resume {p : Parcel V} (hp : ∃ v, p = .plain v)
    (hc : (m.status c).isResumable = false → ¬ bad (.cannotResume (m.status c))) :
    (m.resume i c p).Clear bad whole := by
  unfold Machine.resume
  split
  · exact ((h.setStatus _).sendInput hbad fun q heq => by cases heq; exact hp).listen
  · next hno => exact h.fail (hc (by simpa using hno))

theorem yield (p : Parcel V) (hi : (m.routine i).control.isActive = true) :
    (m.yield i c p).Clear bad whole := by
  unfold Machine.yield
  split
  · have hsent : ((m.setStatus c .suspending).sendOutput c (.value p)).Clear bad whole :=
      (h.setStatus _).sendOutput fun _ _ heq => by cases heq
    refine hsent.read hbad (isActive_sendOutput ?_)
    rw [Machine.setStatus, routine_update]
    split <;> exact hi
  · exact (h.releaseParcel hbad p).fail (not_bad hbad rfl)
  · exact (h.releaseParcel hbad p).fail (not_bad hbad rfl)

theorem suspend (place : Place) (p : Parcel V) (hi : (m.routine i).control.isActive = true) :
    (m.suspend i place p).Clear bad whole := by
  unfold Machine.suspend
  split
  · exact (h.releaseParcel hbad p).fail (not_bad hbad rfl)
  · split
    · refine (h.setRegistry place _).yield hbad p ?_
      rw [routine_setRegistry]
      exact hi
    · exact (h.releaseParcel hbad p).fail (not_bad hbad rfl)

theorem cancel (answer : V) : (m.cancel i c answer).Clear bad whole := by
  unfold Machine.cancel
  split
  · exact (((h.setStatus _).pushFrame _).sendInput hbad fun _ heq => by cases heq).listen
  · exact h.fail (not_bad hbad rfl)

theorem dispose (answer : V) : (m.dispose i c answer).Clear bad whole := by
  have hclosed := h.close hbad (c := c)
  unfold Machine.dispose
  split
  · exact h.fail (not_bad hbad rfl)
  · split
    · next heq =>
      rw [heq] at hclosed
      exact hclosed.join answer
    · next heq =>
      rw [heq] at hclosed
      exact hclosed.replyValue _

/-- A question has an answer, and makes no failure. -/
theorem answer (q : Query P) : (m.answer i q).2.Clear bad whole := by
  cases q with
  | spawn config body =>
    exact h.grow ⟨fun _ _ heq => by (cases heq), fun _ _ heq => by (cases heq),
      fun _ _ heq => by (cases heq), fun _ _ heq => by cases heq⟩
  | skip =>
    exact h.grow (r := .absent) ⟨fun _ _ heq => by (cases heq), fun _ _ heq => by (cases heq),
      fun _ _ heq => by (cases heq), fun _ _ heq => by cases heq⟩
  | abandon d =>
    unfold Machine.answer
    dsimp only
    split
    · exact h.close hbad
    · exact h
  | register r op => exact h.setRegistry _ _
  | keep k =>
    have htake := h.takeCont k
    unfold Machine.answer
    dsimp only
    split
    · next heq =>
      rw [heq] at htake
      exact htake.congr fun _ => rfl
    · next heq =>
      rw [heq] at htake
      exact htake
  | discard k => exact h.releaseAt hbad k
  | _ => exact h.congr fun _ => rfl

end Faults

/-! ## Scopes -/

section Scopes

variable {hand : List Key} {loose due : List RoutineId} {q : Mark} {b : Boxed V} {scope : Scope P}

/-- Entering a scope whose body waits does not fail. -/
theorem enterScope (h : m.Clear bad whole) (hwork : m.AtWork i (⟨q, s⟩ :: hand) loose due) :
    (m.enterScope i s b).Clear bad whole := by
  obtain ⟨scope, hscope, hstatus, hinbox, hout, hcontrol, -, hne⟩ :=
    hwork.suspended (y := ⟨q, s⟩) List.mem_cons_self
  intro j
  rw [routine_enterScope hscope hstatus hinbox hout hcontrol hne hwork.lt]
  split_ifs with hji hjs
  · rw [hji]
    exact ⟨fun _ _ heq => by (cases heq), (h i).outbox, fun _ _ heq => by (cases heq),
      (h i).finish⟩
  · rw [hjs]
    exact ⟨fun _ _ heq => by (cases heq), fun _ _ heq => by (cases heq),
      fun _ _ heq => by (cases heq), (h s).finish⟩
  · exact h j

/-- Opening a scope does not fail. -/
theorem openScope {start : Start P V} (h : m.Clear bad whole) (h0 : scope.holders = 0)
    (hi : i.val < m.routines.size) (hstart : ∀ p, start ≠ .body p)
    (hfinish : scope.finish ≠ .into none) : (m.openScope i scope start).Clear bad whole := by
  intro j
  rw [routine_openScope start h0 hi]
  split_ifs with hji hjs
  · rw [hji]
    exact ⟨fun _ _ heq => by (cases heq), (h i).outbox, fun _ _ heq => by (cases heq),
      (h i).finish⟩
  · refine ⟨fun _ _ heq => by (cases heq), fun _ _ heq => by (cases heq), fun p a heq => ?_,
      fun _ c hc => ?_⟩
    · exact absurd (Control.starting.inj heq).1 (hstart p)
    · obtain rfl := Option.some.inj hc
      exact hfinish
  · exact h j

/-- A continuation whose bodies wait is resumed. -/
theorem continueWith {k : Cont} (h : m.Clear bad whole)
    (hwork : m.AtWork i (k.keys ++ hand) loose due) : (m.continueWith i k b).Clear bad whole := by
  cases k with
  | direct s => exact h.enterScope hwork
  | through s inner =>
    obtain ⟨scope, hscope, -⟩ := hwork.suspended (y := ⟨.result, s⟩) (by simp [Cont.keys])
    simp only [Machine.continueWith, hscope]
    refine ((h.hold s).pushFrame _).openScope rfl ?_ (fun p hp => by cases hp) fun hp => by cases hp
    simpa [Machine.pushFrame, Machine.hold] using hwork.lt

theorem callOwning (h : m.Clear bad whole) (k : Cont) (c : ContId → Code P V σ V) :
    (m.callOwning i k c).Clear bad whole := by
  have hkept : (m.keepCont k).2.Clear bad whole := h.congr fun _ => rfl
  exact (hkept.pushFrame _).run _

end Scopes

end Machine.Clear

/-! ## Steps -/

/-- The coroutine that an operation of code resumes. -/
def Act.resumed? : Act P V → Option RoutineId
  | .resume c _ => some c
  | .resumeOn _ c _ => some c
  | _ => none

namespace Machine

open Control

variable {code : P → Entry V → Code P V σ V} {m m₀ m' : Machine P V σ} {i s : RoutineId}
  {bad : Failure → Prop} {whole : RoutineId → Prop} {o : Outcome V (Parcel V)} {f : Failure}
  {st : List (Frame P V σ)}

/-- The code that routine `i` runs brings a failure about: it fails with it, or resumes a coroutine of its
own that cannot be resumed. -/
inductive Provokes (m : Machine P V σ) (f : Failure) (i : RoutineId) : Prop where
  | fails (control : (m.routine i).control = .running (.fail f))
  | refused {a : Act P V} {next : Outcome V V → Code P V σ V} {c : RoutineId}
    (control : (m.routine i).control = .running (.act a next)) (resumes : a.resumed? = some c)
    (coroutine : m.isCoroutine c = true) (status : (m.status c).isResumable = false)
    (failure : f = .cannotResume (m.status c))

/-- In its next step, routine `i` takes the value with which the body of scope `s` has ended. -/
def Concludes (m : Machine P V σ) (i s : RoutineId) : Prop :=
  ∃ b st, (m.routine i).control = .returning (.value (.signal (.done b))) ∧
    (m.routine i).stack = .dispatch s :: st

section Steps

variable (hbad : ∀ f, bad f → f.isFault = true)
include hbad

theorem Works.clear_suspend {x : Signal V} (h : m.Clear bad whole) (hwork : m₀.Works i m x.keys [])
    (place : Place) : (m.suspend i place (.signal x)).Clear bad whole :=
  h.suspend hbad place _ hwork.atWork.active

/-- An operation that code begins. -/
theorem Works.clear_begin (h : m.Clear bad whole) (hwork : m₀.Works i m [] []) {a : Act P V}
    (hrefused : ∀ c, a.resumed? = some c → m.isCoroutine c = true →
      (m.status c).isResumable = false → ¬ bad (.cannotResume (m.status c))) :
    (m.begin code i a).Clear bad whole := by
  have hactive := hwork.atWork.active
  have hcoroutine : ∀ (c : RoutineId) (op : Machine P V σ → Machine P V σ),
      (m.isCoroutine c = true → (op m).Clear bad whole) → (m.onCoroutine i c op).Clear bad whole := by
    intro c op hop
    unfold Machine.onCoroutine
    split
    · next hc => exact hop hc
    · exact h.fail (Clear.not_bad hbad rfl)
  have hcontext : ∀ (scope : Scope P) (body : P), scope.holders = 0 → scope.finish ≠ .into none →
      (m.onContext i scope body).Clear bad whole := by
    intro scope body h0 hfinish
    unfold Machine.onContext
    split
    · exact h.openScope h0 hwork.lt (fun p hp => by cases hp) hfinish
    · exact h.fail (Clear.not_bad hbad rfl)
  cases a with
  | call p entry => exact h.run _
  | resume c v =>
    exact hcoroutine c (·.resume i c (.plain v)) fun hc =>
      h.resume hbad ⟨v, rfl⟩ fun hno => hrefused c rfl hc hno
  | resumeOn r c v =>
    refine hcoroutine c (·.resumeOn i (.registry r) c (.plain v)) fun hc => ?_
    refine ((h.setRegistry _ _).pushFrame _).resume hbad ⟨v, rfl⟩ fun hno => ?_
    rw [status_pushFrame, status, routine_setRegistry] at hno ⊢
    exact hrefused c rfl hc hno
  | cancel c answer => exact hcoroutine c (·.cancel i c answer) fun _ => h.cancel hbad answer
  | dispose c answer => exact hcoroutine c (·.dispose i c answer) fun _ => h.dispose hbad answer
  | yield c v => exact hcoroutine c (·.yield i c (.plain v)) fun _ => h.yield hbad _ hactive
  | suspend r v =>
    unfold Machine.begin
    dsimp only
    split
    · exact h.suspend hbad _ _ hactive
    · exact h.fail (Clear.not_bad hbad rfl)
  | perform ctx e v =>
    exact (hwork.pushFrame (fun _ => rfl) fun _ => rfl).clear_suspend hbad
      (x := .perform (.declared e) (.datum v)) (h.pushFrame .performing) _
  | raise ctx cause =>
    exact (hwork.pushFrame (fun _ => rfl) fun _ => rfl).clear_suspend hbad
      (x := .perform .exception (.raised cause)) (h.pushFrame .performing) _
  | handle ctx hd body =>
    refine hcontext _ body rfl fun ht => ?_
    simp only [Scope.ofHandler] at ht
    split at ht <;> cases ht
  | tryWith ctx arms body => exact hcontext _ body rfl fun ht => by cases ht
  | continueWith k v =>
    have htake := hwork.takeCont k
    have hclear := h.takeCont k
    unfold Machine.begin
    dsimp only
    unfold keptAt Machine.takeCont at htake
    unfold Machine.takeCont at hclear ⊢
    cases hk : m.conts.getD k.val none with
    | none => exact Clear.fail hclear (Clear.not_bad hbad rfl)
    | some cont =>
      rw [hk] at htake
      exact Clear.continueWith hclear htake.atWork

/-- An effect that is given to the clause for it, or forwarded. -/
theorem Works.clear_claim {scope : Scope P} {e : Effect} {b : Boxed V} {k : Cont}
    (h : m.Clear bad whole) (hwork : m₀.Works i m k.keys [])
    (hs : (m.routine s).scope = some scope) (hb : e.Suits b) :
    (m.claim code i scope e b k).Clear bad whole := by
  unfold Machine.claim
  cases hlookup : scope.clauses.lookup e with
  | some cl =>
    have hsuits := hwork.atWork.linked.suits_of_lookup hs hlookup
    cases e with
    | declared d =>
      cases cl with
      | function p => cases b <;> first | exact False.elim hb | exact h.callOwning _ _
      | arms choice => exact False.elim hsuits
    | exception =>
      cases cl with
      | function p => exact False.elim hsuits
      | arms choice => cases b <;> first | exact False.elim hb | exact h.callOwning _ _
  | none =>
    exact (hwork.pushFrame (f := .forwarding e) (fun _ => rfl) fun _ => rfl).clear_suspend hbad
      (x := .forward e b k) (h.pushFrame _) _

omit hbad in
/-- The value of a body. -/
theorem Works.clear_conclude {scope : Scope P} {b : Boxed V} (h : m.Clear bad whole)
    (hwork : m₀.Works i m [] []) (hs : (m.routine s).scope = some scope)
    (hb : b.mark? = some scope.mark) (hpos : 0 < scope.holders)
    (hreused : scope.finish = .into none → ¬ bad .continuationReused) (hwhole : ¬ whole s) :
    (m.conclude code i s scope b).Clear bad whole := by
  rw [Scope.mark] at hb
  unfold Machine.conclude
  cases hfin : scope.finish with
  | passOn =>
    rw [hfin] at hb
    obtain ⟨v, rfl⟩ := Boxed.exists_datum hb
    exact h.replyValue _
  | call p =>
    rw [hfin] at hb
    obtain ⟨v, rfl⟩ := Boxed.exists_datum hb
    exact h.run _
  | into t =>
    cases t with
    | none => cases b <;> exact h.fail (hreused hfin)
    | some t =>
      have hcut : (m.update s fun r =>
          { r with scope := some { scope with finish := .into none } }).Clear bad whole :=
        h.update fun hs => ⟨hs.control, hs.outbox, hs.input, fun hw => absurd hw hwhole⟩
      have hentered := hcut.enterScope (b := b) (hwork.atWork.cutFinish hs hfin hpos)
      cases b <;> exact hentered

/-- The taking of a signal. -/
theorem Sound.clear_dispatch {x : Signal V} (hm : m.Sound) (h : m.Clear bad whole)
    (hc : (m.routine i).control = .returning (.value (.signal x)))
    (hst : (m.routine i).stack = .dispatch s :: st)
    (hgives : m.Concludes i s → ¬ whole s ∧ ∀ scope, (m.routine s).scope = some scope →
      scope.finish = .into none → ¬ bad .continuationReused) :
    ((m.update i fun r => { r with stack := st }).dispatch code i s x).Clear bad whole := by
  have hpop := h.popFrame (i := i) st
  have hoffer : ∀ e b k, x.offer? s = some (e, b, k) →
      ((m.update i fun r => { r with stack := st }).dispatch code i s x).Clear bad whole := by
    intro e b k hx
    obtain ⟨hwork, hsome, hne, hsuits, -, -⟩ := hm.worksOffer hc hst hx
    obtain ⟨scope, hscope, heq⟩ := exists_dispatch_eq_claim code i
      ((congrArg Option.isSome (scope_popFrame i s st)).trans hsome) hx
    rw [heq]
    exact hwork.clear_claim hbad (hpop.hold s) hscope hsuits
  cases x with
  | perform e b => exact hoffer e b _ rfl
  | forward e b k => exact hoffer e b _ rfl
  | done b =>
    obtain ⟨scope, hv⟩ := hm.takesValue hc hst
    obtain ⟨hwhole, hreused⟩ := hgives ⟨b, st, hc, hst⟩
    rw [hv.dispatch_eq]
    exact hv.works.clear_conclude hpop hv.scope_popped hv.mark hv.held (hreused scope hv.scope_eq) hwhole

/-- The giving of an outcome to a frame. -/
theorem Sound.clear_unwind {f : Frame P V σ} (hm : m.Sound) (h : m.Clear bad whole)
    (hc : (m.routine i).control = .returning o) (hst : (m.routine i).stack = f :: st)
    (hgives : ∀ s, m.Concludes i s → ¬ whole s ∧ ∀ scope, (m.routine s).scope = some scope →
      scope.finish = .into none → ¬ bad .continuationReused) :
    ((m.update i fun r => { r with stack := st }).unwind code i o f).Clear bad whole := by
  have ho : ∀ f, bad f → o ≠ .failure f := by
    rintro f hf rfl
    exact (h i).control f hf hc
  have hpop := h.popFrame (i := i) st
  have hfits : Fits (m.routine i).role o (f :: st) := by
    have hp := hm.linked.posture i (by simp)
    simpa only [Routine.Posture, hc, hst] using hp
  cases f with
  | next k => exact hpop.run _
  | registered p c => exact (hpop.setRegistry p _).reply ho
  | nested d t =>
    refine Clear.reply ?_ ho
    exact hpop.updateOther (fun _ => rfl) (fun _ => rfl) fun _ => rfl
  | holding s => exact (hpop.letGoWithin hbad _ s).reply ho
  | owning k => exact (hpop.releaseAt hbad k).reply ho
  | dispatch s =>
    obtain ⟨x, rfl⟩ | ⟨f, rfl⟩ | ⟨p, rfl⟩ := hfits.1.cases
    · exact hm.clear_dispatch hbad h hc hst (hgives s)
    · exact hpop.reply ho
    · exact hpop.reply ho
  | performing =>
    obtain ⟨b, rfl, hb⟩ | ⟨f, rfl⟩ | ⟨p, rfl⟩ := hfits.1.cases
    · obtain ⟨v, rfl⟩ := Boxed.exists_datum hb
      exact hpop.replyValue _
    · exact hpop.reply ho
    · exact hpop.reply ho
  | forwarding e =>
    obtain ⟨b, rfl, hb⟩ | ⟨f, rfl⟩ | ⟨p, rfl⟩ := hfits.1.cases
    · obtain ⟨v, rfl⟩ := Boxed.exists_result hb
      exact hpop.replyValue _
    · cases f <;> first | exact hpop.reply ho | exact hpop.fail (Clear.not_bad hbad rfl)
    · exact hpop.reply ho
  | canceling a =>
    obtain ⟨v, rfl⟩ | ⟨f, rfl⟩ | ⟨p, rfl⟩ := hfits.1.cases
    · exact (hpop.releaseParcel hbad _).replyValue _
    · cases f <;> first | exact hpop.reply ho | exact hpop.replyValue _
    · exact hpop.reply ho
  | handledBody =>
    obtain ⟨v, rfl⟩ | ⟨f, rfl⟩ | ⟨p, rfl⟩ := hfits.1.cases
    · exact hpop.replyValue _
    · exact hpop.reply ho
    · exact hpop.reply ho
  | rejoining =>
    obtain ⟨v, rfl⟩ | ⟨f, rfl⟩ | ⟨p, rfl⟩ := hfits.1.cases
    · exact hpop.replyValue _
    · exact hpop.reply ho
    · exact hpop.reply ho

/-- A step of a clear machine leads to a clear one, unless code brings a bad failure about or the scope
concludes that is to be whole. -/
theorem Sound.clear_stepOf (hm : m.Sound) (hi : (m.routine i).control.isActive = true)
    (h : m.Clear bad whole) (hprovokes : ∀ f, bad f → ¬ m.Provokes f i)
    (hgives : ∀ s, m.Concludes i s → ¬ whole s ∧ ∀ scope, (m.routine s).scope = some scope →
      scope.finish = .into none → ¬ bad .continuationReused) :
    (m.stepOf code i).Clear bad whole := by
  have hlt := lt_of_isActive hi
  have hposture := hm.linked.posture i (by simp)
  unfold Machine.stepOf
  split
  · next s a hc =>
    have hwork : m.Works i m (m.routine i).control.keys [] := hm.works hi fun d t => by
      simp only [Routine.Posture, hc] at hposture
      simp [Routine.entries, hposture.1]
    cases s with
    | body p =>
      obtain ⟨v, rfl⟩ := (h i).input p a hc
      exact h.run _
    | handled p => exact (h.pushFrame .handledBody).run _
    | rejoin k b =>
      rw [hc] at hwork
      have hpush := hwork.pushFrame (f := .rejoining) (fun _ => rfl) fun _ => rfl
      have hhand : (m.pushFrame i .rejoining).AtWork i (k.keys ++ []) [] [] := by
        simpa [Control.keys] using hpush.atWork
      exact (h.pushFrame .rejoining).continueWith hhand
  · next c hc =>
    have hst : Settled (m.routine i).role (m.routine i).stack := by
      simpa only [Routine.Posture, hc] using hposture
    have hwork := hm.worksSettled hi (by rw [hc]; rfl) hst
    cases c with
    | pure v => exact h.replyValue _
    | fail f => exact h.fail fun hf => hprovokes f hf (.fails hc)
    | panic p => exact h.reply fun _ _ heq => by cases heq
    | act a next =>
      refine (hwork.pushFrame (f := .next next) (fun _ => rfl) fun _ => rfl).clear_begin hbad
        (h.pushFrame _) fun c hr hcoroutine hno hf => ?_
      rw [status_pushFrame] at hno hf
      rw [isCoroutine_pushFrame] at hcoroutine
      exact hprovokes _ hf (.refused hc hr hcoroutine hno rfl)
    | ask q next => exact (h.answer hbad q).run _
    | access change next =>
      have hstored : { m with store := change m.store }.Clear bad whole := h.congr fun _ => rfl
      exact hstored.run _
  · next o hc =>
    split
    · refine h.finish ?_
      rintro f hf rfl
      exact (h i).control f hf hc
    · next f st hst => exact hm.clear_unwind hbad h hc hst hgives
  · exact h.congr fun j => routine_pause m i j

/-- The same of a step of the machine. -/
theorem Sound.clear_step (hm : m.Sound) (hstep : m.step code = some m') (h : m.Clear bad whole)
    (hprovokes : ∀ i f, m.ready.head? = some i → bad f → ¬ m.Provokes f i)
    (hgives : ∀ i s, m.ready.head? = some i → m.Concludes i s → ¬ whole s ∧
      ∀ scope, (m.routine s).scope = some scope → scope.finish = .into none →
        ¬ bad .continuationReused) : m'.Clear bad whole := by
  obtain ⟨i, ready, hready, ⟨hi, rfl, -⟩ | ⟨-, rfl⟩⟩ := hm.step_cases hstep
  · have hhead : m.ready.head? = some i := by rw [hready]; rfl
    exact hm.clear_stepOf hbad hi h (fun f => hprovokes i f hhead) fun s => hgives i s hhead
  · exact h.congr fun j => routine_pause m i j

end Steps

end Machine

end OneShot
