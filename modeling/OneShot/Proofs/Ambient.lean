import OneShot.Proofs.Concluding

/-!
# The same program, with one coroutine driven through a registry

A coroutine `a` can be driven in two ways: its body hands out through the coroutine itself and whoever
drives it resumes it, or its body is suspended through a registry `r` and the resumes are registered
there. `ambient` turns the first way into the second one, in a whole machine: in all code each yield of
`a` becomes a suspension through `r`, each resume of `a` a registered one, and the routines whose resume
of `a` has not come back (`calls`) have the frame that will withdraw its entry. What stands in `r` is not
determined by that: it is the argument `entries`.

Every operation that neither uses `r` nor begins a resume of `a` does the same before and after `ambient`,
whoever it concerns; `stepOf_ambient` puts this together.
-/

namespace OneShot

variable {P V σ α : Type} (a : RoutineId) (r : RegistryId)

/-- Yields of `a` go through registry `r`, and resumes of `a` are registered there. -/
def Act.ambient : Act P V → Act P V
  | .yield c v => if c = a then .suspend r v else .yield c v
  | .resume c v => if c = a then .resumeOn r a v else .resume c v
  | b => b

/-- The same in all code that may follow. -/
def Code.ambient : Code P V σ α → Code P V σ α
  | .pure x => .pure x
  | .fail f => .fail f
  | .panic p => .panic p
  | .act b next => .act (b.ambient a r) fun o => (next o).ambient
  | .ask q next => .ask q fun x => (next x).ambient
  | .access change next => .access change fun s => (next s).ambient

theorem Code.ambient_ofOutcome (o : Outcome V α) :
    (ofOutcome o : Code P V σ α).ambient a r = ofOutcome o := by
  cases o <;> rfl

def Frame.ambient : Frame P V σ → Frame P V σ
  | .next k => .next fun o => (k o).ambient a r
  | f => f

def Control.ambient : Control P V σ → Control P V σ
  | .running c => .running (c.ambient a r)
  | d => d

/-- A routine that is called has the frame of a registered resume of `a` on top. -/
def Routine.ambient (called : Bool) (x : Routine P V σ) : Routine P V σ :=
  { x with
    control := x.control.ambient a r
    stack := if called then .registered (.registry r) a :: x.stack.map (Frame.ambient a r) else
      x.stack.map (Frame.ambient a r) }

/-- The machine in which `a` is driven through registry `r`. -/
def Machine.ambient (calls : List RoutineId) (entries : Registry RoutineId) (m : Machine P V σ) :
    Machine P V σ :=
  { m with
    routines := m.routines.mapIdx fun n x => x.ambient a r (decide (⟨n⟩ ∈ calls))
    registries := m.registries.setIfInBounds r.val entries }

namespace Machine

open Control

variable {code : P → Entry V → Code P V σ V} {m m' : Machine P V σ} {a : RoutineId} {r : RegistryId}
  {calls : List RoutineId} {entries : Registry RoutineId} {i j c s : RoutineId} {p : Place}

/-! ## Looking at the machine -/

@[simp] theorem size_ambient : (m.ambient a r calls entries).routines.size = m.routines.size :=
  Array.size_mapIdx

@[simp] theorem ready_ambient : (m.ambient a r calls entries).ready = m.ready := rfl

theorem routine_ambient (hj : j.val < m.routines.size) :
    (m.ambient a r calls entries).routine j = (m.routine j).ambient a r (decide (j ∈ calls)) := by
  simp [routine, ambient, Array.getD, hj]

theorem routine_ambient_of_size_le (hj : m.routines.size ≤ j.val) :
    (m.ambient a r calls entries).routine j = .absent :=
  routine_of_size_le (by simpa using hj)

/-- Whatever a routine shows apart from its stack. -/
theorem routine_ambient_eq : ∃ st, (m.ambient a r calls entries).routine j =
    { m.routine j with control := (m.routine j).control.ambient a r, stack := st } := by
  rcases Nat.lt_or_ge j.val m.routines.size with hj | hj
  · exact ⟨_, routine_ambient hj⟩
  · exact ⟨[], by rw [routine_ambient_of_size_le hj, routine_of_size_le hj]; rfl⟩

@[simp] theorem status_ambient : (m.ambient a r calls entries).status c = m.status c := by
  obtain ⟨st, h⟩ := routine_ambient_eq (m := m) (j := c)
  rw [status, h, status]


@[simp] theorem inbox_ambient :
    ((m.ambient a r calls entries).routine c).inbox = (m.routine c).inbox := by
  obtain ⟨st, h⟩ := routine_ambient_eq (m := m) (j := c)
  rw [h]

@[simp] theorem outbox_ambient :
    ((m.ambient a r calls entries).routine c).outbox = (m.routine c).outbox := by
  obtain ⟨st, h⟩ := routine_ambient_eq (m := m) (j := c)
  rw [h]

@[simp] theorem joiners_ambient :
    ((m.ambient a r calls entries).routine c).joiners = (m.routine c).joiners := by
  obtain ⟨st, h⟩ := routine_ambient_eq (m := m) (j := c)
  rw [h]

@[simp] theorem scope_ambient :
    ((m.ambient a r calls entries).routine c).scope = (m.routine c).scope := by
  obtain ⟨st, h⟩ := routine_ambient_eq (m := m) (j := c)
  rw [h]

@[simp] theorem thread_ambient :
    ((m.ambient a r calls entries).routine c).thread = (m.routine c).thread := by
  obtain ⟨st, h⟩ := routine_ambient_eq (m := m) (j := c)
  rw [h]

@[simp] theorem control_ambient :
    ((m.ambient a r calls entries).routine c).control = (m.routine c).control.ambient a r := by
  obtain ⟨st, h⟩ := routine_ambient_eq (m := m) (j := c)
  rw [h]

theorem isActive_ambient : ((m.ambient a r calls entries).routine c).control.isActive =
    (m.routine c).control.isActive := by
  rw [control_ambient]
  cases (m.routine c).control <;> rfl

@[simp] theorem isCoroutine_ambient :
    (m.ambient a r calls entries).isCoroutine c = m.isCoroutine c := by
  rw [isCoroutine, scope_ambient, isCoroutine]

@[simp] theorem isBusy_ambient : (m.ambient a r calls entries).isBusy c = m.isBusy c := by
  rw [isBusy, outbox_ambient, isBusy]

theorem registry_ambient :
    (m.ambient a r calls entries).registry p = (m.setRegistry (.registry r) entries).registry p := by
  cases p <;> rfl

theorem registry_ambient_of_ne (hp : p ≠ .registry r) :
    (m.ambient a r calls entries).registry p = m.registry p := by
  rw [registry_ambient, registry_setRegistry_of_ne hp.symm]

theorem registry_ambient_self (hr : m.hasPlace (.registry r)) :
    (m.ambient a r calls entries).registry (.registry r) = entries := by
  rw [registry_ambient, registry_setRegistry hr, if_pos rfl]

/-! ## Changing the machine -/

theorem update_ambient {f f' : Routine P V σ → Routine P V σ}
    (h : f' ((m.routine j).ambient a r (decide (j ∈ calls))) =
      (f (m.routine j)).ambient a r (decide (j ∈ calls))) :
    (m.ambient a r calls entries).update j f' = (m.update j f).ambient a r calls entries := by
  unfold update ambient
  congr 1
  apply Array.ext
  · simp
  · intro n hn hn'
    have hlt : n < m.routines.size := by simpa using hn
    simp only [Array.getElem_modify, Array.getElem_mapIdx]
    split
    · next hjn =>
      subst hjn
      simpa [routine, Array.getD, hlt] using h
    · rfl

@[simp] theorem setStatus_ambient (t : Status) :
    (m.ambient a r calls entries).setStatus c t = (m.setStatus c t).ambient a r calls entries :=
  update_ambient rfl

@[simp] theorem setControl_ambient (d : Control P V σ) :
    (m.ambient a r calls entries).setControl i (d.ambient a r) =
      (m.setControl i d).ambient a r calls entries := update_ambient rfl

@[simp] theorem reply_ambient (o : Outcome V (Parcel V)) :
    (m.ambient a r calls entries).reply i o = (m.reply i o).ambient a r calls entries :=
  update_ambient rfl

@[simp] theorem fail_ambient (f : Failure) :
    (m.ambient a r calls entries).fail i f = (m.fail i f).ambient a r calls entries :=
  update_ambient rfl

@[simp] theorem wake_ambient :
    (m.ambient a r calls entries).wake i = (m.wake i).ambient a r calls entries := rfl

@[simp] theorem pause_ambient :
    (m.ambient a r calls entries).pause i = (m.pause i).ambient a r calls entries := rfl

/-- A routine that is in no call puts a frame on its stack. -/
theorem pushFrame_ambient (hi : i ∉ calls) (f : Frame P V σ) :
    (m.ambient a r calls entries).pushFrame i (f.ambient a r) =
      (m.pushFrame i f).ambient a r calls entries :=
  update_ambient (by simp [Routine.ambient, hi])

/-- The same of a frame in which there is no code. -/
theorem pushFrame_ambient_self (hi : i ∉ calls) {f : Frame P V σ} (hf : f.ambient a r = f) :
    (m.ambient a r calls entries).pushFrame i f = (m.pushFrame i f).ambient a r calls entries := by
  rw [← pushFrame_ambient hi, hf]

theorem setRegistry_ambient_of_ne (hp : p ≠ .registry r) (g : Registry RoutineId) :
    (m.ambient a r calls entries).setRegistry p g =
      (m.setRegistry p g).ambient a r calls entries := by
  cases p with
  | context ctx => rfl
  | registry q =>
    have hne : r.val ≠ q.val := fun h => hp (by cases r; cases q; simp_all)
    simp [setRegistry, ambient, Array.setIfInBounds_comm _ _ hne]

theorem setRegistry_ambient_self (g : Registry RoutineId) :
    (m.ambient a r calls entries).setRegistry (.registry r) g = m.ambient a r calls g := by
  simp [setRegistry, ambient]

/-! ## Passing control -/

theorem deliver_ambient (x : Input V) :
    (m.ambient a r calls entries).deliver j x = (m.deliver j x).ambient a r calls entries := by
  rw [deliver_eq, deliver_eq, control_ambient]
  refine update_ambient ?_
  cases hc : (m.routine j).control <;> cases x <;> simp [Routine.ambient, Control.ambient, Control.take]

theorem hear_ambient (o : Outcome V (Parcel V)) :
    (m.ambient a r calls entries).hear j c o = (m.hear j c o).ambient a r calls entries := by
  cases o <;> simp [hear]

theorem sendInput_ambient (x : Input V) :
    (m.ambient a r calls entries).sendInput c x = (m.sendInput c x).ambient a r calls entries := by
  unfold sendInput
  rw [inbox_ambient]
  cases (m.routine c).inbox with
  | awaited reader =>
    dsimp only
    rw [update_ambient (f := fun r => { r with inbox := .empty }) rfl, deliver_ambient, wake_ambient]
  | empty => exact update_ambient rfl
  | full y => rfl

theorem sendOutput_ambient (o : Outcome V (Parcel V)) :
    (m.ambient a r calls entries).sendOutput c o = (m.sendOutput c o).ambient a r calls entries := by
  unfold sendOutput
  rw [outbox_ambient]
  cases (m.routine c).outbox with
  | awaited listener =>
    dsimp only
    rw [update_ambient (f := fun r => { r with outbox := .empty }) rfl, hear_ambient, wake_ambient]
  | empty => exact update_ambient rfl
  | full y => rfl

theorem read_ambient :
    (m.ambient a r calls entries).read i c = (m.read i c).ambient a r calls entries := by
  unfold read
  rw [inbox_ambient]
  cases (m.routine c).inbox with
  | full x =>
    dsimp only
    rw [update_ambient (f := fun r => { r with inbox := .empty }) rfl, deliver_ambient]
  | empty =>
    dsimp only
    rw [update_ambient (f := fun r => { r with inbox := .awaited i }) rfl]
    exact congrArg (pause · i) (setControl_ambient (.reading c))
  | awaited j => exact congrArg (pause · i) (setControl_ambient (.reading c))

theorem listen_ambient :
    (m.ambient a r calls entries).listen i c = (m.listen i c).ambient a r calls entries := by
  unfold listen
  rw [outbox_ambient]
  cases (m.routine c).outbox with
  | full o =>
    dsimp only
    rw [update_ambient (f := fun r => { r with outbox := .empty }) rfl, hear_ambient]
  | empty =>
    dsimp only
    rw [update_ambient (f := fun r => { r with outbox := .awaited i }) rfl]
    exact congrArg (pause · i) (setControl_ambient (.listening c))
  | awaited j => exact congrArg (pause · i) (setControl_ambient (.listening c))

theorem resume_ambient (x : Parcel V) :
    (m.ambient a r calls entries).resume i c x = (m.resume i c x).ambient a r calls entries := by
  unfold resume
  rw [status_ambient]
  split
  · rw [setStatus_ambient, sendInput_ambient, listen_ambient]
  · exact fail_ambient _

theorem resumeOn_ambient (hp : p ≠ .registry r) (hi : i ∉ calls)
    (x : Parcel V) : (m.ambient a r calls entries).resumeOn i p c x =
      (m.resumeOn i p c x).ambient a r calls entries := by
  unfold resumeOn
  rw [registry_ambient_of_ne hp, setRegistry_ambient_of_ne hp,
    pushFrame_ambient_self hi (f := .registered p c) rfl, resume_ambient]

theorem close_ambient :
    (m.ambient a r calls entries).close c =
      ((m.close c).1, (m.close c).2.ambient a r calls entries) := by
  unfold close
  rw [inbox_ambient, status_ambient]
  cases (m.routine c).inbox with
  | awaited reader =>
    dsimp only
    rw [update_ambient (f := fun r => { r with status := .canceled, inbox := .empty }) rfl,
      deliver_ambient, wake_ambient]
  | _ =>
    dsimp only
    split <;> simp

theorem abandon_ambient :
    (m.ambient a r calls entries).abandon c = (m.abandon c).ambient a r calls entries := by
  rw [abandon, close_ambient, abandon]

theorem hold_ambient :
    (m.ambient a r calls entries).hold s = (m.hold s).ambient a r calls entries := update_ambient rfl

theorem letGoWithin_ambient (n : Nat) :
    (m.ambient a r calls entries).letGoWithin n s =
      (m.letGoWithin n s).ambient a r calls entries := by
  induction n generalizing m s with
  | zero => rfl
  | succ n ih =>
    unfold letGoWithin
    rw [scope_ambient]
    cases (m.routine s).scope with
    | none => rfl
    | some c =>
      dsimp only
      rw [update_ambient (f := fun r => { r with scope := some { c with holders := c.holders - 1 } }) rfl]
      split
      · split
        · rw [ih, abandon_ambient]
        · exact abandon_ambient
      · rfl

theorem letGo_ambient :
    (m.ambient a r calls entries).letGo s = (m.letGo s).ambient a r calls entries := by
  rw [letGo, size_ambient, letGoWithin_ambient, letGo]

theorem release_ambient (k : Cont) :
    (m.ambient a r calls entries).release k = (m.release k).ambient a r calls entries := by
  induction k generalizing m with
  | direct s => exact letGo_ambient
  | through s inner ih => rw [release, letGo_ambient, ih, release]

theorem releaseParcel_ambient (x : Parcel V) :
    (m.ambient a r calls entries).releaseParcel x =
      (m.releaseParcel x).ambient a r calls entries := by
  unfold releaseParcel
  split
  · exact release_ambient _
  · rfl

theorem takeCont_ambient (k : ContId) :
    (m.ambient a r calls entries).takeCont k =
      ((m.takeCont k).1, (m.takeCont k).2.ambient a r calls entries) := rfl

theorem keepCont_ambient (k : Cont) :
    (m.ambient a r calls entries).keepCont k =
      ((m.keepCont k).1, (m.keepCont k).2.ambient a r calls entries) := rfl

theorem releaseAt_ambient (k : ContId) :
    (m.ambient a r calls entries).releaseAt k = (m.releaseAt k).ambient a r calls entries := by
  unfold releaseAt
  rw [takeCont_ambient]
  rcases m.takeCont k with ⟨c | c, m'⟩
  · rfl
  · exact release_ambient c

theorem yield_ambient (x : Parcel V) :
    (m.ambient a r calls entries).yield i c x = (m.yield i c x).ambient a r calls entries := by
  unfold yield
  rw [status_ambient]
  cases m.status c with
  | running =>
    dsimp only
    rw [setStatus_ambient, sendOutput_ambient, read_ambient]
  | _ =>
    dsimp only
    rw [releaseParcel_ambient, fail_ambient]

theorem suspend_ambient (hp : p ≠ .registry r) (x : Parcel V) :
    (m.ambient a r calls entries).suspend i p x =
      (m.suspend i p x).ambient a r calls entries := by
  unfold suspend
  rw [registry_ambient_of_ne hp]
  split
  · rw [releaseParcel_ambient, fail_ambient]
  · split
    · rw [setRegistry_ambient_of_ne hp, yield_ambient]
    · rw [releaseParcel_ambient, fail_ambient]

theorem cancel_ambient (hi : i ∉ calls) (answer : V) :
    (m.ambient a r calls entries).cancel i c answer =
      (m.cancel i c answer).ambient a r calls entries := by
  unfold cancel
  rw [status_ambient]
  cases m.status c with
  | suspending =>
    dsimp only
    rw [setStatus_ambient, pushFrame_ambient_self hi (f := .canceling answer) rfl,
      sendInput_ambient, listen_ambient]
  | _ => exact fail_ambient _

theorem join_ambient (answer : V) :
    (m.ambient a r calls entries).join i c answer =
      (m.join i c answer).ambient a r calls entries := by
  unfold join
  rw [control_ambient]
  cases (m.routine c).control with
  | ended => exact reply_ambient _
  | _ =>
    dsimp only [Control.ambient]
    rw [update_ambient (f := fun r => { r with joiners := i :: r.joiners }) rfl]
    exact congrArg (pause · i) (setControl_ambient (.joining c answer))

theorem dispose_ambient (answer : V) :
    (m.ambient a r calls entries).dispose i c answer =
      (m.dispose i c answer).ambient a r calls entries := by
  unfold dispose
  rw [isBusy_ambient, status_ambient, close_ambient]
  split
  · exact fail_ambient _
  · rcases m.close c with ⟨b, m'⟩
    cases b with
    | true => exact join_ambient answer
    | false => exact reply_ambient _

theorem wakeJoiner_ambient :
    (m.ambient a r calls entries).wakeJoiner j = (m.wakeJoiner j).ambient a r calls entries := by
  unfold wakeJoiner
  rw [control_ambient]
  cases (m.routine j).control <;> simp [Control.ambient]

theorem finish_ambient (o : Outcome V (Parcel V)) :
    (m.ambient a r calls entries).finish c o = (m.finish c o).ambient a r calls entries := by
  have hwake : ∀ (is : List RoutineId) (m : Machine P V σ),
      is.foldl wakeJoiner (m.ambient a r calls entries) =
        (is.foldl wakeJoiner m).ambient a r calls entries := by
    intro is
    induction is with
    | nil => exact fun _ => rfl
    | cons i is ih =>
      intro m
      rw [List.foldl_cons, wakeJoiner_ambient, ih, List.foldl_cons]
  rw [finish_eq, finish_eq, joiners_ambient, update_ambient (f := Routine.atEnd o) rfl, pause_ambient,
    sendOutput_ambient, hwake]

/-! ## Scopes -/

/-- A routine is made; nobody is in a call before that. -/
theorem push_ambient {x : Routine P V σ} (hx : x.ambient a r false = x)
    (hcalls : ∀ j ∈ calls, j.val < m.routines.size) :
    { m.ambient a r calls entries with
      routines := (m.ambient a r calls entries).routines.push x } =
      { m with routines := m.routines.push x }.ambient a r calls entries := by
  have hnew : (⟨m.routines.size⟩ : RoutineId) ∉ calls := fun hmem => lt_irrefl _ (hcalls _ hmem)
  simp [ambient, Array.mapIdx_push, hnew, hx]

theorem spawn_ambient (hcalls : ∀ j ∈ calls, j.val < m.routines.size) (config : Config)
    (start : Start P V) (scope : Option (Scope P)) :
    (m.ambient a r calls entries).spawn config start scope =
      ((m.spawn config start scope).1, (m.spawn config start scope).2.ambient a r calls entries) := by
  unfold spawn
  rw [size_ambient]
  exact congrArg (Prod.mk _) (push_ambient rfl hcalls)

section Scopes

variable (hi : i ∉ calls)
include hi

theorem enter_ambient (config : Config) :
    (m.ambient a r calls entries).enter i config = (m.enter i config).ambient a r calls entries := by
  refine update_ambient ?_
  simp only [Routine.ambient, hi, decide_false]
  split <;> simp [Frame.ambient]

theorem enterScope_ambient (b : Boxed V) :
    (m.ambient a r calls entries).enterScope i s b =
      (m.enterScope i s b).ambient a r calls entries := by
  unfold enterScope
  rw [scope_ambient]
  cases (m.routine s).scope with
  | none => exact fail_ambient _
  | some scope =>
    dsimp only
    rw [pushFrame_ambient_self hi (f := .holding s) rfl, enter_ambient hi,
      pushFrame_ambient_self hi (f := .dispatch s) rfl, resumeOn_ambient (by simp [Context.place]) hi]

theorem openScope_ambient (hcalls : ∀ j ∈ calls, j.val < m.routines.size) (scope : Scope P)
    (start : Start P V) : (m.ambient a r calls entries).openScope i scope start =
      (m.openScope i scope start).ambient a r calls entries := by
  unfold openScope
  rw [spawn_ambient hcalls]
  dsimp only
  rw [hold_ambient, enterScope_ambient hi]

theorem continueWith_ambient (hcalls : ∀ j ∈ calls, j.val < m.routines.size) (k : Cont)
    (b : Boxed V) : (m.ambient a r calls entries).continueWith i k b =
      (m.continueWith i k b).ambient a r calls entries := by
  cases k with
  | direct s => exact enterScope_ambient hi b
  | through s inner =>
    unfold continueWith
    dsimp only
    rw [scope_ambient]
    cases (m.routine s).scope with
    | none => exact fail_ambient _
    | some scope =>
      dsimp only
      rw [hold_ambient, pushFrame_ambient_self hi (f := .holding s) rfl,
        openScope_ambient hi (by simpa [hold, pushFrame] using hcalls)]

theorem perform_ambient (ctx : Context) (e : Effect) (b : Boxed V) :
    (m.ambient a r calls entries).perform i ctx e b =
      (m.perform i ctx e b).ambient a r calls entries := by
  unfold perform
  rw [pushFrame_ambient_self hi (f := .performing) rfl, suspend_ambient (by simp [Context.place])]

theorem callOwning_ambient (k : Cont) (d : ContId → Code P V σ V) :
    (m.ambient a r calls entries).callOwning i k (fun place => (d place).ambient a r) =
      (m.callOwning i k d).ambient a r calls entries := by
  unfold callOwning
  rw [keepCont_ambient]
  dsimp only
  rw [pushFrame_ambient_self hi (f := .owning (m.keepCont k).1) rfl]
  exact setControl_ambient (.running (d _))

theorem claim_ambient (scope : Scope P) (e : Effect) (b : Boxed V) (k : Cont) :
    (m.ambient a r calls entries).claim (fun p e => (code p e).ambient a r) i scope e b k =
      (m.claim code i scope e b k).ambient a r calls entries := by
  unfold claim
  split
  · next p v hclause => exact callOwning_ambient hi k _
  · next arms cause hclause =>
    rw [← callOwning_ambient hi]
    congr 1
    funext place
    split
    · rfl
    · exact congrArg (Code.act _) (funext fun o => (Code.ambient_ofOutcome a r o).symm)
  · rw [release_ambient, fail_ambient]
  · rw [pushFrame_ambient_self hi (f := .forwarding e) rfl, suspend_ambient (by simp [Context.place])]

theorem conclude_ambient (scope : Scope P) (b : Boxed V) :
    (m.ambient a r calls entries).conclude (fun p e => (code p e).ambient a r) i s scope b =
      (m.conclude code i s scope b).ambient a r calls entries := by
  unfold conclude
  split
  · exact reply_ambient _
  · next p v hfinish => exact setControl_ambient (.running (code p (.value v)))
  · rw [update_ambient (f := fun r => { r with scope := some { scope with finish := .into none } }) rfl,
      enterScope_ambient hi]
  · exact fail_ambient _
  · exact fail_ambient _

theorem dispatch_ambient (x : Signal V) :
    (m.ambient a r calls entries).dispatch (fun p e => (code p e).ambient a r) i s x =
      (m.dispatch code i s x).ambient a r calls entries := by
  unfold dispatch
  rw [scope_ambient]
  split
  · rw [hold_ambient, claim_ambient hi]
  · rw [hold_ambient, claim_ambient hi]
  · exact conclude_ambient hi _ _
  · exact fail_ambient _

end Scopes

/-! ## Steps -/

theorem onCoroutine_ambient {f : Machine P V σ → Machine P V σ}
    (hf : f (m.ambient a r calls entries) = (f m).ambient a r calls entries) :
    (m.ambient a r calls entries).onCoroutine i c f =
      (m.onCoroutine i c f).ambient a r calls entries := by
  unfold onCoroutine
  rw [isCoroutine_ambient]
  split
  · exact hf
  · exact fail_ambient _

/-- A new registry is empty. -/
theorem push_setIfInBounds {α : Type} (xs : Array α) (n : Nat) (x y : α) (h : n < xs.size ∨ x = y) :
    (xs.setIfInBounds n x).push y = (xs.push y).setIfInBounds n x := by
  apply Array.ext_getElem?
  intro k
  simp only [Array.getElem?_push, Array.getElem?_setIfInBounds, Array.size_setIfInBounds,
    Array.size_push]
  grind

/-- A question that is not about registry `r` has its answer. -/
theorem answer_ambient (hcalls : ∀ j ∈ calls, j.val < m.routines.size)
    (hopen : m.hasPlace (.registry r) ∨ entries = .empty) (q : Query P)
    (hlook : q ≠ .registered r) (hr : q.usedRegistry ≠ some r) :
    (m.ambient a r calls entries).answer i q =
      ((m.answer i q).1, (m.answer i q).2.ambient a r calls entries) := by
  cases q with
  | spawn config body => exact spawn_ambient hcalls config _ none
  | skip => exact congrArg (Prod.mk _) (push_ambient rfl hcalls)
  | status c => exact congrArg (Prod.mk · _) status_ambient
  | busy c => exact congrArg (Prod.mk · _) isBusy_ambient
  | abandon c =>
    unfold answer
    dsimp only
    rw [isCoroutine_ambient, isBusy_ambient]
    split
    · rw [abandon_ambient]
    · rfl
  | openRegistry =>
    have hpush := push_setIfInBounds m.registries r.val entries .empty hopen
    simp [answer, ambient, hpush]
  | registered q =>
    have hq : Place.registry q ≠ .registry r := by
      rintro ⟨⟩
      exact hlook rfl
    exact congrArg (Prod.mk · _) (registry_ambient_of_ne hq)
  | register q op =>
    have hq : Place.registry q ≠ .registry r := by
      rintro ⟨⟩
      exact hr rfl
    unfold answer
    dsimp only
    rw [registry_ambient_of_ne hq, setRegistry_ambient_of_ne hq]
  | openContext config => rfl
  | pending ctx => rfl
  | holds k => rfl
  | keep k =>
    unfold answer
    dsimp only
    rw [takeCont_ambient]
    rcases m.takeCont k with ⟨c | c, m'⟩
    · rfl
    · rfl
  | discard k => exact congrArg (Prod.mk _) (releaseAt_ambient k)
  | thread => exact congrArg (Prod.mk · _) thread_ambient
  | declare => rfl

section Steps

variable (hi : i ∉ calls)
include hi

theorem onContext_ambient (hcalls : ∀ j ∈ calls, j.val < m.routines.size) (scope : Scope P)
    (body : P) : (m.ambient a r calls entries).onContext i scope body =
      (m.onContext i scope body).ambient a r calls entries := by
  have hctx : (m.ambient a r calls entries).contexts = m.contexts := rfl
  unfold onContext
  rw [hctx]
  split
  · exact openScope_ambient hi hcalls scope _
  · exact fail_ambient _

/-- An operation that is not about coroutine `a`, and does not use registry `r`. -/
theorem begin_ambient (hcalls : ∀ j ∈ calls, j.val < m.routines.size) (b : Act P V)
    (hb : b.ambient a r = b) (hr : b.usedRegistry ≠ some r) :
    (m.ambient a r calls entries).begin (fun p e => (code p e).ambient a r) i b =
      (m.begin code i b).ambient a r calls entries := by
  cases b with
  | call p e => exact setControl_ambient (.running (code p e))
  | resume c v => exact onCoroutine_ambient (f := (·.resume i c (.plain v))) (resume_ambient _)
  | resumeOn q c v =>
    refine onCoroutine_ambient (f := (·.resumeOn i (.registry q) c (.plain v)))
      (resumeOn_ambient ?_ hi _)
    rintro ⟨⟩
    exact hr rfl
  | cancel c answer =>
    exact onCoroutine_ambient (f := (·.cancel i c answer)) (cancel_ambient hi answer)
  | dispose c answer =>
    exact onCoroutine_ambient (f := (·.dispose i c answer)) (dispose_ambient answer)
  | yield c v => exact onCoroutine_ambient (f := (·.yield i c (.plain v))) (yield_ambient _)
  | suspend q v =>
    unfold begin
    dsimp only
    rw [isCoroutine_ambient]
    split
    · refine suspend_ambient ?_ _
      rintro ⟨⟩
      exact hr rfl
    · exact fail_ambient _
  | perform ctx e v => exact perform_ambient hi ctx _ _
  | raise ctx cause => exact perform_ambient hi ctx _ _
  | handle ctx h body => exact onContext_ambient hi hcalls _ body
  | tryWith ctx arms body => exact onContext_ambient hi hcalls _ body
  | continueWith k v =>
    unfold begin
    dsimp only
    rw [takeCont_ambient]
    have hsize : (m.takeCont k).2.routines.size = m.routines.size := rfl
    rcases hk : m.takeCont k with ⟨c | c, m'⟩
    · exact fail_ambient _
    · rw [hk] at hsize
      exact continueWith_ambient hi (by rwa [hsize]) c _

/-- A body begins. -/
theorem start_ambient (hcalls : ∀ j ∈ calls, j.val < m.routines.size) (s : Start P V) (x : Parcel V) :
    (m.ambient a r calls entries).start (fun p e => (code p e).ambient a r) i s x =
      (m.start code i s x).ambient a r calls entries := by
  unfold start
  split
  · next p v => exact setControl_ambient (.running (code p (.start v i)))
  · exact fail_ambient _
  · next p =>
    rw [pushFrame_ambient_self hi (f := .handledBody) rfl]
    exact setControl_ambient (.running (code p .nothing))
  · rw [pushFrame_ambient_self hi (f := .rejoining) rfl,
      continueWith_ambient hi (by simpa [pushFrame] using hcalls)]

/-- A frame that does not withdraw an entry from `r` gets an outcome. -/
theorem unwind_ambient (o : Outcome V (Parcel V)) (f : Frame P V σ) (hr : f.usedRegistry ≠ some r) :
    (m.ambient a r calls entries).unwind (fun p e => (code p e).ambient a r) i o (f.ambient a r) =
      (m.unwind code i o f).ambient a r calls entries := by
  cases f with
  | next k => exact setControl_ambient (.running (k (seen o)))
  | registered p c =>
    have hp : p ≠ .registry r := by
      rintro rfl
      exact hr rfl
    unfold unwind Frame.ambient
    dsimp only
    rw [registry_ambient_of_ne hp, setRegistry_ambient_of_ne hp, reply_ambient]
  | nested depth thread =>
    unfold unwind Frame.ambient
    dsimp only
    rw [update_ambient (f := fun r => { r with depth := depth, thread := thread }) rfl, reply_ambient]
  | holding s =>
    unfold unwind Frame.ambient
    dsimp only
    rw [letGo_ambient, reply_ambient]
  | owning k =>
    unfold unwind Frame.ambient
    dsimp only
    rw [releaseAt_ambient, reply_ambient]
  | dispatch s =>
    unfold unwind Frame.ambient
    dsimp only
    split
    · exact dispatch_ambient hi _
    · exact fail_ambient _
    · exact reply_ambient _
  | canceling answer =>
    unfold unwind Frame.ambient
    dsimp only
    split
    · rw [releaseParcel_ambient, reply_ambient]
    · exact reply_ambient _
    · exact reply_ambient _
  | _ =>
    unfold unwind Frame.ambient
    dsimp only
    split <;> exact reply_ambient _

/-- A step of a routine that is in no call, that does not use registry `r`, and that neither resumes `a`
nor hands out through it, is the same step. -/
theorem stepOf_ambient (hcalls : ∀ j ∈ calls, j.val < m.routines.size)
    (hopen : m.hasPlace (.registry r) ∨ entries = .empty)
    (hact : ∀ b next, (m.routine i).control = .running (.act b next) → b.ambient a r = b)
    (hlook : ∀ next, (m.routine i).control ≠ .running (.ask (.registered r) next))
    (hr : m.usedRegistry i ≠ some r) :
    (m.ambient a r calls entries).stepOf (fun p e => (code p e).ambient a r) i =
      (m.stepOf code i).ambient a r calls entries := by
  unfold stepOf
  rw [control_ambient]
  unfold usedRegistry at hr
  cases hc : (m.routine i).control with
  | starting s x => exact start_ambient hi hcalls s x
  | running d =>
    rw [hc] at hr
    simp only [Control.ambient]
    cases d with
    | pure v => exact reply_ambient _
    | fail f => exact fail_ambient _
    | panic p => exact reply_ambient _
    | act b next =>
      have hpush : (m.ambient a r calls entries).pushFrame i (.next fun o => (next o).ambient a r) =
          (m.pushFrame i (.next next)).ambient a r calls entries := pushFrame_ambient hi (.next next)
      rw [Code.ambient, exec, exec, hact b next hc, hpush]
      exact begin_ambient hi (by simpa [pushFrame] using hcalls) b (hact b next hc) hr
    | ask q next =>
      have hq : q ≠ .registered r := by
        rintro rfl
        exact hlook next hc
      rw [Code.ambient, exec, answer_ambient hcalls hopen q hq hr]
      exact setControl_ambient (.running (next (m.answer i q).1))
    | access change next =>
      rw [Code.ambient]
      exact setControl_ambient (m := { m with store := change m.store }) (.running (next m.store))
  | returning o =>
    rw [hc] at hr
    rw [routine_ambient (lt_of_ne_ended (by simp [hc]))]
    simp only [Control.ambient, Routine.ambient, hi, decide_false]
    cases hst : (m.routine i).stack with
    | nil => exact finish_ambient o
    | cons f st =>
      rw [hst] at hr
      have hpop : (m.ambient a r calls entries).update i
            (fun x => { x with stack := st.map (Frame.ambient a r) }) =
          (m.update i fun x => { x with stack := st }).ambient a r calls entries :=
        update_ambient (by simp [Routine.ambient, hi])
      exact (congrArg (unwind _ · i o (f.ambient a r)) hpop).trans (unwind_ambient hi o f hr)
  | _ => exact pause_ambient

/-- The step uses the registry that it used before. -/
theorem usedRegistry_ambient
    (hact : ∀ b next, (m.routine i).control = .running (.act b next) → b.ambient a r = b) :
    (m.ambient a r calls entries).usedRegistry i = m.usedRegistry i := by
  have hframe : ∀ f : Frame P V σ, (f.ambient a r).usedRegistry = f.usedRegistry := by
    intro f
    cases f <;> rfl
  unfold usedRegistry
  rw [control_ambient]
  cases hc : (m.routine i).control with
  | running d =>
    cases d with
    | act b next => exact congrArg Act.usedRegistry (hact b next hc)
    | _ => rfl
  | returning o =>
    rw [routine_ambient (lt_of_ne_ended (by simp [hc]))]
    cases hst : (m.routine i).stack <;> simp [Control.ambient, Routine.ambient, hi, hst, hframe]
  | _ => rfl

end Steps

end Machine

end OneShot
