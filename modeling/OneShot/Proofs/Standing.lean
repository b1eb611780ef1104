import OneShot.Proofs.Passing

/-!
# Where a routine stands

The *standing* of a routine is its stack, and the thread on which it is with the depth of the calls there. Few
operations look at it: code that begins an operation puts a frame on the stack, a nested call looks at the
depth, and a routine that gives an outcome to a frame takes it off. All other operations do the same wherever
routines stand, and leave them there: they commute with `Machine.restand`, which puts routines somewhere else.

So what is said of the standings in two machines that are the same otherwise (`Machine.Match`) stays true in a
step, if it stays true when the same is done with both of two standings (`Steady`).
-/

namespace OneShot

variable {P V σ : Type}

/-- Where a routine is in its calls. -/
structure Standing (P V σ : Type) where
  stack : List (Frame P V σ)
  depth : Nat
  thread : String

/-- Whether the frame is that of a nested call. -/
def Frame.isNested : Frame P V σ → Bool
  | .nested _ _ => true
  | _ => false

namespace Standing

/-- Where a routine begins. -/
def start (name : String) : Standing P V σ := ⟨[], 0, name⟩

def push (s : Standing P V σ) (f : Frame P V σ) : Standing P V σ := { s with stack := f :: s.stack }

/-- A nested call begins. -/
def enter (s : Standing P V σ) (config : Config) : Standing P V σ :=
  if s.depth < Machine.maxNested then
    ⟨.nested s.depth s.thread :: s.stack, s.depth + 1, s.thread⟩
  else
    ⟨.nested s.depth s.thread :: s.stack, 1, config.nestedName⟩

end Standing

namespace Routine

def standing (r : Routine P V σ) : Standing P V σ := ⟨r.stack, r.depth, r.thread⟩

/-- The routine, standing somewhere else. -/
def restand (r : Routine P V σ) (s : Standing P V σ) : Routine P V σ :=
  { r with stack := s.stack, depth := s.depth, thread := s.thread }

@[simp] theorem restand_standing (r : Routine P V σ) : r.restand r.standing = r := rfl

@[simp] theorem standing_restand (r : Routine P V σ) (s : Standing P V σ) : (r.restand s).standing = s := rfl

end Routine

namespace Machine

/-- The machine, with all routines standing somewhere else. -/
def restand (m : Machine P V σ) (S : RoutineId → Standing P V σ) : Machine P V σ :=
  { m with routines := m.routines.mapIdx fun n x => x.restand (S ⟨n⟩) }

variable {m m' n : Machine P V σ} {S S' : RoutineId → Standing P V σ} {i j c s : RoutineId} {p : Place}

/-! ## Looking at the machine -/

@[simp] theorem size_restand : (m.restand S).routines.size = m.routines.size := Array.size_mapIdx

theorem routine_restand (hj : j.val < m.routines.size) :
    (m.restand S).routine j = (m.routine j).restand (S j) := by
  simp [routine, restand, Array.getD, hj]

/-- Whatever a routine shows apart from its standing. -/
theorem routine_restand_eq : ∃ s, (m.restand S).routine j = (m.routine j).restand s := by
  rcases Nat.lt_or_ge j.val m.routines.size with hj | hj
  · exact ⟨_, routine_restand hj⟩
  · refine ⟨Routine.absent.standing, ?_⟩
    rw [routine_of_size_le (by simpa using hj), routine_of_size_le hj]
    rfl

@[simp] theorem status_restand : (m.restand S).status c = m.status c := by
  obtain ⟨s, h⟩ := routine_restand_eq (m := m) (S := S) (j := c)
  rw [status, h, status, Routine.restand]

@[simp] theorem inbox_restand : ((m.restand S).routine c).inbox = (m.routine c).inbox := by
  obtain ⟨s, h⟩ := routine_restand_eq (m := m) (S := S) (j := c)
  rw [h, Routine.restand]

@[simp] theorem outbox_restand : ((m.restand S).routine c).outbox = (m.routine c).outbox := by
  obtain ⟨s, h⟩ := routine_restand_eq (m := m) (S := S) (j := c)
  rw [h, Routine.restand]

@[simp] theorem joiners_restand : ((m.restand S).routine c).joiners = (m.routine c).joiners := by
  obtain ⟨s, h⟩ := routine_restand_eq (m := m) (S := S) (j := c)
  rw [h, Routine.restand]

@[simp] theorem scope_restand : ((m.restand S).routine c).scope = (m.routine c).scope := by
  obtain ⟨s, h⟩ := routine_restand_eq (m := m) (S := S) (j := c)
  rw [h, Routine.restand]

@[simp] theorem control_restand : ((m.restand S).routine c).control = (m.routine c).control := by
  obtain ⟨s, h⟩ := routine_restand_eq (m := m) (S := S) (j := c)
  rw [h, Routine.restand]

@[simp] theorem isCoroutine_restand : (m.restand S).isCoroutine c = m.isCoroutine c := by
  rw [isCoroutine, scope_restand, isCoroutine]

@[simp] theorem isBusy_restand : (m.restand S).isBusy c = m.isBusy c := by
  rw [isBusy, outbox_restand, isBusy]

@[simp] theorem registry_restand : (m.restand S).registry p = m.registry p := by
  cases p <;> rfl

theorem restand_restand : (m.restand S).restand S' = m.restand S' := by
  simp [restand, Array.mapIdx_mapIdx, Function.comp_def, Routine.restand]

/-- Where all routines stand already. -/
theorem restand_self : m.restand (fun j => (m.routine j).standing) = m := by
  have hroutines : (m.restand fun j => (m.routine j).standing).routines = m.routines := by
    refine Array.ext (by simp) fun k hk hk' => ?_
    simp [restand, routine, Array.getD, hk']
  exact congrArg (fun routines => { m with routines := routines }) hroutines

/-! ## Operations that do not look at standings -/

theorem update_restand {f f' : Routine P V σ → Routine P V σ}
    (h : ∀ s, f' ((m.routine j).restand s) = (f (m.routine j)).restand s) :
    (m.restand S).update j f' = (m.update j f).restand S := by
  unfold update restand
  congr 1
  refine Array.ext (by simp) fun k hk hk' => ?_
  have hlt : k < m.routines.size := by simpa using hk
  simp only [Array.getElem_modify, Array.getElem_mapIdx]
  split
  · next hjk =>
    subst hjk
    simpa [routine, Array.getD, hlt] using h (S j)
  · rfl

@[simp] theorem setStatus_restand (t : Status) :
    (m.restand S).setStatus c t = (m.setStatus c t).restand S := update_restand fun _ => rfl

@[simp] theorem setControl_restand (d : Control P V σ) :
    (m.restand S).setControl i d = (m.setControl i d).restand S := update_restand fun _ => rfl

@[simp] theorem reply_restand (o : Outcome V (Parcel V)) :
    (m.restand S).reply i o = (m.reply i o).restand S := setControl_restand _

@[simp] theorem fail_restand (f : Failure) : (m.restand S).fail i f = (m.fail i f).restand S :=
  setControl_restand _

@[simp] theorem wake_restand : (m.restand S).wake i = (m.wake i).restand S := rfl

@[simp] theorem pause_restand : (m.restand S).pause i = (m.pause i).restand S := rfl

@[simp] theorem setRegistry_restand (g : Registry RoutineId) :
    (m.restand S).setRegistry p g = (m.setRegistry p g).restand S := by
  cases p <;> rfl

@[simp] theorem deliver_restand (x : Input V) : (m.restand S).deliver j x = (m.deliver j x).restand S := by
  unfold deliver
  rw [control_restand]
  split <;> simp

@[simp] theorem hear_restand (o : Outcome V (Parcel V)) :
    (m.restand S).hear j c o = (m.hear j c o).restand S := by
  cases o <;> simp [hear]

@[simp] theorem sendInput_restand (x : Input V) :
    (m.restand S).sendInput c x = (m.sendInput c x).restand S := by
  unfold sendInput
  rw [inbox_restand]
  cases (m.routine c).inbox with
  | awaited reader =>
    dsimp only
    rw [update_restand (f := fun r => { r with inbox := .empty }) fun _ => rfl, deliver_restand, wake_restand]
  | empty => exact update_restand fun _ => rfl
  | full y => rfl

@[simp] theorem sendOutput_restand (o : Outcome V (Parcel V)) :
    (m.restand S).sendOutput c o = (m.sendOutput c o).restand S := by
  unfold sendOutput
  rw [outbox_restand]
  cases (m.routine c).outbox with
  | awaited listener =>
    dsimp only
    rw [update_restand (f := fun r => { r with outbox := .empty }) fun _ => rfl, hear_restand, wake_restand]
  | empty => exact update_restand fun _ => rfl
  | full y => rfl

@[simp] theorem read_restand : (m.restand S).read i c = (m.read i c).restand S := by
  unfold read
  rw [inbox_restand]
  cases (m.routine c).inbox with
  | full x =>
    dsimp only
    rw [update_restand (f := fun r => { r with inbox := .empty }) fun _ => rfl, deliver_restand]
  | empty =>
    dsimp only
    rw [update_restand (f := fun r => { r with inbox := .awaited i }) fun _ => rfl, setControl_restand,
      pause_restand]
  | awaited j => exact congrArg (pause · i) (setControl_restand _)

@[simp] theorem listen_restand : (m.restand S).listen i c = (m.listen i c).restand S := by
  unfold listen
  rw [outbox_restand]
  cases (m.routine c).outbox with
  | full x =>
    dsimp only
    rw [update_restand (f := fun r => { r with outbox := .empty }) fun _ => rfl, hear_restand]
  | empty =>
    dsimp only
    rw [update_restand (f := fun r => { r with outbox := .awaited i }) fun _ => rfl, setControl_restand,
      pause_restand]
  | awaited j => exact congrArg (pause · i) (setControl_restand _)

@[simp] theorem resume_restand (x : Parcel V) :
    (m.restand S).resume i c x = (m.resume i c x).restand S := by
  unfold resume
  rw [status_restand]
  split <;> simp

theorem close_restand : (m.restand S).close c = ((m.close c).1, (m.close c).2.restand S) := by
  unfold close
  rw [inbox_restand, status_restand]
  cases (m.routine c).inbox with
  | awaited reader =>
    dsimp only
    rw [update_restand (f := fun r => { r with status := .canceled, inbox := .empty }) fun _ => rfl,
      deliver_restand, wake_restand]
  | _ =>
    dsimp only
    split <;> simp

@[simp] theorem abandon_restand : (m.restand S).abandon c = (m.abandon c).restand S := by
  rw [abandon, close_restand, abandon]

@[simp] theorem hold_restand : (m.restand S).hold s = (m.hold s).restand S := update_restand fun _ => rfl

theorem letGoWithin_restand (k : Nat) :
    (m.restand S).letGoWithin k s = (m.letGoWithin k s).restand S := by
  -- Letting go of a scope may let go of the one around it.
  induction k generalizing m s with
  | zero => rfl
  | succ k ih =>
    unfold letGoWithin
    rw [scope_restand]
    cases (m.routine s).scope with
    | none => rfl
    | some c =>
      dsimp only
      rw [update_restand (f := fun r => { r with scope := some { c with holders := c.holders - 1 } })
        fun _ => rfl]
      split
      · split
        · rw [ih, abandon_restand]
        · exact abandon_restand
      · rfl

@[simp] theorem letGo_restand : (m.restand S).letGo s = (m.letGo s).restand S := by
  rw [letGo, size_restand, letGoWithin_restand, letGo]

@[simp] theorem release_restand (k : Cont) : (m.restand S).release k = (m.release k).restand S := by
  induction k generalizing m with
  | direct s => exact letGo_restand
  | through s inner ih => rw [release, letGo_restand, ih, release]

@[simp] theorem releaseParcel_restand (x : Parcel V) :
    (m.restand S).releaseParcel x = (m.releaseParcel x).restand S := by
  unfold releaseParcel
  split
  · exact release_restand _
  · rfl

theorem takeCont_restand (k : ContId) :
    (m.restand S).takeCont k = ((m.takeCont k).1, (m.takeCont k).2.restand S) := rfl

@[simp] theorem releaseAt_restand (k : ContId) :
    (m.restand S).releaseAt k = (m.releaseAt k).restand S := by
  unfold releaseAt
  rw [takeCont_restand]
  rcases m.takeCont k with ⟨c | c, m'⟩
  · rfl
  · exact release_restand c

@[simp] theorem yield_restand (x : Parcel V) : (m.restand S).yield i c x = (m.yield i c x).restand S := by
  unfold yield
  rw [status_restand]
  cases m.status c <;> simp

@[simp] theorem suspend_restand (x : Parcel V) :
    (m.restand S).suspend i p x = (m.suspend i p x).restand S := by
  unfold suspend
  rw [registry_restand]
  split
  · simp
  · split <;> simp

theorem join_restand (answer : V) : (m.restand S).join i c answer = (m.join i c answer).restand S := by
  unfold join
  rw [control_restand]
  cases (m.routine c).control with
  | ended => exact reply_restand _
  | _ =>
    dsimp only
    rw [update_restand (f := fun r => { r with joiners := i :: r.joiners }) fun _ => rfl, setControl_restand,
      pause_restand]

theorem dispose_restand (answer : V) :
    (m.restand S).dispose i c answer = (m.dispose i c answer).restand S := by
  unfold dispose
  rw [isBusy_restand, status_restand, close_restand]
  split
  · exact fail_restand _
  · rcases m.close c with ⟨b, m'⟩
    cases b with
    | true => exact join_restand answer
    | false => exact reply_restand _

theorem wakeJoiner_restand : (m.restand S).wakeJoiner j = (m.wakeJoiner j).restand S := by
  unfold wakeJoiner
  rw [control_restand]
  cases (m.routine j).control <;> simp

theorem finish_restand (o : Outcome V (Parcel V)) :
    (m.restand S).finish c o = (m.finish c o).restand S := by
  have hwake : ∀ (is : List RoutineId) (m : Machine P V σ),
      is.foldl wakeJoiner (m.restand S) = (is.foldl wakeJoiner m).restand S := by
    intro is
    induction is with
    | nil => exact fun _ => rfl
    | cons i is ih =>
      intro m
      rw [List.foldl_cons, wakeJoiner_restand, ih, List.foldl_cons]
  rw [finish_eq, finish_eq, joiners_restand, update_restand (f := Routine.atEnd o) fun _ => rfl,
    pause_restand, sendOutput_restand, hwake]

/-! ## Operations that make no routines -/

@[simp] theorem size_setStatus (t : Status) : (m.setStatus c t).routines.size = m.routines.size :=
  size_update ..

@[simp] theorem size_setControl (d : Control P V σ) : (m.setControl i d).routines.size = m.routines.size :=
  size_update ..

@[simp] theorem size_reply (o : Outcome V (Parcel V)) : (m.reply i o).routines.size = m.routines.size :=
  size_setControl _

@[simp] theorem size_fail (f : Failure) : (m.fail i f).routines.size = m.routines.size := size_reply _

@[simp] theorem size_wake : (m.wake i).routines.size = m.routines.size := rfl

@[simp] theorem size_pause : (m.pause i).routines.size = m.routines.size := rfl

@[simp] theorem size_deliver (x : Input V) : (m.deliver j x).routines.size = m.routines.size := by
  unfold deliver
  split <;> simp

@[simp] theorem size_hear (o : Outcome V (Parcel V)) : (m.hear j c o).routines.size = m.routines.size := by
  unfold hear
  split <;> simp

@[simp] theorem size_sendInput (x : Input V) : (m.sendInput c x).routines.size = m.routines.size := by
  unfold sendInput
  split <;> simp

@[simp] theorem size_sendOutput (o : Outcome V (Parcel V)) :
    (m.sendOutput c o).routines.size = m.routines.size := by
  unfold sendOutput
  split <;> simp

@[simp] theorem size_read : (m.read i c).routines.size = m.routines.size := by
  unfold read
  split <;> simp

@[simp] theorem size_listen : (m.listen i c).routines.size = m.routines.size := by
  unfold listen
  split <;> simp

@[simp] theorem size_resume (x : Parcel V) : (m.resume i c x).routines.size = m.routines.size := by
  unfold resume
  split <;> simp

@[simp] theorem size_abandon : (m.abandon c).routines.size = m.routines.size := size_close m c

@[simp] theorem size_hold : (m.hold s).routines.size = m.routines.size := size_update ..

@[simp] theorem size_letGoWithin (k : Nat) (m : Machine P V σ) (s : RoutineId) :
    (m.letGoWithin k s).routines.size = m.routines.size := by
  induction k generalizing m s with
  | zero => rfl
  | succ k ih =>
    unfold letGoWithin
    split
    · rfl
    · dsimp only
      split
      · split <;> simp [ih]
      · simp

@[simp] theorem size_letGo : (m.letGo s).routines.size = m.routines.size := size_letGoWithin ..

@[simp] theorem size_release (k : Cont) : (m.release k).routines.size = m.routines.size := by
  induction k generalizing m with
  | direct s => exact size_letGo
  | through s inner ih => exact ih.trans size_letGo

@[simp] theorem size_releaseParcel (x : Parcel V) :
    (m.releaseParcel x).routines.size = m.routines.size := by
  unfold releaseParcel
  split <;> simp

@[simp] theorem size_releaseAt (k : ContId) : (m.releaseAt k).routines.size = m.routines.size := by
  rw [releaseAt, takeCont]
  split
  · next heq =>
    obtain ⟨-, rfl⟩ := Prod.mk.inj heq
    exact size_release _
  · next heq =>
    obtain ⟨-, rfl⟩ := Prod.mk.inj heq
    rfl

@[simp] theorem size_yield (x : Parcel V) : (m.yield i c x).routines.size = m.routines.size := by
  unfold yield
  split <;> simp

@[simp] theorem size_suspend (x : Parcel V) : (m.suspend i p x).routines.size = m.routines.size := by
  unfold suspend
  split
  · simp
  · split <;> simp

@[simp] theorem size_join (answer : V) : (m.join i c answer).routines.size = m.routines.size := by
  unfold join
  split <;> simp

@[simp] theorem size_dispose (answer : V) : (m.dispose i c answer).routines.size = m.routines.size := by
  have hclose := size_close m c
  unfold dispose
  split
  · simp
  · split
    · next heq => simpa [heq] using hclose
    · next heq => simpa [heq] using hclose

@[simp] theorem size_finish (o : Outcome V (Parcel V)) :
    (m.finish c o).routines.size = m.routines.size := by
  have hwake : ∀ (is : List RoutineId) (m : Machine P V σ),
      (is.foldl wakeJoiner m).routines.size = m.routines.size := by
    intro is
    induction is with
    | nil => exact fun _ => rfl
    | cons i is ih =>
      intro m
      rw [List.foldl_cons, ih, wakeJoiner]
      split <;> simp
  simp [finish_eq, hwake]

/-! ## Machines that differ in standings only -/

/-- What is said of two standings of a routine stays true when the same is done with both. It need not be
true of the first standing of a routine that was there before. -/
structure Steady (old : Nat) (ρ : RoutineId → Standing P V σ → Standing P V σ → Prop) : Prop where
  push : ∀ {i s s'} (f : Frame P V σ), f.isNested = false → ρ i s s' → ρ i (s.push f) (s'.push f)
  enter : ∀ {i s s'} (config : Config), ρ i s s' → ρ i (s.enter config) (s'.enter config)
  start : ∀ {i : RoutineId} (name : String), old ≤ i.val → ρ i (.start name) (.start name)

/-- The machines are the same apart from the standings of routines, and this is said of the standings. -/
structure Match (old : Nat) (ρ : RoutineId → Standing P V σ → Standing P V σ → Prop)
    (m n : Machine P V σ) : Prop where
  old_le : old ≤ m.routines.size
  differ : ∃ S, n = m.restand S ∧ ∀ j, j.val < m.routines.size → ρ j (m.routine j).standing (S j)

theorem restand_congr (h : ∀ j : RoutineId, j.val < m.routines.size → S j = S' j) :
    m.restand S = m.restand S' := by
  unfold restand
  congr 1
  refine Array.ext (by simp) fun k hk _ => ?_
  have hlt : k < m.routines.size := by simpa using hk
  simp [h ⟨k⟩ hlt]

/-- An operation that does not look at standings leaves all routines where they stand, and makes none. -/
theorem standing_of_restand {op : Machine P V σ → Machine P V σ}
    (hop : ∀ S, op (m.restand S) = (op m).restand S) (hj : j.val < (op m).routines.size) :
    j.val < m.routines.size ∧ ((op m).routine j).standing = (m.routine j).standing := by
  have hown : ∀ S, m.restand S = m → ((op m).routine j).standing = S j := by
    intro S hS
    have heq := hop S
    rw [hS] at heq
    rw [heq, routine_restand hj, Routine.standing_restand]
  -- The standings that the machine has are one way to put it somewhere.
  have hself := hown _ restand_self
  refine ⟨?_, hself⟩
  -- A routine that was made would stand in two places.
  by_contra hout
  let elsewhere : Standing P V σ := { (m.routine j).standing with depth := (m.routine j).depth + 1 }
  have hother : m.restand (Function.update (fun j => (m.routine j).standing) j elsewhere) = m := by
    refine (restand_congr fun k hk => ?_).trans restand_self
    have hne : k ≠ j := by
      rintro rfl
      exact hout hk
    simp [Function.update_of_ne hne]
  have hdepth := congrArg Standing.depth ((hown _ hother).symm.trans hself)
  simp [elsewhere, Routine.standing] at hdepth

namespace Match

variable {old : Nat} {ρ : RoutineId → Standing P V σ → Standing P V σ → Prop}
  {code : P → Entry V → Code P V σ V}

section Looking

variable (h : Match old ρ m n)
include h

theorem size : n.routines.size = m.routines.size := by
  obtain ⟨S, rfl, -⟩ := h.differ
  exact size_restand

theorem scope : (n.routine c).scope = (m.routine c).scope := by
  obtain ⟨S, rfl, -⟩ := h.differ
  exact scope_restand

theorem control : (n.routine c).control = (m.routine c).control := by
  obtain ⟨S, rfl, -⟩ := h.differ
  exact control_restand

theorem isCoroutine : n.isCoroutine c = m.isCoroutine c := by
  obtain ⟨S, rfl, -⟩ := h.differ
  exact isCoroutine_restand

theorem registry : n.registry p = m.registry p := by
  obtain ⟨S, rfl, -⟩ := h.differ
  exact registry_restand

theorem standing (hj : j.val < m.routines.size) : ρ j (m.routine j).standing (n.routine j).standing := by
  obtain ⟨S, rfl, hS⟩ := h.differ
  rw [routine_restand hj, Routine.standing_restand]
  exact hS j hj

/-- The same operation, which does not look at standings. -/
theorem still (op : Machine P V σ → Machine P V σ)
    (hop : ∀ S, op (m.restand S) = (op m).restand S)
    (hsize : (op m).routines.size = m.routines.size) : Match old ρ (op m) (op n) := by
  obtain ⟨S, rfl, hS⟩ := h.differ
  refine ⟨hsize ▸ h.old_le, S, hop S, fun j hj => ?_⟩
  obtain ⟨hlt, hstanding⟩ := standing_of_restand hop hj
  rw [hstanding]
  exact hS j hlt

theorem takeCont (k : ContId) : Match old ρ (m.takeCont k).2 (n.takeCont k).2 :=
  h.still (fun m => (m.takeCont k).2) (fun _ => rfl) rfl

theorem keepCont (k : Cont) : Match old ρ (m.keepCont k).2 (n.keepCont k).2 :=
  h.still (fun m => (m.keepCont k).2) (fun _ => rfl) rfl

/-- One routine moves. -/
theorem move {f f' : Routine P V σ → Routine P V σ} {w w' : Standing P V σ}
    (hf : f (m.routine i) = (m.routine i).restand w) (hf' : f' (n.routine i) = (n.routine i).restand w')
    (hρ : i.val < m.routines.size → ρ i w w') : Match old ρ (m.update i f) (n.update i f') := by
  obtain ⟨S, rfl, hS⟩ := h.differ
  refine ⟨(size_update m i f).symm ▸ h.old_le, Function.update S i w', ?_, fun j hj => ?_⟩
  · unfold Machine.update restand
    congr 1
    refine Array.ext (by simp) fun k hk hk' => ?_
    have hlt : k < m.routines.size := by simpa using hk
    simp only [Array.getElem_modify, Array.getElem_mapIdx]
    split
    · next hik =>
      subst hik
      rw [routine_restand hlt] at hf'
      have hroutine : m.routine i = m.routines[i.val] := by simp [routine, Array.getD, hlt]
      rw [hroutine] at hf hf'
      rw [Function.update_self, hf]
      exact hf'
    · next hik =>
      have hne : (⟨k⟩ : RoutineId) ≠ i := fun heq => hik (congrArg RoutineId.val heq).symm
      rw [Function.update_of_ne hne]
  · rw [size_update] at hj
    by_cases hij : i = j
    · subst hij
      rw [routine_update_self hj, hf, Function.update_self]
      exact hρ hj
    · rw [routine_update_of_ne hij, Function.update_of_ne (Ne.symm hij)]
      exact hS j hj

theorem onCoroutine (f : Machine P V σ → Machine P V σ) (hf : Match old ρ (f m) (f n)) :
    Match old ρ (m.onCoroutine i c f) (n.onCoroutine i c f) := by
  unfold Machine.onCoroutine
  rw [h.isCoroutine]
  split
  · exact hf
  · exact h.still (·.fail i _) (by simp) (by simp)

end Looking

/-! ## Operations that put frames on the stack -/

section Pushing

variable (hρ : Steady old ρ)
include hρ

theorem pushFrame (h : Match old ρ m n) {f : Frame P V σ} (hf : f.isNested = false) :
    Match old ρ (m.pushFrame i f) (n.pushFrame i f) :=
  h.move rfl rfl fun hi => hρ.push f hf (h.standing hi)

theorem enter (h : Match old ρ m n) (config : Config) :
    Match old ρ (m.enter i config) (n.enter i config) := by
  have hf : ∀ r : Routine P V σ, (if r.depth < maxNested then
        { r with stack := .nested r.depth r.thread :: r.stack, depth := r.depth + 1 }
      else { r with stack := .nested r.depth r.thread :: r.stack, depth := 1, thread := config.nestedName }) =
      r.restand (r.standing.enter config) := by
    intro r
    by_cases hdepth : r.depth < maxNested
    · simp [Standing.enter, Routine.standing, Routine.restand, hdepth]
    · simp [Standing.enter, Routine.standing, Routine.restand, hdepth]
  exact h.move (hf _) (hf _) fun hi => hρ.enter config (h.standing hi)

theorem grow (h : Match old ρ m n) {r : Routine P V σ} {name : String} (hr : r.standing = .start name) :
    Match old ρ (m.grow r) (n.grow r) := by
  obtain ⟨S, rfl, hS⟩ := h.differ
  have hsize : (m.grow r).routines.size = m.routines.size + 1 := by simp [Machine.grow]
  refine ⟨hsize ▸ Nat.le_succ_of_le h.old_le, Function.update S m.next (.start name), ?_, fun j hj => ?_⟩
  · -- The routine that is made is not among the old ones, so they stand where they stood.
    have hold : m.restand (Function.update S m.next (.start name)) = m.restand S :=
      restand_congr fun j hj => Function.update_of_ne (by rintro rfl; exact lt_irrefl _ hj) _ _
    have hroutines := congrArg Machine.routines hold
    simp only [Machine.grow, restand, Array.mapIdx_push] at hroutines ⊢
    rw [hroutines, ← Machine.next, Function.update_self, ← hr, Routine.restand_standing]
  · rw [routine_grow]
    split
    · next hnext =>
      rw [hr, hnext, Function.update_self]
      exact hρ.start _ h.old_le
    · next hnext =>
      have hne : j.val ≠ m.routines.size := fun heq => hnext (congrArg RoutineId.mk heq)
      rw [Function.update_of_ne hnext]
      exact hS j (by omega)

theorem spawn (h : Match old ρ m n) (config : Config) (s : Start P V) (scope : Option (Scope P)) :
    Match old ρ (m.spawn config s scope).2 (n.spawn config s scope).2 := by
  unfold Machine.spawn
  rw [h.size]
  exact h.grow hρ rfl

theorem resumeOn (h : Match old ρ m n) (x : Parcel V) :
    Match old ρ (m.resumeOn i p c x) (n.resumeOn i p c x) := by
  unfold Machine.resumeOn
  rw [h.registry]
  have hregistered := h.still (·.setRegistry p ((m.registry p).push c)) (by simp) (by simp)
  exact (hregistered.pushFrame hρ (f := .registered p c) rfl).still (·.resume i c x) (by simp) (by simp)

theorem cancel (h : Match old ρ m n) (answer : V) :
    Match old ρ (m.cancel i c answer) (n.cancel i c answer) := by
  have hstatus : n.status c = m.status c := by
    obtain ⟨S, rfl, -⟩ := h.differ
    exact status_restand
  unfold Machine.cancel
  rw [hstatus]
  cases m.status c with
  | suspending =>
    have hset := h.still (·.setStatus c .canceled) (by simp) (by simp)
    have hpushed := hset.pushFrame hρ (i := i) (f := .canceling answer) rfl
    have hsent := hpushed.still (·.sendInput c .cancel) (by simp) (by simp)
    exact hsent.still (·.listen i c) (by simp) (by simp)
  | _ => exact h.still (·.fail i _) (by simp) (by simp)

theorem enterScope (h : Match old ρ m n) (b : Boxed V) :
    Match old ρ (m.enterScope i s b) (n.enterScope i s b) := by
  unfold Machine.enterScope
  rw [h.scope]
  cases (m.routine s).scope with
  | none => exact h.still (·.fail i _) (by simp) (by simp)
  | some scope =>
    have hentered := (h.pushFrame hρ (i := i) (f := .holding s) rfl).enter hρ (i := i) scope.ctx.config
    exact (hentered.pushFrame hρ (f := .dispatch s) rfl).resumeOn hρ _

theorem openScope (h : Match old ρ m n) (scope : Scope P) (st : Start P V) :
    Match old ρ (m.openScope i scope st) (n.openScope i scope st) := by
  have hid : (n.spawn scope.ctx.config st (some scope)).1 = (m.spawn scope.ctx.config st (some scope)).1 :=
    congrArg RoutineId.mk h.size
  unfold Machine.openScope
  dsimp only
  rw [hid]
  exact ((h.spawn hρ scope.ctx.config st (some scope)).still (·.hold _) (by simp) (by simp)).enterScope hρ _

theorem continueWith (h : Match old ρ m n) (k : Cont) (b : Boxed V) :
    Match old ρ (m.continueWith i k b) (n.continueWith i k b) := by
  cases k with
  | direct s => exact h.enterScope hρ b
  | through s inner =>
    unfold Machine.continueWith
    dsimp only
    rw [h.scope]
    cases (m.routine s).scope with
    | none => exact h.still (·.fail i _) (by simp) (by simp)
    | some scope =>
      have hheld := h.still (·.hold s) (by simp) (by simp)
      exact (hheld.pushFrame hρ (f := .holding s) rfl).openScope hρ _ _

theorem perform (h : Match old ρ m n) (ctx : Context) (e : Effect) (b : Boxed V) :
    Match old ρ (m.perform i ctx e b) (n.perform i ctx e b) :=
  (h.pushFrame hρ (f := .performing) rfl).still (·.suspend i ctx.place (.signal (.perform e b)))
    (by simp) (by simp)

theorem callOwning (h : Match old ρ m n) (k : Cont) (d : ContId → Code P V σ V) :
    Match old ρ (m.callOwning i k d) (n.callOwning i k d) := by
  have hkept := h.keepCont k
  have hplace : (n.keepCont k).1 = (m.keepCont k).1 := by
    obtain ⟨S, rfl, -⟩ := h.differ
    rfl
  unfold Machine.callOwning
  dsimp only
  rw [hplace]
  exact (hkept.pushFrame hρ (f := .owning (m.keepCont k).1) rfl).still (·.setControl i _) (by simp) (by simp)

theorem claim (h : Match old ρ m n) (scope : Scope P) (e : Effect) (b : Boxed V) (k : Cont) :
    Match old ρ (m.claim code i scope e b k) (n.claim code i scope e b k) := by
  unfold Machine.claim
  split
  · exact h.callOwning hρ k _
  · exact h.callOwning hρ k _
  · exact (h.still (·.release k) (by simp) (by simp)).still (·.fail i _) (by simp) (by simp)
  · exact (h.pushFrame hρ (f := .forwarding e) rfl).still (·.suspend i _ _) (by simp) (by simp)

theorem conclude (h : Match old ρ m n) (scope : Scope P) (b : Boxed V) :
    Match old ρ (m.conclude code i s scope b) (n.conclude code i s scope b) := by
  unfold Machine.conclude
  split
  · exact h.still (·.reply i _) (by simp) (by simp)
  · exact h.still (·.setControl i _) (by simp) (by simp)
  · refine Match.enterScope hρ ?_ _
    exact h.still (·.update s fun r => { r with scope := some { scope with finish := .into none } })
      (fun _ => update_restand fun _ => rfl) (size_update ..)
  · exact h.still (·.fail i _) (by simp) (by simp)
  · exact h.still (·.fail i _) (by simp) (by simp)

theorem dispatch (h : Match old ρ m n) (x : Signal V) :
    Match old ρ (m.dispatch code i s x) (n.dispatch code i s x) := by
  unfold Machine.dispatch
  rw [h.scope]
  split
  · exact (h.still (·.hold s) (by simp) (by simp)).claim hρ _ _ _ _
  · exact (h.still (·.hold s) (by simp) (by simp)).claim hρ _ _ _ _
  · exact h.conclude hρ _ _
  · exact h.still (·.fail i _) (by simp) (by simp)

/-! ## Steps -/

/-- The answer to a question about the thread looks at the standing; no other one does. -/
theorem answer (h : Match old ρ m n) (q : Query P)
    (hthread : q = .thread → (n.routine i).thread = (m.routine i).thread) :
    (n.answer i q).1 = (m.answer i q).1 ∧ Match old ρ (m.answer i q).2 (n.answer i q).2 := by
  obtain ⟨S, rfl, hS⟩ := h.differ
  cases q with
  | spawn config body => exact ⟨congrArg RoutineId.mk h.size, h.spawn hρ config (.body body) none⟩
  | skip => exact ⟨rfl, h.grow hρ rfl⟩
  | status c => exact ⟨status_restand, h⟩
  | busy c => exact ⟨isBusy_restand, h⟩
  | abandon c =>
    refine ⟨rfl, ?_⟩
    simp only [Machine.answer, isCoroutine_restand, isBusy_restand]
    split
    · exact h.still (·.abandon c) (by simp) (by simp)
    · exact h
  | openRegistry =>
    exact ⟨rfl, h.still (fun m => { m with registries := m.registries.push .empty }) (fun _ => rfl) rfl⟩
  | registered r => exact ⟨registry_restand (p := .registry r), h⟩
  | register r op =>
    simp only [Machine.answer, registry_restand]
    exact ⟨trivial, h.still (·.setRegistry (.registry r) _) (by simp) (by simp)⟩
  | openContext config =>
    exact ⟨rfl, h.still (fun m => { m with contexts := m.contexts.push .empty }) (fun _ => rfl) rfl⟩
  | pending ctx => exact ⟨congrArg Registry.size registry_restand, h⟩
  | holds k => exact ⟨rfl, h⟩
  | keep k =>
    have htaken := h.takeCont k
    rcases htake : m.takeCont k with ⟨_ | c, m'⟩
    all_goals simp only [htake, takeCont_restand] at htaken
    all_goals simp only [Machine.answer, takeCont_restand, htake]
    · exact ⟨trivial, htaken⟩
    · exact ⟨rfl, htaken.keepCont c⟩
  | discard k => exact ⟨rfl, h.still (·.releaseAt k) (by simp) (by simp)⟩
  | thread => exact ⟨hthread rfl, h⟩
  | declare => exact ⟨rfl, h.still (fun m => { m with effects := m.effects + 1 }) (fun _ => rfl) rfl⟩

theorem onContext (h : Match old ρ m n) (scope : Scope P) (body : P) :
    Match old ρ (m.onContext i scope body) (n.onContext i scope body) := by
  have hcontexts : n.contexts = m.contexts := by
    obtain ⟨S, rfl, -⟩ := h.differ
    rfl
  unfold Machine.onContext
  rw [hcontexts]
  split
  · exact h.openScope hρ scope _
  · exact h.still (·.fail i _) (by simp) (by simp)

theorem begin (h : Match old ρ m n) (a : Act P V) :
    Match old ρ (m.begin code i a) (n.begin code i a) := by
  cases a with
  | call p entry => exact h.still (·.setControl i _) (by simp) (by simp)
  | resume c v =>
    exact h.onCoroutine (·.resume i c (.plain v)) (h.still (·.resume i c (.plain v)) (by simp) (by simp))
  | resumeOn r c v =>
    exact h.onCoroutine (·.resumeOn i (.registry r) c (.plain v)) (h.resumeOn hρ _)
  | cancel c answer => exact h.onCoroutine (·.cancel i c answer) (h.cancel hρ answer)
  | dispose c answer =>
    exact h.onCoroutine (·.dispose i c answer)
      (h.still (·.dispose i c answer) (fun _ => dispose_restand answer) (by simp))
  | yield c v =>
    exact h.onCoroutine (·.yield i c (.plain v)) (h.still (·.yield i c (.plain v)) (by simp) (by simp))
  | suspend r v =>
    simp only [Machine.begin]
    rw [h.isCoroutine]
    split
    · exact h.still (·.suspend i _ _) (by simp) (by simp)
    · exact h.still (·.fail i _) (by simp) (by simp)
  | perform ctx e v => exact h.perform hρ ctx _ _
  | raise ctx cause => exact h.perform hρ ctx _ _
  | handle ctx handler body => exact h.onContext hρ _ _
  | tryWith ctx arms body => exact h.onContext hρ _ _
  | continueWith k v =>
    have htaken := h.takeCont k
    obtain ⟨S, rfl, -⟩ := h.differ
    rcases htake : m.takeCont k with ⟨_ | c, m'⟩
    all_goals simp only [htake, takeCont_restand] at htaken
    all_goals simp only [Machine.begin, takeCont_restand, htake]
    · exact htaken.still (·.fail i _) (by simp) (by simp)
    · exact htaken.continueWith hρ c _

theorem exec (h : Match old ρ m n) (c : Code P V σ V)
    (hthread : ∀ next, c = .ask .thread next → (n.routine i).thread = (m.routine i).thread) :
    Match old ρ (m.exec code i c) (n.exec code i c) := by
  cases c with
  | pure v => exact h.still (·.reply i _) (by simp) (by simp)
  | fail f => exact h.still (·.fail i f) (by simp) (by simp)
  | panic p => exact h.still (·.reply i _) (by simp) (by simp)
  | act a next => exact (h.pushFrame hρ (f := .next next) rfl).begin hρ a
  | ask q next =>
    obtain ⟨hanswer, hafter⟩ := h.answer hρ q fun hq => by
      subst hq
      exact hthread next rfl
    simp only [Machine.exec]
    rw [hanswer]
    exact hafter.still (·.setControl i _) (by simp) (by simp)
  | access change next =>
    have hstore : n.store = m.store := by
      obtain ⟨S, rfl, -⟩ := h.differ
      rfl
    simp only [Machine.exec]
    rw [hstore]
    have hstored := h.still (fun m => { m with store := change m.store }) (fun _ => rfl) rfl
    rw [hstore] at hstored
    exact hstored.still (·.setControl i _) (by simp) (by simp)

theorem start (h : Match old ρ m n) (s : Start P V) (x : Parcel V) :
    Match old ρ (m.start code i s x) (n.start code i s x) := by
  cases s with
  | body p =>
    cases x with
    | plain v => exact h.still (·.setControl i _) (by simp) (by simp)
    | boxed b => exact h.still (·.fail i _) (by simp) (by simp)
    | signal y => exact h.still (·.fail i _) (by simp) (by simp)
  | handled p => exact (h.pushFrame hρ (f := .handledBody) rfl).still (·.setControl i _) (by simp) (by simp)
  | rejoin k b => exact (h.pushFrame hρ (f := .rejoining) rfl).continueWith hρ k b

/-- A frame that is not of a nested call does not look at the standing. -/
theorem unwind (h : Match old ρ m n) (o : Outcome V (Parcel V)) {f : Frame P V σ}
    (hf : f.isNested = false) : Match old ρ (m.unwind code i o f) (n.unwind code i o f) := by
  cases f with
  | next k => exact h.still (·.setControl i _) (by simp) (by simp)
  | registered r c =>
    simp only [Machine.unwind]
    rw [h.registry]
    exact (h.still (·.setRegistry r _) (by simp) (by simp)).still (·.reply i o) (by simp) (by simp)
  | nested depth thread => cases hf
  | dispatch s =>
    simp only [Machine.unwind]
    split
    · exact h.dispatch hρ _
    · exact h.still (·.fail i _) (by simp) (by simp)
    · exact h.still (·.reply i o) (by simp) (by simp)
  | holding s => exact (h.still (·.letGo s) (by simp) (by simp)).still (·.reply i o) (by simp) (by simp)
  | owning k => exact (h.still (·.releaseAt k) (by simp) (by simp)).still (·.reply i o) (by simp) (by simp)
  | canceling answer =>
    simp only [Machine.unwind]
    split
    · exact (h.still (·.releaseParcel _) (by simp) (by simp)).still (·.reply i _) (by simp) (by simp)
    · exact h.still (·.reply i _) (by simp) (by simp)
    · exact h.still (·.reply i o) (by simp) (by simp)
  | _ =>
    simp only [Machine.unwind]
    split <;> exact h.still (·.reply i _) (by simp) (by simp)

/-- The same routine makes a step in both machines. It must not ask for its thread, unless that is the same,
nor give an outcome to the frame of a nested call. -/
theorem stepOf (h : Match old ρ m n)
    (hthread : ∀ next, (m.routine i).control = .running (.ask .thread next) →
      (n.routine i).thread = (m.routine i).thread)
    (hstack : ∀ o, (m.routine i).control = .returning o →
      ((m.routine i).stack = [] ∧ (n.routine i).stack = []) ∨
      ∃ f st st', f.isNested = false ∧ (m.routine i).stack = f :: st ∧ (n.routine i).stack = f :: st' ∧
        ρ i { (m.routine i).standing with stack := st } { (n.routine i).standing with stack := st' }) :
    Match old ρ (m.stepOf code i) (n.stepOf code i) := by
  unfold Machine.stepOf
  rw [h.control]
  cases hc : (m.routine i).control with
  | starting s x => exact h.start hρ s x
  | running c =>
    refine h.exec hρ c fun next hask => hthread next ?_
    rw [hc, hask]
  | returning o =>
    rcases hstack o hc with ⟨hm, hn⟩ | ⟨f, st, st', hf, hm, hn, hρ'⟩
    · simp only [hm, hn]
      exact h.still (·.finish i o) (fun _ => finish_restand o) (by simp)
    · simp only [hm, hn]
      exact (h.move rfl rfl fun _ => hρ').unwind hρ o hf
  | _ => exact h.still (·.pause i) (by simp) (by simp)

end Pushing

end Match

end Machine

end OneShot
