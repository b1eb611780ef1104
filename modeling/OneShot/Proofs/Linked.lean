import OneShot.Proofs.Sound

/-!
# How single changes keep the links

Each lemma is about one kind of change to a machine: what a routine at work does to itself, what
happens to the slots and statuses of coroutines that code has made, and how a routine that waits is
answered. What a step does to a handled body as a whole is in the modules after the counts.
-/

namespace OneShot

variable {P V σ : Type}

/-! ## Routines that are alike -/

/-- The scopes differ in the number of holders at most, and in that the second one has given its
value away already. -/
structure Scope.Alike (c c' : Scope P) : Prop where
  ctx : c'.ctx = c.ctx
  clauses : c'.clauses = c.clauses
  mark : c'.mark = c.mark
  finish : ∀ t, c'.finish = .into (some t) → c.finish = .into (some t)

/-- The routines differ in their scopes, depths and threads at most. -/
structure Routine.Alike (r r' : Routine P V σ) : Prop where
  status : r'.status = r.status
  inbox : r'.inbox = r.inbox
  outbox : r'.outbox = r.outbox
  joiners : r'.joiners = r.joiners
  control : r'.control = r.control
  stack : r'.stack = r.stack
  scope : ∀ c', r'.scope = some c' → ∃ c, r.scope = some c ∧ c.Alike c'
  isSome : r'.scope.isSome = r.scope.isSome

theorem Routine.Alike.role {r r' : Routine P V σ} (h : r.Alike r') : r'.role = r.role := by
  unfold Routine.role
  cases hc : r'.scope with
  | none =>
    have hs := h.isSome
    rw [hc] at hs
    have hnone : r.scope = none := by simpa using hs.symm
    rw [hnone]
  | some c' =>
    obtain ⟨c, hc', ha⟩ := h.scope c' hc
    rw [hc', Option.map_some, Option.map_some, ha.mark]

/-- The routine, with so many holders of its scope. -/
def Routine.withHolders (n : Nat) (r : Routine P V σ) : Routine P V σ :=
  { r with scope := r.scope.map fun c => { c with holders := n } }

/-- A suspended handled body that is given up. -/
def Routine.closed (r : Routine P V σ) : Routine P V σ :=
  { r with status := .canceled, inbox := .empty, control := .returning (.failure .canceled) }

theorem Routine.alike_refl (r : Routine P V σ) : r.Alike r :=
  ⟨rfl, rfl, rfl, rfl, rfl, rfl, fun c hc => ⟨c, hc, rfl, rfl, rfl, fun _ => id⟩, rfl⟩

theorem Routine.alike_withHolders (n : Nat) (r : Routine P V σ) : r.Alike (r.withHolders n) := by
  refine ⟨rfl, rfl, rfl, rfl, rfl, rfl, ?_, by simp [withHolders]⟩
  intro c' hc'
  simp only [withHolders, Option.map_eq_some_iff] at hc'
  obtain ⟨c, hc, rfl⟩ := hc'
  exact ⟨c, hc, rfl, rfl, rfl, fun _ => id⟩

namespace Machine

open Control

variable {m m' : Machine P V σ} {w : Option RoutineId} {i c r s : RoutineId}

/-! ## Looking at changed routines -/

theorem routine_update_ite (h : i.val < m.routines.size) (f : Routine P V σ → Routine P V σ)
    (j : RoutineId) :
    (m.update i f).routine j = if j = i then f (m.routine i) else m.routine j := by
  by_cases hj : j = i
  · subst hj
    simp [routine_update_self h]
  · simp [hj, routine_update_of_ne (Ne.symm hj)]

theorem routine_of_size_le (h : m.routines.size ≤ i.val) : m.routine i = .absent := by
  simp [routine, Array.getD, Nat.not_lt.2 h]

/-- Changing a routine that does not exist changes nothing. -/
theorem routine_update_of_size_le (h : m.routines.size ≤ i.val)
    (f : Routine P V σ → Routine P V σ) (j : RoutineId) :
    (m.update i f).routine j = m.routine j := by
  rw [routine_update, if_neg]
  rintro ⟨rfl, hlt⟩
  omega

theorem lt_of_ne_ended (h : (m.routine i).control ≠ .ended) : i.val < m.routines.size := by
  by_contra hge
  rw [routine_of_size_le (Nat.le_of_not_lt hge)] at h
  exact h rfl

theorem lt_of_isActive (h : (m.routine i).control.isActive = true) : i.val < m.routines.size :=
  lt_of_ne_ended (ne_ended_of_isActive h)

theorem lt_of_scope (h : (m.routine i).scope.isSome) : i.val < m.routines.size := by
  by_contra hge
  rw [routine_of_size_le (Nat.le_of_not_lt hge)] at h
  simp [Routine.absent] at h

@[simp] theorem size_setRegistry (m : Machine P V σ) (p : Place) (g : Registry RoutineId) :
    (m.setRegistry p g).routines.size = m.routines.size := by
  cases p <;> rfl

@[simp] theorem size_contexts_setRegistry (m : Machine P V σ) (p : Place)
    (g : Registry RoutineId) : (m.setRegistry p g).contexts.size = m.contexts.size := by
  cases p <;> simp [setRegistry]

@[simp] theorem contexts_update (m : Machine P V σ) (i : RoutineId)
    (f : Routine P V σ → Routine P V σ) : (m.update i f).contexts = m.contexts := rfl

/-- What `Listens` depends on. -/
theorem Listens.congr {j : RoutineId} (h : m.Listens j c)
    (hscope : (m'.routine c).scope = (m.routine c).scope)
    (hout : (m.routine c).scope.isSome → (m'.routine c).outbox = (m.routine c).outbox)
    (hstack : (m'.routine j).stack = (m.routine j).stack)
    (hrole : (m'.routine j).role = (m.routine j).role) : m'.Listens j c := by
  unfold Listens at *
  rw [hscope, hstack, hrole]
  split at h
  · next scope hs =>
    rw [hout (by simp [hs])]
    exact h
  · exact h

/-- What happens to a routine that exists is all that counts. -/
theorem update_congr {f g : Routine P V σ → Routine P V σ} (h : f (m.routine i) = g (m.routine i)) :
    m.update i f = m.update i g := by
  unfold update
  congr 1
  apply Array.ext
  · simp
  · intro j hj hj'
    have hlt : j < m.routines.size := by simpa using hj
    simp only [Array.getElem_modify]
    split
    · next hij =>
      subst hij
      simpa [routine, Array.getD, hlt] using h
    · rfl

theorem update_update (m : Machine P V σ) (i : RoutineId) (f g : Routine P V σ → Routine P V σ) :
    (m.update i f).update i g = m.update i fun r => g (f r) := by
  unfold update
  congr 1
  apply Array.ext
  · simp
  · intro j hj hj'
    simp only [Array.getElem_modify]
    split <;> rfl

theorem routine_update_alike {f : Routine P V σ → Routine P V σ}
    (h : (m.routine i).Alike (f (m.routine i))) (j : RoutineId) :
    (m.routine j).Alike ((m.update i f).routine j) := by
  rw [routine_update]
  split
  · next hij => exact hij.1 ▸ h
  · exact Routine.alike_refl _

theorem Listens.alike {j : RoutineId} (h : m.Listens j c)
    (hc : (m.routine c).Alike (m'.routine c)) (hj : (m.routine j).Alike (m'.routine j)) :
    m'.Listens j c := by
  unfold Listens at *
  rw [hj.role, hj.stack, hc.outbox]
  split
  · next c' hs =>
    obtain ⟨c, hs', ha⟩ := hc.scope c' hs
    rw [hs'] at h
    rwa [ha.ctx]
  · next hs =>
    have hnone : (m.routine c).scope = none := by simpa [hs] using hc.isSome
    rwa [hnone] at h

theorem HasEnded.alike {o : Outcome V (Parcel V)} (h : m.HasEnded s o)
    (ha : (m.routine s).Alike (m'.routine s)) : m'.HasEnded s o :=
  ⟨by rw [ha.isSome, h.1], by rw [ha.control, h.2.1], by rw [ha.role]; exact h.2.2⟩

/-- A handled body that has ended does not see what other routines do. -/
theorem HasEnded.stays {o : Outcome V (Parcel V)} (h : m.HasEnded s o)
    (hr : ∀ l, (m.routine l).scope.isSome → (m.routine l).control = .ended →
      m'.routine l = m.routine l) : m'.HasEnded s o :=
  h.alike (by rw [hr s h.1 h.2.1]; exact Routine.alike_refl _)

namespace Linked

/-- Who listens to a handled body gets its output, and stands where it takes the signals of the
body. -/
theorem takesSignals (h : m.Linked w) {j : RoutineId} {scope : Scope P}
    (hscope : (m.routine s).scope = some scope) (hj : (m.routine j).control = .listening s) :
    (m.routine s).outbox = .awaited j ∧
      ∃ st, (m.routine j).stack = .registered scope.ctx.place s :: .dispatch s :: st ∧
        Entered (m.routine j).role s st := by
  have hl := h.listening j s hj
  simpa only [Listens, hscope] using hl

theorem outbox_of_listening (h : m.Linked w) {j : RoutineId} (hs : (m.routine s).scope.isSome)
    (hj : (m.routine j).control = .listening s) : (m.routine s).outbox = .awaited j := by
  obtain ⟨scope, hscope⟩ := Option.isSome_iff_exists.1 hs
  exact (h.takesSignals hscope hj).1

/-- One routine at most listens to a handled body. -/
theorem eq_of_listening (h : m.Linked w) {j j' : RoutineId} (hs : (m.routine s).scope.isSome)
    (hj : (m.routine j).control = .listening s) (hj' : (m.routine j').control = .listening s) :
    j = j' :=
  Slot.awaited.inj ((h.outbox_of_listening hs hj).symm.trans (h.outbox_of_listening hs hj'))

/-- The links do not depend on the counts. -/
theorem alike (h : m.Linked w) (ha : ∀ j, (m.routine j).Alike (m'.routine j))
    (hsize : m.routines.size ≤ m'.routines.size) (hctx : m.contexts.size ≤ m'.contexts.size)
    (hready : ∀ j, (m.routine j).control.isActive = true → j ∈ m.ready → j ∈ m'.ready) :
    m'.Linked w where
  working i hi := (ha i).control ▸ h.working i hi
  posture j hj := by
    have hp := h.posture j hj
    unfold Routine.Posture at hp ⊢
    rw [(ha j).control, (ha j).stack, (ha j).role]
    split at hp <;> try exact hp
    obtain ⟨hst, hs, hb⟩ := hp
    exact ⟨hst, by simpa [hs] using (ha j).isSome, hb⟩
  phase s hs := by
    rw [(ha s).isSome] at hs
    have hp := h.phase s hs
    obtain ⟨hstatus, hinbox, houtbox, hjoiners, hcontrol, hstack, -, -⟩ := ha s
    have hrole := (ha s).role
    constructor <;> grind [hp.alone, hp.begun, hp.running, hp.suspending, hp.canceled, hp.atEnd]
  outbox c j hc := by
    rw [(ha c).outbox] at hc
    rw [(ha j).control, h.outbox c j hc]
  listening j c hj := by
    rw [(ha j).control] at hj
    exact (h.listening j c hj).alike (ha c) (ha j)
  inbox c r hc := by
    rw [(ha c).inbox] at hc
    rw [(ha r).control, (ha c).control]
    exact h.inbox c r hc
  reading r c hr := by
    rw [(ha r).control] at hr
    rw [(ha c).isSome, (ha r).role, (ha r).stack]
    exact h.reading r c hr
  present j c hj := by
    rw [(ha j).control] at hj
    exact (h.present j c hj).trans_le hsize
  slots c hc := by
    rw [(ha c).inbox, (ha c).outbox]
    refine h.slots c ?_
    simpa [hc] using (ha c).isSome.symm
  ending j hj o s ho hn hs := by
    rw [(ha j).control] at ho
    rw [(ha j).stack] at hs
    obtain ⟨h1, h2, h3⟩ := h.ending j hj o s ho hn hs
    exact ⟨by rw [(ha s).isSome, h1], by rw [(ha s).control, h2], by rw [(ha s).role]; exact h3⟩
  outer s c' t hs ht := by
    obtain ⟨c, hc, hcc⟩ := (ha s).scope c' hs
    exact h.outer s c t hc (hcc.finish t ht)
  opened s c' hs := by
    obtain ⟨c, hc, hcc⟩ := (ha s).scope c' hs
    rw [hcc.ctx]
    exact (h.opened s c hc).trans_le hctx
  clauses s c' hs := by
    obtain ⟨c, hc, hcc⟩ := (ha s).scope c' hs
    rw [hcc.clauses]
    exact h.clauses s c hc
  ready j hj := by
    rw [(ha j).control] at hj
    exact hready j hj (h.ready j hj)
  main := ⟨by simpa [h.main.1] using (ha .main).isSome, h.main.2.trans_le hsize⟩

theorem congr (h : m.Linked w) (hr : ∀ j, m'.routine j = m.routine j)
    (hsize : m.routines.size ≤ m'.routines.size) (hctx : m.contexts.size ≤ m'.contexts.size)
    (hready : ∀ j, (m.routine j).control.isActive = true → j ∈ m.ready → j ∈ m'.ready) :
    m'.Linked w :=
  h.alike (fun j => by rw [hr]; exact Routine.alike_refl _) hsize hctx hready

/-- A routine takes up work. -/
theorem startWork (h : m.Linked none) (hi : (m.routine i).control.isActive = true) :
    m.Linked (some i) where
  working := by rintro _ ⟨⟩; exact hi
  posture j _ := h.posture j (by simp)
  phase := h.phase
  outbox := h.outbox
  listening := h.listening
  inbox := h.inbox
  reading := h.reading
  present := h.present
  slots := h.slots
  ending j _ := h.ending j (by simp)
  outer := h.outer
  opened := h.opened
  clauses := h.clauses
  ready := h.ready
  main := h.main

/-- A routine has done its work: what it does next goes with its stack. -/
theorem finishWork (h : m.Linked (some i)) (hp : (m.routine i).Posture)
    (he : ∀ o s, (m.routine i).control = .returning o → o.signal?.bind Signal.need? = none →
      awaitedScope? (m.routine i).stack = some s → m.HasEnded s o) : m.Linked none where
  working := by simp
  posture j _ := by
    by_cases hj : i = j
    · exact hj ▸ hp
    · exact h.posture j (by simpa using hj)
  phase := h.phase
  outbox := h.outbox
  listening := h.listening
  inbox := h.inbox
  reading := h.reading
  present := h.present
  slots := h.slots
  ending j _ := by
    by_cases hj : i = j
    · exact hj ▸ he
    · exact h.ending j (by simpa using hj)
  outer := h.outer
  opened := h.opened
  clauses := h.clauses
  ready := h.ready
  main := h.main

/-- A routine at work changes its stack, or says what it does next. -/
theorem updateWorker (h : m.Linked (some i)) {f : Routine P V σ → Routine P V σ}
    (hcontrol : (f (m.routine i)).control.isActive = true)
    (hstatus : (f (m.routine i)).status = (m.routine i).status)
    (hinbox : (f (m.routine i)).inbox = (m.routine i).inbox)
    (houtbox : (f (m.routine i)).outbox = (m.routine i).outbox)
    (hjoiners : (f (m.routine i)).joiners = (m.routine i).joiners)
    (hscope : (f (m.routine i)).scope = (m.routine i).scope) :
    (m.update i f).Linked (some i) := by
  have hactive := h.working i rfl
  have hr := routine_update_ite (lt_of_isActive hactive) f
  have hphase : (m.routine i).scope.isSome → (f (m.routine i)).Phase i := fun hi =>
    (h.phase i hi).goOn (isUnderWay_of_isActive hactive i) (isUnderWay_of_isActive hcontrol i)
      hstatus hinbox houtbox hjoiners
  constructor
  case working => grind
  case posture =>
    have hl := h.posture
    grind
  case phase =>
    have hl := h.phase
    grind
  case outbox =>
    have hl := h.outbox
    grind [ne_listening_of_isActive]
  case listening =>
    have hl := h.listening
    grind [ne_listening_of_isActive, Listens, Routine.role]
  case inbox =>
    have hl := h.inbox
    grind [isFresh_of_isActive, ne_reading_of_isActive]
  case reading =>
    have hl := h.reading
    grind [ne_reading_of_isActive, Routine.role]
  case present =>
    have hl := h.present
    grind [size_update, ne_listening_of_isActive, ne_reading_of_isActive]
  case slots =>
    have hl := h.slots
    grind
  case ending =>
    have hl := h.ending
    grind [ne_ended_of_isActive, HasEnded, Routine.role]
  case outer =>
    have hl := h.outer
    grind
  case opened => exact fun s scope hs => h.opened s scope (by grind)
  case clauses =>
    have hl := h.clauses
    grind
  case ready =>
    have hl := h.ready
    grind [ready_update]
  case main =>
    have hl := h.main
    grind [size_update]

/-- The slots and the status of a coroutine that code has made change. -/
theorem updateSlots (h : m.Linked w) (hc : (m.routine c).scope = none)
    {f : Routine P V σ → Routine P V σ}
    (hcontrol : (f (m.routine c)).control = (m.routine c).control)
    (hstack : (f (m.routine c)).stack = (m.routine c).stack)
    (hscope : (f (m.routine c)).scope = (m.routine c).scope)
    (hin : ∀ r, (f (m.routine c)).inbox = .awaited r → (m.routine c).inbox = .awaited r)
    (hout : ∀ j, (f (m.routine c)).outbox = .awaited j → (m.routine c).outbox = .awaited j)
    (hfullIn : ∀ a, (f (m.routine c)).inbox = .full (.parcel a) → ∃ v, a = .plain v)
    (hfullOut : ∀ o, (f (m.routine c)).outbox = .full o → o.IsPlain) :
    (m.update c f).Linked w := by
  rcases Nat.lt_or_ge c.val m.routines.size with hlt | hge
  · have hr := routine_update_ite hlt f
    constructor
    case working =>
      have hl := h.working
      grind
    case posture =>
      have hl := h.posture
      grind [Routine.Posture, Routine.role]
    case phase =>
      have hl := h.phase
      grind
    case outbox =>
      have hl := h.outbox
      grind
    case listening =>
      have hl := h.listening
      grind [Listens, Routine.role]
    case inbox =>
      have hl := h.inbox
      grind
    case reading =>
      have hl := h.reading
      grind [Routine.role]
    case present =>
      have hl := h.present
      grind [size_update]
    case slots =>
      have hl := h.slots
      grind
    case ending =>
      have hl := h.ending
      grind [HasEnded, Routine.role]
    case outer =>
      have hl := h.outer
      grind
    case opened => exact fun s scope hs => h.opened s scope (by grind)
    case clauses =>
      have hl := h.clauses
      grind
    case ready =>
      have hl := h.ready
      grind [ready_update]
    case main =>
      have hl := h.main
      grind [size_update]
  · exact h.congr (routine_update_of_size_le hge f) (by simp) le_rfl fun _ _ hj => hj

/-- A routine that waited goes on, or a body that has not begun ends. No slot is for it any more. -/
theorem awaken (h : m.Linked w) {o : Control P V σ} (hw : w ≠ some r)
    (hlt : r.val < m.routines.size)
    (ho : o.isActive = true ∨ o = .ended ∧ (m.routine r).scope = none)
    (hbegun : (m.routine r).scope.isSome → (m.routine r).control.isUnderWay r = true)
    (hin : ∀ c, (m.routine c).inbox ≠ .awaited r) (hout : ∀ c, (m.routine c).outbox ≠ .awaited r)
    (hp : Routine.Posture { m.routine r with control := o })
    (hend : ∀ o' s, o = .returning o' → o'.signal?.bind Signal.need? = none →
      awaitedScope? (m.routine r).stack = some s → m.HasEnded s o') :
    ((m.setControl r o).wake r).Linked w := by
  have hr : ∀ j, ((m.setControl r o).wake r).routine j =
      if j = r then { m.routine r with control := o } else m.routine j :=
    routine_update_ite hlt _
  have hphase : (m.routine r).scope.isSome →
      Routine.Phase r { m.routine r with control := o } := by
    intro hs
    have hactive : o.isActive = true := by grind
    exact (h.phase r hs).goOn (hbegun hs) (isUnderWay_of_isActive hactive r) rfl rfl rfl rfl
  constructor
  case working =>
    have hl := h.working
    grind
  case posture =>
    have hl := h.posture
    grind
  case phase =>
    have hl := h.phase
    grind
  case outbox =>
    have hl := h.outbox
    grind
  case listening =>
    have hl := h.listening
    grind [ne_listening_of_isActive, Listens, Routine.role]
  case inbox =>
    have hl := h.inbox
    grind
  case reading =>
    have hl := h.reading
    grind [ne_reading_of_isActive, Routine.role]
  case present =>
    have hl := h.present
    have hsize : ((m.setControl r o).wake r).routines.size = m.routines.size := size_update ..
    grind [size_update, ne_listening_of_isActive, ne_reading_of_isActive]
  case slots =>
    have hl := h.slots
    grind
  case ending =>
    have hl := h.ending
    grind [isUnderWay, HasEnded, Routine.role]
  case outer =>
    have hl := h.outer
    grind
  case opened => exact fun s scope hs => h.opened s scope (by grind)
  case clauses =>
    have hl := h.clauses
    grind
  case ready =>
    have hl := h.ready
    have hready : ((m.setControl r o).wake r).ready = m.ready ++ [r] := rfl
    grind
  case main =>
    have hl := h.main
    have hsize : ((m.setControl r o).wake r).routines.size = m.routines.size := size_update ..
    grind

/-- A routine at work waits at a slot of a coroutine that code has made, or for its end. -/
theorem block (h : m.Linked (some i)) {o : Control P V σ} {f : Routine P V σ → Routine P V σ}
    (hlt : c.val < m.routines.size) (hc : (m.routine c).scope = none)
    (hcontrol : ∀ r, (f r).control = r.control) (hstack : ∀ r, (f r).stack = r.stack)
    (hscope : ∀ r, (f r).scope = r.scope) (hstatus : ∀ r, (f r).status = r.status)
    (hin : ∀ r, (f (m.routine c)).inbox = .awaited r →
      (m.routine c).inbox = .awaited r ∨ r = i ∧ o = .reading c)
    (hout : ∀ j, (f (m.routine c)).outbox = .awaited j →
      (m.routine c).outbox = .awaited j ∨ j = i ∧ o = .listening c)
    (hfullIn : ∀ a, (f (m.routine c)).inbox = .full a → (m.routine c).inbox = .full a)
    (hfullOut : ∀ o, (f (m.routine c)).outbox = .full o → (m.routine c).outbox = .full o)
    (ho : (o = .reading c ∨ ∃ a, o = .joining c a) ∧
        Settled (m.routine i).role (m.routine i).stack ∨
      o = .listening c ∧ Listening (m.routine i).role (m.routine i).stack) :
    (((m.update c f).setControl i o).pause i).Linked none := by
  have hactive := h.working i rfl
  have hr : ∀ j, (((m.update c f).setControl i o).pause i).routine j =
      if j = i then { (if i = c then f (m.routine i) else m.routine i) with control := o }
      else if j = c then f (m.routine c) else m.routine j := by
    intro j
    have hi : i.val < (m.update c f).routines.size := by simpa using lt_of_isActive hactive
    rw [routine_pause, setControl, routine_update_ite hi, routine_update_ite hlt,
      routine_update_ite hlt]
    grind
  have hphase : (m.routine i).scope.isSome → Routine.Phase i { m.routine i with control := o } := by
    intro hs
    have hunder : o.isUnderWay i = true := by grind [isUnderWay]
    exact (h.phase i hs).goOn (isUnderWay_of_isActive hactive i) hunder rfl rfl rfl rfl
  constructor
  case working => simp
  case posture =>
    have hl := h.posture
    grind [Routine.Posture, Routine.role]
  case phase =>
    have hl := h.phase
    grind
  case outbox =>
    have hl := h.outbox
    grind [ne_listening_of_isActive]
  case listening =>
    intro j x hj
    have hscope' : ∀ x, ((((m.update c f).setControl i o).pause i).routine x).scope =
        (m.routine x).scope := by grind
    have hstack' : ∀ x, ((((m.update c f).setControl i o).pause i).routine x).stack =
        (m.routine x).stack := by grind
    have hrole' : ∀ x, ((((m.update c f).setControl i o).pause i).routine x).role =
        (m.routine x).role := fun x => by rw [Routine.role, hscope' x]; rfl
    by_cases hji : j = i
    · obtain rfl : x = c := by grind
      unfold Listens
      rw [hscope', hc, hrole', hstack']
      grind [Settled.listening]
    · exact (h.listening j x (by grind)).congr (hscope' x) (by grind) (hstack' j) (hrole' j)
  case inbox =>
    have hl := h.inbox
    grind [isFresh_of_isActive, ne_reading_of_isActive]
  case reading =>
    have hl := h.reading
    grind [ne_reading_of_isActive, Routine.role]
  case present =>
    have hl := h.present
    have hsize : (((m.update c f).setControl i o).pause i).routines.size = m.routines.size := by
      simp [pause, setControl]
    grind [size_update, ne_listening_of_isActive, ne_reading_of_isActive]
  case slots =>
    have hl := h.slots
    grind
  case ending =>
    have hl := h.ending
    grind [HasEnded, Routine.role, ne_ended_of_isActive]
  case outer =>
    have hl := h.outer
    grind
  case opened => exact fun s scope hs => h.opened s scope (by grind)
  case clauses =>
    have hl := h.clauses
    grind
  case ready =>
    have hl := h.ready
    have hready : (((m.update c f).setControl i o).pause i).ready = m.ready.erase i := rfl
    have hidle : o.isActive = false := by grind [isActive]
    intro j hj
    have hji : j ≠ i := by grind
    have hmem : j ∈ m.ready := hl j (by grind)
    rw [hready]
    exact (List.mem_erase_of_ne hji).2 hmem
  case main =>
    have hl := h.main
    have hsize : (((m.update c f).setControl i o).pause i).routines.size = m.routines.size := by
      simp [pause, setControl]
    grind

/-- A suspended handled body is given up. -/
theorem close (h : m.Linked w) (hs : (m.routine s).scope.isSome)
    (hstatus : (m.routine s).status = .suspending) :
    ((m.update s Routine.closed).wake s).Linked w := by
  obtain ⟨hinbox, houtbox, hcontrol, f, st, hst, hf, hsettled⟩ := (h.phase s hs).suspending hstatus
  have hr : ∀ j, ((m.update s Routine.closed).wake s).routine j =
      if j = s then (m.routine s).closed else m.routine j :=
    routine_update_ite (lt_of_scope hs) Routine.closed
  have hw : w ≠ some s := by
    rintro rfl
    have hactive := h.working s rfl
    rw [hcontrol] at hactive
    simp [isActive] at hactive
  have hfits : Fits (m.routine s).role (.failure .canceled) (m.routine s).stack := by
    rw [hst]
    cases f <;> simp [Frame.need?] at hf
    · exact ⟨trivial, hsettled⟩
    · exact ⟨trivial, hsettled⟩
  have hawaited : awaitedScope? (m.routine s).stack = none := by
    rw [hst]
    cases f <;> simp [Frame.need?] at hf <;> rfl
  have hphase : Routine.Phase s (m.routine s).closed := by
    constructor <;> simp [Routine.closed, Slot.isAwaited, isUnderWay, houtbox, (h.phase s hs).alone]
  have hposture : (m.routine s).closed.Posture := hfits
  have halone : ∀ c, (m.routine c).inbox = .awaited s → c = s := by
    have hl := h.inbox
    grind
  constructor
  case working =>
    have hl := h.working
    grind
  case posture =>
    have hl := h.posture
    grind
  case phase =>
    have hl := h.phase
    grind
  case outbox =>
    have hl := h.outbox
    grind [Routine.closed]
  case listening =>
    have hl := h.listening
    grind [Routine.closed, Listens, Routine.role]
  case inbox =>
    have hl := h.inbox
    grind [Routine.closed]
  case reading =>
    have hl := h.reading
    grind [Routine.closed, Routine.role]
  case present =>
    have hl := h.present
    have hsize : ((m.update s Routine.closed).wake s).routines.size = m.routines.size :=
      size_update ..
    grind [Routine.closed]
  case slots =>
    have hl := h.slots
    grind [Routine.closed]
  case ending =>
    have hl := h.ending
    grind [Routine.closed, HasEnded, Routine.role]
  case outer =>
    have hl := h.outer
    grind [Routine.closed]
  case opened => exact fun s scope hs => h.opened s scope (by grind [Routine.closed])
  case clauses =>
    have hl := h.clauses
    grind [Routine.closed]
  case ready =>
    have hl := h.ready
    have hready : ((m.update s Routine.closed).wake s).ready = m.ready ++ [s] := rfl
    grind
  case main =>
    have hl := h.main
    have hsize : ((m.update s Routine.closed).wake s).routines.size = m.routines.size :=
      size_update ..
    grind [Routine.closed]

end Linked

end Machine

end OneShot
