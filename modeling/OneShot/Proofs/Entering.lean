import OneShot.Proofs.Turns

/-!
# Entering scopes

A routine that enters a scope resumes its body and listens to it. This ends the step of the routine,
with the way to resume that it had in hand used up. A new scope is opened with a body that starts, and
takes over what is in hand. `enterScope_eq` and `openScope_eq` say what the machine is afterwards.
-/

namespace OneShot

variable {P V σ : Type}

/-- The routine in a nested call that takes the signal of scope `s`, and listens to its body. -/
def Routine.entering (s : RoutineId) (ctx : Context) (r : Routine P V σ) : Routine P V σ :=
  { r with
    control := .listening s
    stack := .registered ctx.place s :: .dispatch s :: .nested r.depth r.thread :: .holding s ::
      r.stack
    depth := if r.depth < Machine.maxNested then r.depth + 1 else 1
    thread := if r.depth < Machine.maxNested then r.thread else ctx.config.nestedName }

/-- The handled body that is resumed with a value, to which routine `i` listens. -/
def Routine.resumed (i : RoutineId) (b : Boxed V) (r : Routine P V σ) : Routine P V σ :=
  { r with
    status := .running
    inbox := .empty
    outbox := .awaited i
    control := .returning (.value (.boxed b)) }

/-- The body of a new scope to which routine `i` listens. -/
def Routine.opened (id i : RoutineId) (scope : Scope P) (start : Start P V) : Routine P V σ where
  status := .running
  inbox := .empty
  outbox := .awaited i
  joiners := []
  scope := some { scope with holders := 1 }
  control := .starting start (.boxed .start)
  stack := []
  depth := 0
  thread := scope.ctx.config.threadName id

namespace Machine

open Control

variable {m m' : Machine P V σ} {i s : RoutineId} {b : Boxed V} {scope : Scope P} {q : Mark}
  {hand : List Key} {loose due : List RoutineId} {start : Start P V}

/-! ## Entering a scope -/

theorem update_comm (hne : i ≠ s) (f g : Routine P V σ → Routine P V σ) :
    (m.update i f).update s g = (m.update s g).update i f := by
  have hval : i.val ≠ s.val := fun h => hne (by cases i; cases s; simp_all)
  unfold update
  congr 1
  apply Array.ext
  · simp
  · intro j hj hj'
    simp only [Array.getElem_modify]
    split <;> split <;> simp_all

/-- A routine waits for an input, and is given one. -/
theorem sendInput_reading {c r d : RoutineId} {p : Parcel V} (hin : (m.routine c).inbox = .awaited r)
    (hr : (m.routine r).control = .reading d) :
    m.sendInput c (.parcel p) =
      ((m.update c fun x => { x with inbox := .empty }).reply r (.value p)).wake r := by
  have hcontrol : ((m.update c fun x => { x with inbox := .empty }).routine r).control =
      .reading d := by
    rw [routine_update]
    split <;> exact hr
  simp only [sendInput, hin, deliver, hcontrol]

/-- Nothing has come out yet. -/
theorem listen_empty {c : RoutineId} (hout : (m.routine c).outbox = .empty) :
    m.listen i c =
      ((m.update c fun r => { r with outbox := .awaited i }).setControl i (.listening c)).pause i := by
  simp only [listen, hout]

theorem update_wake (m : Machine P V σ) (i j : RoutineId) (f : Routine P V σ → Routine P V σ) :
    (m.wake j).update i f = (m.update i f).wake j := rfl

/-- Resuming a handled body that waits. -/
theorem resume_eq (hstatus : (m.routine s).status = .suspending)
    (hinbox : (m.routine s).inbox = .awaited s) (hout : (m.routine s).outbox = .empty)
    (hcontrol : (m.routine s).control = .reading s) (hne : i ≠ s) :
    m.resume i s (.boxed b) =
      (((m.update i fun r => { r with control := .listening s }).update s
        (Routine.resumed i b)).wake s).pause i := by
  have hlt : s.val < m.routines.size := lt_of_ne_ended (by simp [hcontrol])
  have hself : ∀ f : Routine P V σ → Routine P V σ, (m.update s f).routine s = f (m.routine s) :=
    fun f => routine_update_self hlt f
  unfold resume
  rw [status, hstatus, if_pos (by decide), sendInput_reading (r := s) (d := s), listen_empty]
  · simp only [setStatus, reply, setControl, update_update, update_wake]
    rw [update_comm hne]
    rfl
  · simp only [setStatus, reply, setControl, update_update, routine_wake, hself, hout]
  · simp only [setStatus, hself, hinbox]
  · simp only [setStatus, hself, hcontrol]

/-- Entering a scope whose body waits: the body is resumed. -/
theorem enterScope_eq (hscope : (m.routine s).scope = some scope)
    (hstatus : (m.routine s).status = .suspending) (hinbox : (m.routine s).inbox = .awaited s)
    (hout : (m.routine s).outbox = .empty) (hcontrol : (m.routine s).control = .reading s)
    (hne : i ≠ s) :
    m.enterScope i s b = ((((m.setRegistry scope.ctx.place
      ((m.registry scope.ctx.place).push s)).update i (Routine.entering s scope.ctx)).update s
        (Routine.resumed i b)).wake s).pause i := by
  have hr : ∀ f : Routine P V σ → Routine P V σ, ∀ p g,
      ((m.setRegistry p g).update i f).routine s = m.routine s := fun f p g => by
    rw [routine_update_of_ne hne, routine_setRegistry]
  simp only [enterScope, hscope, enter, pushFrame, resumeOn, update_update,
    setRegistry_eq_update_comm, registry_update]
  rw [resume_eq (by rw [hr]; exact hstatus) (by rw [hr]; exact hinbox) (by rw [hr]; exact hout)
    (by rw [hr]; exact hcontrol) hne, update_update]
  congr 4
  unfold Routine.entering
  funext r
  split <;> rfl

namespace Linked

/-- A routine at work listens to a handled body, which goes on. Nobody has waited for the body, apart
from the body itself. -/
theorem listenTo {body : Routine P V σ} (h : m.Linked (some i))
    (hsettled : Settled (m.routine i).role (m.routine i).stack)
    (hidle : (m.routine s).control = .reading s ∨
      (m.routine s).control = .ended ∧ (m.routine s).scope = none)
    (hnobody : ∀ l, l ≠ s → (m.routine l).control ≠ .listening s ∧ (m.routine l).control ≠ .reading s)
    (hscope : body.scope = some scope) (hout : body.outbox = .awaited i) (hphase : body.Phase s)
    (hbody : body.control.isActive = true) (hposture : body.Posture)
    (hawaited : awaitedScope? body.stack = none) (hopened : scope.ctx.id.val < m.contexts.size)
    (hclauses : ∀ e c, (e, c) ∈ scope.clauses → c.Suits e)
    (houter : ∀ t, scope.finish = .into (some t) → t.val < s.val)
    (hmain : s ≠ .main)
    (hr : ∀ j, m'.routine j = if j = i then (m.routine i).entering s scope.ctx
      else if j = s then body else m.routine j)
    (hlt : s.val < m'.routines.size) (hsize : m.routines.size ≤ m'.routines.size)
    (hctx : m'.contexts.size = m.contexts.size) (hready : m'.ready = (m.ready ++ [s]).erase i) :
    m'.Linked none := by
  have hactive := h.working i rfl
  have hne : i ≠ s := by
    rintro rfl
    rcases hidle with hc | ⟨hc, -⟩
    · exact ne_reading_of_isActive hactive i hc
    · exact ne_ended_of_isActive hactive hc
  have hrunning := hphase.running_of_awaited (by rw [hout]; rfl)
  obtain ⟨hinbox, -⟩ := hphase.running hrunning
  have hscopes : ∀ j, j ≠ s → (m'.routine j).scope = (m.routine j).scope := by
    grind [Routine.entering]
  have hrole : ∀ j, j ≠ s → (m'.routine j).role = (m.routine j).role := fun j hj => by
    rw [Routine.role, hscopes j hj]
    rfl
  have hlistens : m'.Listens i s := by
    unfold Listens
    rw [hrole i hne, hr, hr, if_pos rfl, if_neg hne.symm, if_pos rfl, hscope]
    exact ⟨hout, _, rfl, rfl, hsettled⟩
  have hstays : (m.routine i).scope.isSome →
      Routine.Phase i ((m.routine i).entering s scope.ctx) := fun hi =>
    (h.phase i hi).goOn (isUnderWay_of_isActive hactive i) rfl rfl rfl rfl rfl
  have hended : ∀ l, (m.routine l).scope.isSome → (m.routine l).control = .ended →
      m'.routine l = m.routine l := by
    grind [ne_ended_of_isActive]
  constructor
  case working => simp
  case posture =>
    have hl := h.posture
    have hi : ((m.routine i).entering s scope.ctx).Posture := trivial
    grind
  case phase =>
    have hl := h.phase
    grind
  case outbox =>
    have hl := h.outbox
    grind [Routine.entering, ne_listening_of_isActive]
  case listening =>
    intro j c hj
    by_cases hji : j = i
    · obtain rfl : c = s := by grind [Routine.entering]
      exact hji ▸ hlistens
    · have hjs : j ≠ s := by grind [ne_listening_of_isActive]
      have hj' : m'.routine j = m.routine j := by grind
      rw [hj'] at hj
      have hcs : c ≠ s := by grind
      exact (h.listening j c hj).congr (hscopes c hcs) (by grind [Routine.entering]) (by rw [hj'])
        (hrole j hjs)
  case inbox =>
    have hl := h.inbox
    grind [Routine.entering, isFresh, isFresh_of_isActive, ne_reading_of_isActive]
  case reading =>
    intro r c hrc
    have hri : r ≠ i ∧ r ≠ s := by grind [Routine.entering, ne_reading_of_isActive]
    have hr' : m'.routine r = m.routine r := by grind
    rw [hr'] at hrc ⊢
    rw [hscopes c (by grind)]
    exact h.reading r c hrc
  case present =>
    have hl := h.present
    grind [Routine.entering, ne_listening_of_isActive, ne_reading_of_isActive]
  case slots =>
    have hl := h.slots
    grind [Routine.entering]
  case ending =>
    intro j _ o t ho hneed ht
    have hj : j ≠ i ∧ j ≠ s := by grind [Routine.entering]
    have hj' : m'.routine j = m.routine j := by grind
    rw [hj'] at ho ht
    exact (h.ending j (by simpa using hj.1.symm) o t ho hneed ht).stays hended
  case outer =>
    have hl := h.outer
    grind
  case opened =>
    have hl := h.opened
    grind
  case clauses =>
    have hl := h.clauses
    grind
  case ready =>
    have hl := h.ready
    intro j hj
    have hji : j ≠ i := by grind [Routine.entering, isActive]
    rw [hready]
    refine (List.mem_erase_of_ne hji).2 ?_
    grind
  case main =>
    have hl := h.main
    exact ⟨by rw [hscopes _ hmain.symm]; exact hl.1, by omega⟩

/-- A routine at work enters a scope whose body waits. -/
theorem enterScope (h : m.Linked (some i)) (hscope : (m.routine s).scope = some scope)
    (hstatus : (m.routine s).status = .suspending)
    (hneed : (m.routine s).stack.head?.bind Frame.need? = some q) (hb : b.mark? = some q)
    (hsettled : Settled (m.routine i).role (m.routine i).stack)
    (hr : ∀ j, m'.routine j = if j = i then (m.routine i).entering s scope.ctx
      else if j = s then (m.routine s).resumed i b else m.routine j)
    (hsize : m'.routines.size = m.routines.size) (hctx : m'.contexts.size = m.contexts.size)
    (hready : m'.ready = (m.ready ++ [s]).erase i) : m'.Linked none := by
  have hsome : (m.routine s).scope.isSome := by simp [hscope]
  obtain ⟨hinbox, hout, hcontrol, f, st, hst, hf, hbase⟩ := (h.phase s hsome).suspending hstatus
  have hnobody : ∀ l, l ≠ s →
      (m.routine l).control ≠ .listening s ∧ (m.routine l).control ≠ .reading s := by
    refine fun l hls => ⟨fun hl => ?_, fun hl => ?_⟩
    · rw [h.outbox_of_listening hsome hl] at hout
      cases hout
    · have hreads := h.reading l s hl
      rw [if_pos hsome] at hreads
      exact hls hreads
  have hphase : Routine.Phase s ((m.routine s).resumed i b) := by
    constructor <;> simp [Routine.resumed, Slot.isAwaited, isUnderWay, (h.phase s hsome).alone]
  -- The frame on top of the body waits for a value so marked.
  have hfits : ((m.routine s).resumed i b).Posture := by
    change Fits (m.routine s).role (.value (.boxed b)) (m.routine s).stack
    rw [hst] at hneed ⊢
    cases f <;> simp [Frame.need?] at hneed hf
    · exact ⟨hneed ▸ hb, hbase⟩
    · exact ⟨hneed ▸ hb, hbase⟩
  have hawaited : awaitedScope? ((m.routine s).resumed i b).stack = none := by
    change awaitedScope? (m.routine s).stack = none
    rw [hst]
    cases f <;> simp [Frame.need?] at hf <;> rfl
  have hmain : s ≠ .main := by
    rintro rfl
    rw [h.main.1] at hscope
    cases hscope
  have hkept : ((m.routine s).resumed i b).scope = some scope := hscope
  exact h.listenTo hsettled (.inl hcontrol) hnobody hkept rfl hphase rfl hfits hawaited
    (h.opened s scope hscope) (h.clauses s scope hscope) (h.outer s scope · hscope) hmain hr
    (hsize ▸ lt_of_scope hsome) hsize.ge hctx hready

end Linked

/-- A registered resume has an entry more. -/
theorem count_setRegistry_push {p : Place} (hp : m.hasPlace p) (q : Place) (c s : RoutineId) :
    ((m.setRegistry p ((m.registry p).push c)).registry q).items.count s =
      (m.registry q).items.count s + if p = q ∧ c = s then 1 else 0 := by
  rw [registry_setRegistry hp]
  by_cases hpq : p = q
  · subst hpq
    by_cases hcs : c = s <;> simp [hcs]
  · simp [hpq]

namespace Counted

/-- The routine at work takes on the frames of a call inside a scope, and holds the scope with what it
had in hand. -/
theorem enterFrames (h : m.Counted (some i) hand loose) (hi : i.val < m.routines.size)
    (hwi : ∀ y, y.scope = i → ¬ m.Waits y)
    (hhand : ∀ t, countKeys t hand + loose.count t = if s = t then 1 else 0) (ctx : Context) :
    (m.update i (Routine.entering s ctx)).Counted (some i) [] [] := by
  have hr : ∀ j, j ≠ i → (m.update i (Routine.entering s ctx)).routine j = m.routine j :=
    fun j hj => routine_update_of_ne (Ne.symm hj) _
  refine h.updateWorker hi hwi rfl (fun t => ?_) (by simp) (h.owners_le hi hr (by simp) fun k => ?_)
  · have hcount := hhand t
    simp [Routine.entering, Frame.holds]
    omega
  · rw [routine_update_self hi]
    simp [Routine.owns, Routine.entering, Frame.owns]

/-- The routine that has entered a scope waits there, and its entry has come into the registry. -/
theorem finishEntering {r : Routine P V σ} {ctx : Context} (h : m.Counted (some i) [] [])
    (hi : i.val < m.routines.size) (hself : m.routine i = r.entering s ctx)
    (hr : ∀ j, m'.routine j = m.routine j) (hsize : m'.routines.size = m.routines.size)
    (hconts : m'.conts = m.conts)
    (hregistry : ∀ c t, (m'.registry (.context c)).items.count t =
      (m.registry (.context c)).items.count t + if ctx.place = .context c ∧ s = t then 1 else 0) :
    m'.Counted none [] [] := by
  refine h.finishWork hi hr hsize hconts ?_ ?_ ?_
  · intro t
    rw [hself]
    rfl
  · intro y
    rw [hself]
    simp [Routine.entering, Routine.pending?, Control.need?, Control.keys]
  · intro c t
    rw [hregistry, hself]
    simp [Routine.entries, Routine.entering, Context.place, hasEntry]

/-- A body that waited is resumed by the last one who could do so: nothing refers to it as a body
that waits any more. -/
theorem resumeBody (h : m.Counted (some i) [] []) (hs : s.val < m.routines.size)
    (hcontrol : (m.routine s).control = .reading s)
    (hneed : (m.routine s).stack.head?.bind Frame.need? = some q)
    (hnone : ∀ y : Key, y.scope = s → m.tokens (some i) y = 0) :
    (m.update s (Routine.resumed i b)).Counted (some i) [] [] := by
  refine h.sameRefs hs rfl rfl (fun _ => ⟨?_, ?_, ?_⟩) fun y hy hpos _ => ?_
  · rw [hcontrol]
    rfl
  · rw [hcontrol]
    rfl
  · intro c t
    rw [Routine.entries_eq_zero_of_need? hneed]
    exact Routine.entries_eq_zero_of_need? (r := (m.routine s).resumed i b) hneed c t
  · rw [hnone y hy] at hpos
    simp at hpos

/-- A routine at work enters a scope whose body waits, with the way to resume that is in hand. -/
theorem enterScope (h : m.Counted (some i) [⟨q, s⟩] []) (hi : i.val < m.routines.size)
    (hscope : (m.routine s).scope = some scope) (hopened : scope.ctx.id.val < m.contexts.size)
    (hcontrol : (m.routine s).control = .reading s)
    (hneed : (m.routine s).stack.head?.bind Frame.need? = some q)
    (hwi : ∀ y, y.scope = i → ¬ m.Waits y) (hne : i ≠ s) :
    (((((m.setRegistry scope.ctx.place ((m.registry scope.ctx.place).push s)).update i
      (Routine.entering s scope.ctx)).update s (Routine.resumed i b)).wake s).pause i).Counted
        none [] [] := by
  have hs : s.val < m.routines.size := lt_of_scope (by simp [hscope])
  set m₁ := m.update i (Routine.entering s scope.ctx) with hm₁
  have hr₁ : ∀ j, j ≠ i → m₁.routine j = m.routine j := fun j hj =>
    routine_update_of_ne (Ne.symm hj) _
  have hself₁ : m₁.routine i = (m.routine i).entering s scope.ctx := routine_update_self hi _
  have h₁ : m₁.Counted (some i) [] [] := h.enterFrames hi hwi (fun t => by simp) scope.ctx
  -- The way to resume is used up: there was no other one.
  have hnone : ∀ y : Key, y.scope = s → m₁.tokens (some i) y = 0 := by
    rintro ⟨q', t⟩ rfl
    have hsingle := h.single t
    have hadd := tokens_add (w := some i) hr₁ (by simp [hm₁]) hi rfl ⟨q', t⟩
    have hinto : ((m.routine i).entering t scope.ctx).into? = (m.routine i).into? := rfl
    simp only [countKeys_cons, countKeys_nil, if_true] at hsingle
    simp only [known_self, hself₁, Routine.tokens_atWork, hinto] at hadd
    cases q' <;> omega
  set m₂ := m₁.update s (Routine.resumed i b) with hm₂
  have h₂ : m₂.Counted (some i) [] [] :=
    h₁.resumeBody (by simpa [hm₁] using hs) (by rw [hr₁ s hne.symm, hcontrol])
      (by rw [hr₁ s hne.symm, hneed]) hnone
  have hself₂ : m₂.routine i = (m.routine i).entering s scope.ctx := by
    rw [hm₂, routine_update_of_ne hne.symm, hself₁]
  refine h₂.finishEntering (by simpa [hm₂, hm₁] using hi) hself₂ (fun _ => rfl) rfl rfl fun c t => ?_
  exact count_setRegistry_push (m := m) (p := scope.ctx.place) hopened (.context c) s t

end Counted

/-- Entering a scope concerns two routines. -/
theorem routine_enterScope (hscope : (m.routine s).scope = some scope)
    (hstatus : (m.routine s).status = .suspending) (hinbox : (m.routine s).inbox = .awaited s)
    (hout : (m.routine s).outbox = .empty) (hcontrol : (m.routine s).control = .reading s)
    (hne : i ≠ s) (hi : i.val < m.routines.size) (j : RoutineId) :
    (m.enterScope i s b).routine j = if j = i then (m.routine i).entering s scope.ctx
      else if j = s then (m.routine s).resumed i b else m.routine j := by
  have hs : s.val < m.routines.size := lt_of_scope (by simp [hscope])
  rw [enterScope_eq hscope hstatus hinbox hout hcontrol hne, routine_pause, routine_wake,
    routine_update_ite (by rw [size_update, size_setRegistry]; exact hs),
    routine_update_ite (by rw [size_setRegistry]; exact hi),
    routine_update_ite (by rw [size_setRegistry]; exact hi)]
  simp only [routine_setRegistry]
  grind

/-- What is known of a body that can be resumed. -/
theorem AtWork.suspended (h : m.AtWork i hand loose due) {y : Key} (hy : y ∈ hand) :
    ∃ scope, (m.routine y.scope).scope = some scope ∧ (m.routine y.scope).status = .suspending ∧
      (m.routine y.scope).inbox = .awaited y.scope ∧ (m.routine y.scope).outbox = .empty ∧
      (m.routine y.scope).control = .reading y.scope ∧
      (m.routine y.scope).stack.head?.bind Frame.need? = some y.mark ∧ i ≠ y.scope := by
  have hpos : 0 < hand.count y := List.count_pos_iff.2 hy
  obtain ⟨hsome, hstatus, hneed⟩ := h.counted.waits y (by omega)
  obtain ⟨hinbox, hout, hcontrol, -⟩ := (h.linked.phase _ hsome).suspending hstatus
  obtain ⟨scope, hscope⟩ := Option.isSome_iff_exists.1 hsome
  refine ⟨scope, hscope, hstatus, hinbox, hout, hcontrol, hneed, ?_⟩
  rintro rfl
  exact ne_reading_of_isActive h.active _ hcontrol

/-- A step ends with the entering of a scope whose body waits. -/
theorem AtWork.enterScope (h : m.AtWork i [⟨q, s⟩] [] [])
    (hst : Settled (m.routine i).role (m.routine i).stack) (hb : b.mark? = some q) :
    (m.enterScope i s b).Sound := by
  obtain ⟨scope, hscope, hstatus, hinbox, hout, hcontrol, hneed, hne⟩ :=
    h.suspended (y := ⟨q, s⟩) (by simp)
  simp only at hscope hstatus hinbox hout hcontrol hneed hne
  have hs : s.val < m.routines.size := lt_of_scope (by simp [hscope])
  have hr : ∀ j, (m.enterScope i s b).routine j = if j = i then (m.routine i).entering s scope.ctx
      else if j = s then (m.routine s).resumed i b else m.routine j :=
    routine_enterScope hscope hstatus hinbox hout hcontrol hne h.lt
  rw [enterScope_eq hscope hstatus hinbox hout hcontrol hne] at hr ⊢
  refine ⟨h.linked.enterScope hscope hstatus hneed hb hst hr ?_ ?_ rfl,
    h.counted.enterScope h.lt hscope (h.linked.opened s scope hscope) hcontrol hneed
      (fun y hy => h.linked.not_waits (hy ▸ h.active)) hne, ?_⟩
  · simp [pause, wake]
  · simp [pause, wake]
  · intro t c ht hz _
    have hold := h.reclaimed t
    have hold' := h.reclaimed s scope hscope
    rw [hr] at ht ⊢
    grind [Routine.entering, Routine.resumed, Status.isTerminal]

/-! ## Opening a scope -/

/-- A machine with one routine more. -/
def grow (m : Machine P V σ) (r : Routine P V σ) : Machine P V σ :=
  { m with routines := m.routines.push r }

/-- The number of the routine that is made next. -/
def next (m : Machine P V σ) : RoutineId := ⟨m.routines.size⟩

theorem routine_grow (m : Machine P V σ) (r : Routine P V σ) (j : RoutineId) :
    (m.grow r).routine j = if j = m.next then r else m.routine j := by
  obtain ⟨j⟩ := j
  unfold grow routine next
  by_cases hj : j = m.routines.size
  · simp [Array.getD, hj]
  · have hj' : RoutineId.mk j ≠ ⟨m.routines.size⟩ := by simpa using hj
    rw [if_neg hj']
    by_cases hlt : j < m.routines.size
    · have hle : j < m.routines.size + 1 := by omega
      simp [Array.getD, hlt, hle, Array.getElem_push_lt]
    · have hgt : ¬ j < m.routines.size + 1 := by omega
      simp [Array.getD, hlt, hgt]

/-- The routines that there are stay as they are. -/
theorem routine_grow_of_lt {r : Routine P V σ} {j : RoutineId} (hj : j.val < m.routines.size) :
    (m.grow r).routine j = m.routine j := by
  rw [routine_grow, if_neg]
  rintro rfl
  exact Nat.lt_irrefl _ hj

theorem routine_next (m : Machine P V σ) : m.routine m.next = .absent :=
  routine_of_size_le le_rfl

theorem update_grow (m : Machine P V σ) (r : Routine P V σ) (f : Routine P V σ → Routine P V σ) :
    (m.grow r).update m.next f = m.grow (f r) := by
  unfold update grow next
  congr 1
  apply Array.ext
  · simp
  · intro j hj hj'
    simp only [Array.getElem_modify, Array.getElem_push]
    simp only [Array.size_push] at hj'
    split <;> split <;> first | rfl | omega

/-- Starting a body that waits for its first input. -/
theorem resume_fresh_eq (start : Start P V) {p : Parcel V} (hstatus : (m.routine s).status = .notRunning)
    (hinbox : (m.routine s).inbox = .awaited s) (hout : (m.routine s).outbox = .empty)
    (hcontrol : (m.routine s).control = .fresh start) (hne : i ≠ s) :
    m.resume i s p =
      (((m.update i fun r => { r with control := .listening s }).update s fun r =>
        { r with
          status := .running
          inbox := .empty
          outbox := .awaited i
          control := .starting start p }).wake s).pause i := by
  have hlt : s.val < m.routines.size := lt_of_ne_ended (by simp [hcontrol])
  have hself : ∀ f : Routine P V σ → Routine P V σ, (m.update s f).routine s = f (m.routine s) :=
    fun f => routine_update_self hlt f
  have hsend : (m.setStatus s .running).sendInput s (.parcel p) =
      (m.update s fun r =>
        { r with status := .running, inbox := .empty, control := .starting start p }).wake s := by
    simp only [sendInput, setStatus, hself, hinbox, deliver, update_update, hcontrol, setControl]
  unfold resume
  rw [status, hstatus, if_pos (by decide), hsend, listen_empty]
  · simp only [setControl, update_update, update_wake]
    rw [update_comm hne]
  · simp only [routine_wake, hself, hout]

/-- Opening a scope: its body starts. -/
theorem openScope_eq (start : Start P V) (h0 : scope.holders = 0) (hi : i.val < m.routines.size) :
    m.openScope i scope start =
      (((((m.grow (.opened m.next i scope start)).setRegistry scope.ctx.place
        ((m.registry scope.ctx.place).push m.next)).update i
          (Routine.entering m.next scope.ctx)).wake m.next).pause i) := by
  have hne : i ≠ m.next := by
    rintro rfl
    exact Nat.lt_irrefl _ hi
  set r : Routine P V σ := { Routine.new m.next scope.ctx.config start (some scope) with
    scope := some { scope with holders := 1 } } with hrdef
  have hspawn : m.openScope i scope start = (m.grow r).enterScope i m.next .start := by
    have hhold : (m.grow (.new m.next scope.ctx.config start (some scope))).hold m.next =
        m.grow r := by
      unfold hold
      rw [update_grow]
      simp [hrdef, Routine.new, h0]
    rw [← hhold]
    rfl
  have hr : ∀ f : Routine P V σ → Routine P V σ, ∀ p g,
      (((m.grow r).setRegistry p g).update i f).routine m.next = r := fun f p g => by
    rw [routine_update_of_ne hne, routine_setRegistry, routine_grow, if_pos rfl]
  have hscope : ((m.grow r).routine m.next).scope = some { scope with holders := 1 } := by
    rw [routine_grow, if_pos rfl]
  rw [hspawn]
  simp only [enterScope, hscope, enter, pushFrame, resumeOn, update_update,
    setRegistry_eq_update_comm, registry_update]
  rw [resume_fresh_eq start (by rw [hr]; rfl) (by rw [hr]; rfl) (by rw [hr]; rfl)
    (by rw [hr]; rfl) hne, update_update, update_comm hne, ← setRegistry_eq_update_comm,
    update_grow]
  congr 4
  unfold Routine.entering
  funext r
  split <;> rfl

/-- Opening a scope concerns the routine that does it, and the new one. -/
theorem routine_openScope (start : Start P V) (h0 : scope.holders = 0) (hi : i.val < m.routines.size)
    (j : RoutineId) :
    (m.openScope i scope start).routine j =
      if j = i then (m.routine i).entering m.next scope.ctx
      else if j = m.next then .opened m.next i scope start else m.routine j := by
  have hne : i ≠ m.next := by
    rintro rfl
    exact Nat.lt_irrefl _ hi
  have hlt : i.val < (m.grow (.opened m.next i scope start)).routines.size := by
    simp only [Machine.grow, Array.size_push]
    exact Nat.lt_succ_of_lt hi
  rw [openScope_eq start h0 hi, routine_pause, routine_wake,
    routine_update_ite (by rw [size_setRegistry]; exact hlt)]
  simp only [routine_setRegistry, routine_grow, if_neg hne]

/-- A routine at work opens a scope. -/
theorem Linked.openScope (h : m.Linked (some i)) (hopened : scope.ctx.id.val < m.contexts.size)
    (hclauses : ∀ e c, (e, c) ∈ scope.clauses → c.Suits e)
    (hfinish : ∀ t, scope.finish = .into (some t) → t.val < m.routines.size)
    (hstart : start.role = some scope.mark) (hready' : start.IsReady)
    (hsettled : Settled (m.routine i).role (m.routine i).stack)
    (hr : ∀ j, m'.routine j = if j = i then (m.routine i).entering m.next scope.ctx
      else if j = m.next then .opened m.next i scope start else m.routine j)
    (hsize : m'.routines.size = m.routines.size + 1) (hctx : m'.contexts.size = m.contexts.size)
    (hready : m'.ready = (m.ready ++ [m.next]).erase i) : m'.Linked none := by
  have habsent := m.routine_next
  -- Nobody can have waited for a routine that has not existed.
  have hnobody : ∀ l, l ≠ m.next →
      (m.routine l).control ≠ .listening m.next ∧ (m.routine l).control ≠ .reading m.next :=
    fun l _ => ⟨fun hl => Nat.lt_irrefl _ (h.present l _ (.inl hl)),
      fun hl => Nat.lt_irrefl _ (h.present l _ (.inr hl))⟩
  have hphase : Routine.Phase m.next (.opened m.next i scope start : Routine P V σ) := by
    constructor <;> simp [Routine.opened, Slot.isAwaited, isUnderWay]
  have hposture : (Routine.opened m.next i scope start : Routine P V σ).Posture :=
    ⟨rfl, hstart, hready'⟩
  have hmain : m.next ≠ .main := by
    intro heq
    have hval := congrArg RoutineId.val heq
    have hpos := h.main.2
    simp only [RoutineId.main, Machine.next] at hval
    omega
  have hlt : m.next.val < m'.routines.size := by
    rw [hsize]
    exact Nat.lt_succ_self _
  have hheld : (Routine.opened m.next i scope start : Routine P V σ).scope =
      some { scope with holders := 1 } := rfl
  exact h.listenTo hsettled (.inr ⟨by rw [habsent]; rfl, by rw [habsent]; rfl⟩) hnobody hheld rfl
    hphase rfl hposture rfl hopened hclauses hfinish hmain hr hlt (by omega) hctx hready

/-- The references of a new scope. -/
theorem keys_opened (i : RoutineId) (scope : Scope P) (start : Start P V) :
    (Routine.opened m.next i scope start : Routine P V σ).keys =
      (Control.starting start (.boxed .start) : Control P V σ).keys ++ scope.keysWith 1 := rfl

/-! ## What a new routine adds to a count -/

section Grow

variable {w : Option RoutineId} {r : Routine P V σ}

theorem holders_grow (t : RoutineId) :
    (m.grow r).holders t = if t = m.next then r.holders else m.holders t := by
  unfold holders
  rw [routine_grow]
  split <;> rfl

theorem owners_grow (k : ContId) : (m.grow r).owners k = m.owners k + r.owns k := by
  have hsize : (m.grow r).routines.size = m.routines.size + 1 := by simp [Machine.grow]
  unfold Machine.owners
  rw [hsize, sumTo_succ]
  congr 1
  · exact sumTo_congr fun j hj => by rw [routine_grow_of_lt hj]
  · exact congrArg (Routine.owns k) ((routine_grow m r m.next).trans (if_pos rfl))

variable (hw : w ≠ some m.next)
include hw

private theorem sumTo_grow (g : Routine P V σ → Nat) :
    sumTo (m.grow r).routines.size (fun j => g ((m.grow r).known w j)) =
      sumTo m.routines.size (fun j => g (m.known w j)) + g r := by
  have hsize : (m.grow r).routines.size = m.routines.size + 1 := by simp [Machine.grow]
  have hnew : (m.grow r).known w m.next = r := by
    rw [known_of_ne hw, routine_grow, if_pos rfl]
  rw [hsize, sumTo_succ]
  congr 1
  · exact sumTo_congr fun j hj => by simp only [known, routine_grow_of_lt hj]
  · exact congrArg g hnew

theorem load_grow (s : RoutineId) : (m.grow r).load w s = m.load w s + r.holds s := by
  have hsum := sumTo_grow (r := r) hw (Routine.holds s)
  have hkept : (m.grow r).kept = m.kept := rfl
  simp only [load, hsum, hkept]
  omega

theorem tokens_grow (y : Key) : (m.grow r).tokens w y = m.tokens w y + r.tokens y := by
  have hsum := sumTo_grow (r := r) hw (Routine.tokens y)
  have hkept : (m.grow r).kept = m.kept := rfl
  simp only [tokens, hsum, hkept]
  omega

theorem entries_grow (c : ContextId) (s : RoutineId) :
    (m.grow r).entries w c s = m.entries w c s + r.entries c s :=
  sumTo_grow hw (Routine.entries c s)

end Grow

namespace Counted

/-- A machine gets a routine more, which takes over what is in hand. -/
theorem grow {w : Option RoutineId} {r : Routine P V σ} (h : m.Counted w hand [])
    (hw : w ≠ some m.next) (hstack : r.stack = []) (hneed : r.control.need? = none)
    (hkeys : ∀ t, countKeys t r.keys = countKeys t hand)
    (htokens : ∀ y, r.keys.count y = hand.count y) :
    (m.grow r).Counted w [] (List.replicate r.holders m.next) := by
  have htaken : ∀ y, r.tokens y = hand.count y := fun y => by
    simp [Routine.tokens, Routine.pending?, hneed, htokens]
  constructor
  case held =>
    intro t
    have hheld := h.held t
    have hholds : r.holds t = countKeys t hand := by simp [Routine.holds, hstack, hkeys]
    rw [List.count_nil] at hheld
    rw [load_grow hw, holders_grow, hholds, countKeys_nil, List.count_replicate]
    by_cases ht : t = m.next
    · -- Nobody has held the new scope before.
      subst ht
      have hzero : m.holders m.next = 0 := by
        unfold holders
        rw [routine_next]
        rfl
      simp
      omega
    · simp [ht, Ne.symm ht]
      omega
  case single =>
    intro t
    have hsingle := h.single t
    rw [countKeys_eq] at hsingle
    simp only [tokens_grow hw, htaken, countKeys_nil]
    omega
  case waits =>
    intro y hy
    rw [tokens_grow hw, htaken, List.count_nil] at hy
    have hwaits := h.waits y hy
    simpa only [Waits, routine_grow_of_lt (lt_of_scope hwaits.1)] using hwaits
  case entries =>
    intro c t
    have hzero : r.entries c t = 0 := by simp [Routine.entries, hstack]
    rw [entries_grow hw, hzero]
    exact h.entries c t
  case owners =>
    intro k
    have hzero : r.owns k = 0 := by simp [Routine.owns, hstack]
    rw [owners_grow, hzero]
    exact h.owners k

/-- A routine at work opens a scope that takes over what is in hand. -/
theorem openScope (h : m.Counted (some i) hand []) (hi : i.val < m.routines.size)
    (hopened : scope.ctx.id.val < m.contexts.size)
    (hkeys : (Control.starting start (.boxed .start) : Control P V σ).keys ++ scope.keysWith 1 = hand)
    (hwi : ∀ y, y.scope = i → ¬ m.Waits y) :
    (((((m.grow (.opened m.next i scope start)).setRegistry scope.ctx.place
        ((m.registry scope.ctx.place).push m.next)).update i
          (Routine.entering m.next scope.ctx)).wake m.next).pause i).Counted none [] [] := by
  have hne : i ≠ m.next := by
    rintro rfl
    exact Nat.lt_irrefl _ hi
  set m₁ := m.grow (.opened m.next i scope start) with hm₁
  have hi₁ : i.val < m₁.routines.size := by simp [hm₁, Machine.grow]; omega
  have hself₁ : m₁.routine i = m.routine i := by rw [hm₁, routine_grow, if_neg hne]
  have h₁ : m₁.Counted (some i) [] [m.next] :=
    h.grow (r := .opened m.next i scope start) (by simpa using hne) rfl rfl
      (fun t => by rw [keys_opened, hkeys]) (fun y => by rw [keys_opened, hkeys])
  have hwi₁ : ∀ y, y.scope = i → ¬ m₁.Waits y := by
    intro y hy hw
    refine hwi y hy ?_
    unfold Waits at hw ⊢
    rw [hy] at hw ⊢
    rwa [hself₁] at hw
  have h₂ := h₁.enterFrames (s := m.next) hi₁ hwi₁ (fun t => by simp [List.count_cons]) scope.ctx
  have hself : (m₁.update i (Routine.entering m.next scope.ctx)).routine i =
      (m.routine i).entering m.next scope.ctx := by
    rw [routine_update_self hi₁, hself₁]
  refine h₂.finishEntering (by simpa using hi₁) hself (fun _ => rfl) rfl rfl fun c t => ?_
  exact count_setRegistry_push (m := m) (p := scope.ctx.place) hopened (.context c) m.next t

end Counted

/-- A step ends with the opening of a scope. -/
theorem AtWork.openScope (h : m.AtWork i hand [] []) (h0 : scope.holders = 0)
    (hopened : scope.ctx.id.val < m.contexts.size)
    (hclauses : ∀ e c, (e, c) ∈ scope.clauses → c.Suits e)
    (hfinish : ∀ t, scope.finish = .into (some t) → t.val < m.routines.size)
    (hstart : start.role = some scope.mark) (hready : start.IsReady)
    (hst : Settled (m.routine i).role (m.routine i).stack)
    (hkeys : (Control.starting start (.boxed .start) : Control P V σ).keys ++ scope.keysWith 1 =
      hand) : (m.openScope i scope start).Sound := by
  have hne : i ≠ m.next := by
    rintro rfl
    exact Nat.lt_irrefl _ h.lt
  have hr := routine_openScope start h0 h.lt
  rw [openScope_eq start h0 h.lt] at hr ⊢
  refine ⟨h.linked.openScope hopened hclauses hfinish hstart hready hst hr ?_ ?_ rfl,
    h.counted.openScope h.lt hopened hkeys (fun y hy => h.linked.not_waits (hy ▸ h.active)), ?_⟩
  · simp [pause, wake, Machine.grow]
  · simp [pause, wake, Machine.grow]
  · intro t c ht hz _
    have hold := h.reclaimed t
    rw [hr] at ht ⊢
    grind [Routine.entering, Routine.opened]

end Machine

end OneShot
