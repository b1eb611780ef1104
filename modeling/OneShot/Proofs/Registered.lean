import OneShot.Proofs.Orderly

/-!
# What stands in a registry

A registered resume has its entry in the registry as long as it waits, and takes it out when it comes
back. A body that is suspended through the registry uses the entry up, and its resume comes back
without one.

`Registered` is the invariant of a registry of the program: there is no entry without a call, and
every call for a coroutine has its entry while one of them waits. It holds as long as a coroutine is
not resumed on the registry while an earlier resume of it there is still coming back. The registries
of contexts need no such rule.
-/

namespace OneShot

variable {P V σ : Type}

/-- The coroutine of the registered resume in which a routine is. -/
def Routine.call? (p : Place) (r : Routine P V σ) : Option RoutineId :=
  match r.stack with
  | .registered q c :: _ => if q = p then some c else none
  | _ => none

/-- The same, if the resume was accepted and waits. -/
def Routine.waitsOn? (p : Place) (r : Routine P V σ) : Option RoutineId :=
  match r.control with
  | .listening c => if r.call? p = some c then some c else none
  | _ => none

theorem Routine.waitsOn?_eq_some {p : Place} {r : Routine P V σ} {c : RoutineId} :
    r.waitsOn? p = some c ↔ r.call? p = some c ∧ r.control = .listening c := by
  unfold waitsOn?
  cases r.control <;> grind

namespace Machine

open Control

variable {code : P → Entry V → Code P V σ V} {m m₁ m₂ m' : Machine P V σ} {i j s c l : RoutineId}
  {r : RegistryId} {x : Input V} {o : Outcome V (Parcel V)} {R : RegistryId → Prop} {p : Place}

/-- The coroutines of all registered resumes that have not come back. -/
def callsOn (m : Machine P V σ) (p : Place) : List RoutineId :=
  (List.range m.routines.size).filterMap fun n => (m.routine ⟨n⟩).call? p

/-- The coroutines of all registered resumes that wait. -/
def waitingOn (m : Machine P V σ) (p : Place) : List RoutineId :=
  (List.range m.routines.size).filterMap fun n => (m.routine ⟨n⟩).waitsOn? p

/-! ## Counting calls -/

/-- Routines that do not exist are in no call. -/
theorem count_filterMap_range {f : Routine P V σ → Option RoutineId} (hf : f .absent = none) {N : Nat}
    (hN : m.routines.size ≤ N) (c : RoutineId) :
    ((List.range m.routines.size).filterMap fun n => f (m.routine ⟨n⟩)).count c =
      sumTo N fun j => if f (m.routine j) = some c then 1 else 0 := by
  have hcount : ∀ n, ((List.range n).filterMap fun n => f (m.routine ⟨n⟩)).count c =
      sumTo n fun j => if f (m.routine j) = some c then 1 else 0 := by
    intro n
    induction n with
    | zero => rfl
    | succ n ih =>
      rw [List.range_succ, List.filterMap_append, List.count_append, ih, sumTo_succ]
      cases hn : f (m.routine ⟨n⟩) with
      | none => simp [hn]
      | some d => by_cases hdc : d = c <;> simp [hn, hdc]
  rw [hcount]
  induction N, hN using Nat.le_induction with
  | base => rfl
  | succ n hn ih =>
    rw [sumTo_succ, ← ih, routine_of_size_le hn, hf]
    rfl

/-- What two machines have in common whose routines are in the same calls. -/
theorem count_callsOn_congr (h : ∀ j, (m'.routine j).call? p = (m.routine j).call? p)
    (c : RoutineId) : (m'.callsOn p).count c = (m.callsOn p).count c := by
  unfold callsOn
  rw [count_filterMap_range (f := Routine.call? p) rfl (Nat.le_max_left _ m.routines.size),
    count_filterMap_range (f := Routine.call? p) rfl (Nat.le_max_right m'.routines.size _)]
  exact sumTo_congr fun j _ => by rw [h j]

/-- Routine `i` begins a call. -/
theorem count_callsOn_begin (hi : i.val < m.routines.size)
    (h : ∀ j, j ≠ i → (m'.routine j).call? p = (m.routine j).call? p)
    (hnone : (m.routine i).call? p = none) (hsome : (m'.routine i).call? p = some c) (d : RoutineId) :
    (m'.callsOn p).count d = (m.callsOn p).count d + if c = d then 1 else 0 := by
  unfold callsOn
  rw [count_filterMap_range (f := Routine.call? p) rfl (Nat.le_max_left _ m.routines.size),
    count_filterMap_range (f := Routine.call? p) rfl (Nat.le_max_right m'.routines.size _)]
  have hsum := sumTo_add (n := max m'.routines.size m.routines.size)
    (f := fun j => if (m'.routine j).call? p = some d then 1 else 0)
    (g := fun j => if (m.routine j).call? p = some d then 1 else 0) (i := i) (by omega)
    fun j hj => by simp only [h j hj]
  simpa [hnone, hsome] using hsum

/-! ## Where the frames of calls stand -/

end Machine

theorem Settled.notMem_registered {role : Option Mark} {st : List (Frame P V σ)}
    (h : Settled role st) (p : Place) (c : RoutineId) : .registered p c ∉ st := by
  induction st with
  | nil => exact List.not_mem_nil
  | cons f st ih =>
    rw [List.mem_cons, not_or]
    rcases h with ⟨hf, hst⟩ | ⟨hf, -, rfl⟩
    · refine ⟨?_, ih hst⟩
      rintro rfl
      cases hf
    · refine ⟨?_, List.not_mem_nil⟩
      rintro rfl
      cases hf

/-- The frame of a call on a registry of the program stands on top. -/
theorem Fits.notMem_registered {role : Option Mark} {o : Outcome V (Parcel V)} {f : Frame P V σ}
    {st : List (Frame P V σ)} (h : Fits role o (f :: st)) (r : RegistryId) (c : RoutineId) :
    .registered (.registry r) c ∉ st := by
  have hinner : Settled role (f :: st) → .registered (.registry r) c ∉ st := fun hst hmem =>
    hst.notMem_registered _ c (List.mem_cons_of_mem _ hmem)
  cases f with
  | performing => exact h.2.notMem_registered _ c
  | forwarding => exact h.2.notMem_registered _ c
  | dispatch s => exact h.2.settled.notMem_registered _ c
  | canceling a => exact h.2.notMem_registered _ c
  | registered p d =>
    cases p with
    | registry q => exact h.2.notMem_registered _ c
    | context q =>
      obtain ⟨st', rfl, -, hst'⟩ := h
      simpa using hst'.settled.notMem_registered _ c
  | next => exact hinner h.2
  | nested => exact hinner h.2
  | holding => exact hinner h.2
  | owning => exact hinner h.2
  | handledBody => exact hinner h.2
  | rejoining => exact hinner h.2

namespace Machine

open Control

variable {code : P → Entry V → Code P V σ V} {m m₁ m₂ m' : Machine P V σ} {i j s c l : RoutineId}
  {r : RegistryId} {x : Input V} {o : Outcome V (Parcel V)} {R : RegistryId → Prop} {p : Place}

/-- A step that does not concern a registry begins on a stack without calls there. -/
theorem Sound.notMem_registered (h : m.Sound) (hi : (m.routine i).control.isActive = true)
    (hr : m.usedRegistry i ≠ some r) (c : RoutineId) :
    .registered (.registry r) c ∉ (m.routine i).stack := by
  have hpos := h.linked.posture i (by simp)
  unfold Routine.Posture at hpos
  unfold usedRegistry at hr
  cases hc : (m.routine i).control with
  | starting s p =>
    rw [hc] at hpos
    rw [hpos.1]
    exact List.not_mem_nil
  | running d =>
    rw [hc] at hpos
    exact hpos.notMem_registered _ c
  | returning o =>
    rw [hc] at hpos hr
    cases hst : (m.routine i).stack with
    | nil => exact List.not_mem_nil
    | cons f st =>
      rw [hst] at hpos hr
      rw [List.mem_cons, not_or]
      refine ⟨?_, Fits.notMem_registered hpos r c⟩
      rintro rfl
      exact hr rfl
  | _ => rw [hc] at hi; cases hi

theorem call?_of_notMem (h : ∀ c, .registered (.registry r) c ∉ (m.routine i).stack) :
    (m.routine i).call? (.registry r) = none := by
  unfold Routine.call?
  split
  · next q c st hst =>
    split
    · next hq =>
      subst hq
      exact absurd (by rw [hst]; exact List.mem_cons_self) (h c)
    · rfl
  · rfl

/-- Who waits in a call, and has been in it and listened, has waited. -/
theorem waitsOn?_of_call? {a b : Routine P V σ} (hcall : b.call? p = a.call? p)
    (hlisten : ∀ d, (a.call? p).isSome → b.control = .listening d → a.control = .listening d)
    (hb : b.waitsOn? p = some c) : a.waitsOn? p = some c := by
  obtain ⟨hbcall, hcontrol⟩ := Routine.waitsOn?_eq_some.1 hb
  rw [hcall] at hbcall
  exact Routine.waitsOn?_eq_some.2 ⟨hbcall, hlisten c (by rw [hbcall]; rfl) hcontrol⟩

/-- Whose resume waits runs. -/
theorem Tidy.status_of_waitsOn (ht : m.Tidy) (hj : (m.routine j).waitsOn? p = some c) :
    m.status c = .running := by
  obtain ⟨hcall, hcontrol⟩ := Routine.waitsOn?_eq_some.1 hj
  have hst : (m.routine j).isCanceling = false := by
    unfold Routine.call? at hcall
    unfold Routine.isCanceling
    split at hcall
    · next heq => rw [heq]
    · cases hcall
  rw [ht.heard c j hcontrol, hst]
  rfl

/-! ## One registry of the program -/

/-- The entries in a registry are those of calls, and all calls for a coroutine have theirs while
one of them waits. -/
structure Registered (m : Machine P V σ) (p : Place) : Prop where
  /-- Who waits in a call, waits for the coroutine of the call. -/
  own : ∀ j c d, (m.routine j).call? p = some c → (m.routine j).control = .listening d → d = c
  le : ∀ c, (m.registry p).items.count c ≤ (m.callsOn p).count c
  eq : ∀ c j, (m.routine j).waitsOn? p = some c →
    (m.registry p).items.count c = (m.callsOn p).count c

/-- The next step uses the registry, once it is made, through resumes and suspensions alone. -/
def usesRegistry (m : Machine P V σ) (r : RegistryId) : Bool :=
  match m.ready with
  | [] => true
  | i :: _ =>
    match (m.routine i).control with
    | .running (.act (.resumeOn q _ _) _) => q != r || decide (r.val < m.registries.size)
    | .running (.ask q _) => q.usedRegistry != some r
    | _ => true

/-- The next step does not resume a coroutine on the registry while an earlier resume of it there
has not come back: coroutines are not for being resumed from several sides at once. A resume that is
refused does no harm. -/
def resumesAlone (m : Machine P V σ) (r : RegistryId) : Bool :=
  match m.ready with
  | [] => true
  | i :: _ =>
    match (m.routine i).control with
    | .running (.act (.resumeOn q c _) _) =>
      q != r || !(m.status c).isResumable || !(m.callsOn (.registry r)).contains c
    | _ => true

namespace Registered

variable (h : m.Registered p)
include h

/-- Only the registry, the calls and who waits in them are concerned. -/
theorem congr (hreg : m'.registry p = m.registry p)
    (hcall : ∀ j, (m'.routine j).call? p = (m.routine j).call? p)
    (hlisten : ∀ j d, ((m.routine j).call? p).isSome → (m'.routine j).control = .listening d →
      (m.routine j).control = .listening d) : m'.Registered p where
  own j c d hj hd := by
    rw [hcall] at hj
    exact h.own j c d hj (hlisten j d (by rw [hj]; rfl) hd)
  le c := by
    rw [hreg, count_callsOn_congr hcall]
    exact h.le c
  eq c j hj := by
    rw [hreg, count_callsOn_congr hcall]
    exact h.eq c j (waitsOn?_of_call? (hcall j) (hlisten j) hj)

/-- Routine `i` begins a resume, which finds no other one of the coroutine if it is accepted. -/
theorem begin_call (hi : i.val < m.routines.size)
    (hreg : m'.registry p = (m.registry p).push c)
    (hcall : ∀ j, j ≠ i → (m'.routine j).call? p = (m.routine j).call? p)
    (hnone : (m.routine i).call? p = none) (hsome : (m'.routine i).call? p = some c)
    (hlisten : ∀ j d, j ≠ i → (m'.routine j).control = .listening d →
      (m.routine j).control = .listening d)
    (haccepted : ∀ d, (m'.routine i).control = .listening d → d = c ∧ c ∉ m.callsOn p) :
    m'.Registered p := by
  have hcount := count_callsOn_begin hi hcall hnone hsome
  have hpush : ∀ d, (m'.registry p).items.count d =
      (m.registry p).items.count d + if c = d then 1 else 0 := fun d => by
    rw [hreg, Registry.items_push, List.count_cons]
    simp
  constructor
  case own =>
    intro j d e hj hd
    by_cases hji : j = i
    · subst hji
      rw [(haccepted e hd).1]
      exact Option.some.inj (hsome.symm.trans hj)
    · exact h.own j d e (hcall j hji ▸ hj) (hlisten j e hji hd)
  case le =>
    intro d
    rw [hpush, hcount]
    exact Nat.add_le_add_right (h.le d) _
  case eq =>
    intro d j hj
    rw [hpush, hcount]
    by_cases hji : j = i
    · subst hji
      obtain ⟨hd, hcontrol⟩ := Routine.waitsOn?_eq_some.1 hj
      obtain rfl : c = d := Option.some.inj (hsome.symm.trans hd)
      have hzero : (m.callsOn p).count c = 0 := List.count_eq_zero.2 (haccepted c hcontrol).2
      have hle := h.le c
      omega
    · rw [h.eq d j (waitsOn?_of_call? (hcall j hji) (fun e _ => hlisten j e hji) hj)]

/-- A call of routine `i` comes back. -/
theorem end_call (hi : i.val < m'.routines.size)
    (hreg : m'.registry p = (m.registry p).erase c)
    (hcall : ∀ j, j ≠ i → (m'.routine j).call? p = (m.routine j).call? p)
    (hnone : (m'.routine i).call? p = none) (hsome : (m.routine i).call? p = some c)
    (hlisten : ∀ j d, j ≠ i → (m'.routine j).control = .listening d →
      (m.routine j).control = .listening d) : m'.Registered p := by
  have hcount := count_callsOn_begin hi (fun j hj => (hcall j hj).symm) hnone hsome
  have herase : ∀ d, (m'.registry p).items.count d =
      (m.registry p).items.count d - if c = d then 1 else 0 := fun d => by
    rw [hreg, Registry.erase]
    simp only [List.count_reverse, List.count_erase]
    split <;> simp_all
  constructor
  case own =>
    intro j d e hj he
    by_cases hji : j = i
    · subst hji
      cases hnone.symm.trans hj
    · exact h.own j d e (hcall j hji ▸ hj) (hlisten j e hji he)
  case le =>
    intro d
    have hle := h.le d
    have hd := hcount d
    rw [herase]
    omega
  case eq =>
    intro d j hj
    by_cases hji : j = i
    · subst hji
      cases hnone.symm.trans (Routine.waitsOn?_eq_some.1 hj).1
    · have heq := h.eq d j (waitsOn?_of_call? (hcall j hji) (fun e _ => hlisten j e hji) hj)
      have hd := hcount d
      rw [herase]
      omega

/-- The entry of a coroutine is used up, for which nobody waits afterwards. -/
theorem use_entry (hreg : (m'.registry p).items = (m.registry p).items.erase c)
    (hcall : ∀ j, (m'.routine j).call? p = (m.routine j).call? p)
    (hlisten : ∀ j d, ((m.routine j).call? p).isSome → (m'.routine j).control = .listening d →
      (m.routine j).control = .listening d)
    (hnone : ∀ j, (m'.routine j).waitsOn? p ≠ some c) : m'.Registered p where
  own j d e hj he := by
    rw [hcall] at hj
    exact h.own j d e hj (hlisten j e (by rw [hj]; rfl) he)
  le d := by
    rw [hreg, count_callsOn_congr hcall]
    exact (List.erase_sublist.count_le d).trans (h.le d)
  eq d j hj := by
    have hdc : d ≠ c := by
      rintro rfl
      exact hnone j hj
    rw [hreg, count_callsOn_congr hcall, List.count_erase_of_ne hdc]
    exact h.eq d j (waitsOn?_of_call? (hcall j) (hlisten j) hj)

end Registered

/-! ## Steps keep a registry -/

/-- A routine in no call is none of those that wait in calls. -/
theorem ne_of_call? (hnone : (m.routine i).call? p = none)
    (hj : ((m.routine j).call? p).isSome) : j ≠ i := by
  rintro rfl
  rw [hnone] at hj
  cases hj

section Steps

variable (ht : m.Tidy) (hi : (m.routine i).control.isActive = true)
include ht hi

/-- What a transfer of control leaves alone. -/
theorem Transfers.call? (htr : m.Transfers i m') (j : RoutineId) :
    (m'.routine j).call? p = (m.routine j).call? p := by
  unfold Routine.call?
  rw [htr.stack ht hi]

/-- A resume that waits was accepted. -/
theorem resume_listens {a : Parcel V} (hd : ((m.resume i c a).routine i).control = .listening j) :
    (m.status c).isResumable = true ∧ j = c := by
  unfold resume at hd
  split at hd
  · next hres =>
    obtain ⟨x, hin⟩ := ht.exists_reader hres
    have hover := routine_handOver ht hi hres hin .running (.parcel a) i
    rw [handOver] at hover
    rw [hover] at hd
    simp only [handedOver, if_pos, Control.listening.injEq] at hd
    exact ⟨hres, hd.symm⟩
  · rw [fail, reply, setControl, routine_update_self (lt_of_isActive hi)] at hd
    cases hd

/-- Control is passed by a routine that is in no call. -/
theorem Registered.transfers (h : m.Registered (.registry r))
    (hnone : (m.routine i).call? (.registry r) = none) (htr : m.Transfers i m') :
    m'.Registered (.registry r) := by
  exact h.congr (by rw [registry, htr.registries, registry]) (fun j => htr.call? ht hi j)
    fun j d hj => htr.listening ht hi (ne_of_call? hnone hj)

end Steps

/-- A step that does not concern the registry. -/
theorem Registered.passes (h : m.Registered (.registry r)) (hs : m.Sound) (ht : m.Tidy)
    (hi : (m.routine i).control.isActive = true) (hr : m.usedRegistry i ≠ some r)
    (hp : m.Passes (fun q => m.usedRegistry i = some q) i m') : m'.Registered (.registry r) := by
  have hframes := hs.notMem_registered hi hr
  have hnone := call?_of_notMem hframes
  cases hp with
  | @ends o hc hst =>
    have hroutine := routine_finish ht hi o
    have hcall : ∀ j, ((m.finish i o).routine j).call? (.registry r) =
        (m.routine j).call? (.registry r) := fun j => by rw [hroutine]; rfl
    refine h.congr (by rw [registry, registries_finish, registry]) hcall fun j d _ hcontrol => ?_
    rw [hroutine] at hcontrol
    simp only [finished] at hcontrol
    split at hcontrol
    · cases hcontrol
    · split at hcontrol
      · cases hcontrol
      · split at hcontrol
        · exact (awoken_ne _ d).1.1 hcontrol
        · exact hcontrol
  | @transfers m₁ _ ha htr =>
    obtain ⟨ht₁, hcontrol₁, -⟩ := ha.own_eq ht hi
    have hspares := ha.spares ht hi
    have hnone₁ : (m₁.routine i).call? (.registry r) = none :=
      call?_of_notMem fun c hmem => hframes c (hspares.frames r c hr hmem)
    have hcall : ∀ j, (m₁.routine j).call? (.registry r) = (m.routine j).call? (.registry r) := by
      intro j
      by_cases hji : j = i
      · rw [hji, hnone₁, hnone]
      · unfold Routine.call?
        rw [ha.stack hji]
    have h₁ : m₁.Registered (.registry r) := by
      exact h.congr (hspares.registry r hr) hcall fun j d _ => ha.listening ht hi
    exact h₁.transfers ht₁ (hcontrol₁ ▸ hi) hnone₁ htr

/-- A step in which a call comes back. -/
theorem Registered.comes_back (h : m.Registered (.registry r)) (hs : m.Sound)
    (hc : (m.routine i).control = .returning o) {st : List (Frame P V σ)}
    (hst : (m.routine i).stack = .registered (.registry r) c :: st) :
    (m.stepOf code i).Registered (.registry r) := by
  have hlt : i.val < m.routines.size := lt_of_ne_ended (by simp [hc])
  have hsettled : Settled (m.routine i).role st := by
    have hpos := hs.linked.posture i (by simp)
    simp only [Routine.Posture, hc, hst, Fits] at hpos
    exact hpos.2
  have hstep : m.stepOf code i = (m.setRegistry (.registry r)
      ((m.registry (.registry r)).erase c)).update i fun rt =>
        { rt with stack := st, control := .returning o } := by
    rw [stepOf_returning hc hst, unwind, reply, setControl, registry_update,
      setRegistry_eq_update_comm, update_update]
  have hr : ∀ j, (m.stepOf code i).routine j =
      if j = i then { m.routine i with stack := st, control := .returning o } else m.routine j := by
    intro j
    rw [hstep, routine_update_ite (by simpa using hlt), routine_setRegistry, routine_setRegistry]
  have hreg : (m.stepOf code i).registry (.registry r) = (m.registry (.registry r)).erase c := by
    rw [hstep, registry_update]
    by_cases hp : m.hasPlace (.registry r)
    · rw [registry_setRegistry hp, if_pos rfl]
    · rw [setRegistry_of_not_hasPlace hp, registry_of_not_hasPlace hp]
      rfl
  have hother : ∀ j, j ≠ i → (m.stepOf code i).routine j = m.routine j := fun j hj => by
    rw [hr, if_neg hj]
  refine h.end_call (i := i) ?_ hreg (fun j hj => by rw [hother j hj]) ?_ ?_
    fun j d hj hd => by rwa [hother j hj] at hd
  · refine lt_of_ne_ended ?_
    rw [hr, if_pos rfl]
    simp
  · refine call?_of_notMem fun d => ?_
    rw [hr, if_pos rfl]
    exact hsettled.notMem_registered _ d
  · rw [Routine.call?, hst]
    exact if_pos rfl

/-! ### Code that uses the registry -/

section PushNext

variable (next : Outcome V V → Code P V σ V)

theorem call?_pushNext (hi : i.val < m.routines.size) :
    ((m.pushFrame i (.next next)).routine i).call? p = none := by
  rw [pushFrame, routine_update_self hi]
  rfl

theorem isActive_pushFrame (hi : (m.routine i).control.isActive = true) (f : Frame P V σ) :
    ((m.pushFrame i f).routine i).control.isActive = true := by
  rwa [pushFrame, routine_update_self (lt_of_isActive hi)]

theorem Tidy.pushNext (ht : m.Tidy) (hi : (m.routine i).control.isActive = true) :
    (m.pushFrame i (.next next)).Tidy :=
  (Arranges.pushFrame (R := fun _ => True) .refl (.next next) (fun _ hr => by cases hr)).own_eq ht hi |>.1

/-- Code that is in no call begins an operation. -/
theorem Registered.pushNext (h : m.Registered p) (hi : (m.routine i).control.isActive = true)
    (hnone : (m.routine i).call? p = none) : (m.pushFrame i (.next next)).Registered p := by
  have hcall : ∀ j, ((m.pushFrame i (.next next)).routine j).call? p = (m.routine j).call? p := by
    intro j
    by_cases hji : j = i
    · rw [hji, call?_pushNext next (lt_of_isActive hi), hnone]
    · rw [pushFrame, routine_update_of_ne (Ne.symm hji)]
  refine h.congr (registry_update ..) hcall fun j d _ hd => ?_
  rw [pushFrame, routine_update] at hd
  split at hd <;> exact hd

end PushNext

/-- Routine `i` has put the entry and the frames there with which it resumes `c`. -/
def calling (m : Machine P V σ) (i : RoutineId) (r : RegistryId) (c : RoutineId)
    (next : Outcome V V → Code P V σ V) : Machine P V σ :=
  ((m.setRegistry (.registry r) ((m.registry (.registry r)).push c)).pushFrame i
    (.next next)).pushFrame i (.registered (.registry r) c)

section Calling

variable {next : Outcome V V → Code P V σ V}

/-- A registered resume begins with its entry and its frames. -/
theorem stepOf_resumeOn {v : V}
    (hc : (m.routine i).control = .running (.act (.resumeOn r c v) next))
    (hco : m.isCoroutine c = true) :
    m.stepOf code i = (m.calling i r c next).resume i c (.plain v) := by
  rw [stepOf_act hc]
  unfold begin onCoroutine
  dsimp only
  rw [isCoroutine_pushFrame, if_pos hco, resumeOn, calling, pushFrame, pushFrame, pushFrame,
    registry_update, setRegistry_eq_update_comm]
  rfl

theorem routine_calling (hlt : i.val < m.routines.size) (j : RoutineId) :
    (m.calling i r c next).routine j = if j = i then { m.routine i with
        stack := .registered (.registry r) c :: .next next :: (m.routine i).stack } else
      m.routine j := by
  rw [calling, pushFrame, pushFrame, update_update, routine_update_ite (by simpa using hlt),
    routine_setRegistry, routine_setRegistry]

theorem registry_calling (p : Place) :
    (m.calling i r c next).registry p =
      (m.setRegistry (.registry r) ((m.registry (.registry r)).push c)).registry p := by
  rw [calling, pushFrame, pushFrame, registry_update, registry_update]

theorem arranges_calling : Arranges (· = r) i m (m.calling i r c next) :=
  ((Arranges.refl.setRegistry (.registry r) (fun _ heq => (Place.registry.inj heq).symm)
    _).pushFrame (.next next) (fun _ hr => by cases hr)).pushFrame (.registered (.registry r) c)
      fun _ heq => (Option.some.inj heq).symm

/-- Then the resume passes control, or fails. -/
theorem transfers_calling (hlt : i.val < m.routines.size) (hco : m.isCoroutine c = true)
    (p : Parcel V) :
    (m.calling i r c next).Transfers i ((m.calling i r c next).resume i c p) := by
  have hmain : c ≠ .main := by
    simp only [isCoroutine, Bool.and_eq_true, bne_iff_ne] at hco
    exact hco.1
  unfold resume
  split
  · next hres =>
    refine .resumes p hres hmain ?_
    rw [routine_calling hlt, if_pos rfl]
    rfl
  · exact .goes rfl

end Calling

/-- A step that begins a registered resume. -/
theorem Registered.resumes (h : m.Registered (.registry r)) (ht : m.Tidy)
    {v : V} {next : Outcome V V → Code P V σ V}
    (hc : (m.routine i).control = .running (.act (.resumeOn r c v) next))
    (hnone : (m.routine i).call? (.registry r) = none)
    (hopen : m.hasPlace (.registry r))
    (hfree : (m.status c).isResumable = true → c ∉ m.callsOn (.registry r)) :
    (m.stepOf code i).Registered (.registry r) := by
  have hi : (m.routine i).control.isActive = true := by rw [hc]; rfl
  have hlt := lt_of_isActive hi
  by_cases hco : m.isCoroutine c = true
  · rw [stepOf_resumeOn hc hco]
    set m₁ := m.calling i r c next with hm₁
    have ha : Arranges (· = r) i m m₁ := arranges_calling
    obtain ⟨ht₁, hcontrol₁, -⟩ := ha.own_eq ht hi
    have hi₁ : (m₁.routine i).control.isActive = true := hcontrol₁ ▸ hi
    have hr₁ : ∀ j, m₁.routine j = if j = i then { m.routine i with
        stack := .registered (.registry r) c :: .next next :: (m.routine i).stack } else
          m.routine j := routine_calling hlt
    have hstatus : m₁.status c = m.status c := by
      rw [status, hr₁, status]
      split
      · next hci => rw [hci]
      · rfl
    have hreg₁ : m₁.registry (.registry r) = (m.registry (.registry r)).push c := by
      rw [hm₁, registry_calling, registry_setRegistry hopen, if_pos rfl]
    have htr : m₁.Transfers i (m₁.resume i c (.plain v)) := transfers_calling hlt hco _
    refine h.begin_call (i := i) (c := c) hlt ?_ (fun j hj => ?_) hnone ?_ ?_ ?_
    · rw [registry, htr.registries]
      exact hreg₁
    · rw [htr.call? ht₁ hi₁, hr₁, if_neg hj]
    · rw [htr.call? ht₁ hi₁, hr₁, if_pos rfl]
      exact if_pos rfl
    · intro j d hj hd
      have hd₁ := htr.listening ht₁ hi₁ hj hd
      rwa [hr₁, if_neg hj] at hd₁
    · intro d hd
      obtain ⟨hres, hdc⟩ := resume_listens ht₁ hi₁ hd
      exact ⟨hdc, hfree (hstatus ▸ hres)⟩
  · rw [stepOf_act hc]
    unfold begin onCoroutine
    dsimp only
    rw [isCoroutine_pushFrame, if_neg hco]
    exact (h.pushNext next hi hnone).transfers (ht.pushNext next hi) (isActive_pushFrame hi _)
      (call?_pushNext next hlt) (.goes rfl)

/-- A coroutine that does not run hands out nothing. -/
theorem exists_yield_eq_fail (hc : m.status c ≠ .running) (v : V) :
    ∃ f, m.yield i c (.plain v) = m.fail i f := by
  cases hst : m.status c with
  | running => exact absurd hst hc
  | canceled => exact ⟨.canceled, by simp [Machine.yield, hst, releaseParcel]⟩
  | _ => exact ⟨.cannotYield (m.status c), by simp [Machine.yield, hst, releaseParcel]⟩

/-- A step in which a body is suspended through the registry. -/
theorem Registered.suspends (h : m.Registered (.registry r)) (ht : m.Tidy) {v : V}
    {next : Outcome V V → Code P V σ V}
    (hc : (m.routine i).control = .running (.act (.suspend r v) next))
    (hnone : (m.routine i).call? (.registry r) = none) :
    (m.stepOf code i).Registered (.registry r) := by
  have hi : (m.routine i).control.isActive = true := by rw [hc]; rfl
  have h₀ := h.pushNext next hi hnone
  have ht₀ := ht.pushNext next hi
  have hi₀ := isActive_pushFrame hi (.next next)
  have hnone₀ := call?_pushNext (p := .registry r) next (lt_of_isActive hi)
  rw [stepOf_act hc]
  generalize m.pushFrame i (.next next) = m₀ at h₀ ht₀ hi₀ hnone₀
  have hfail : ∀ f, (m₀.fail i f).Registered (.registry r) := fun f =>
    h₀.transfers ht₀ hi₀ hnone₀ (.goes rfl)
  unfold begin suspend
  dsimp only
  split
  · split
    · exact hfail _
    · next hmain =>
      split
      · next c g heq =>
        have hfind : (m₀.registry (.registry r)).items.find? (· == i) = some c :=
          congrArg Prod.fst heq
        obtain rfl : c = i := by simpa using List.find?_some hfind
        have hplace : m₀.hasPlace (.registry r) := by
          by_contra hp
          rw [registry_of_not_hasPlace hp] at hfind
          cases hfind
        have hitems : g.items = (m₀.registry (.registry r)).items.erase c := by
          have hg : ⟨(m₀.registry (.registry r)).items.eraseP (· == c)⟩ = g :=
            congrArg Prod.snd heq
          rw [← hg, List.erase_eq_eraseP']
        set m₁ := m₀.setRegistry (.registry r) g with hm₁
        have hr₁ : ∀ j, m₁.routine j = m₀.routine j := fun j => routine_setRegistry ..
        have ht₁ : m₁.Tidy := ht₀.congr hr₁
        have hi₁ : (m₁.routine c).control.isActive = true := by rwa [hr₁]
        -- Whether the yield is accepted or not, the body does not run afterwards with a resume
        -- that waits.
        obtain ⟨htr, hstatus⟩ : m₁.Transfers c (m₁.yield c c (.plain v)) ∧
            (m₁.yield c c (.plain v)).status c ≠ .running := by
          by_cases hrun : m₁.status c = .running
          · obtain ⟨l, hout⟩ := ht₁.exists_listener hrun hmain
            refine ⟨.yields _ hrun hmain (.inl rfl), ?_⟩
            rw [status, routine_yield ht₁ hi₁ hrun hout]
            simp [handedOut]
          · obtain ⟨f, heq⟩ := exists_yield_eq_fail (i := c) hrun v
            refine ⟨heq ▸ .goes rfl, ?_⟩
            rw [heq, status, fail, reply, setControl, routine_update]
            split <;> exact hrun
        refine h₀.use_entry (c := c) ?_ (fun j => ?_) (fun j d hj hd => ?_) fun j hj => ?_
        · rw [registry, htr.registries]
          change (m₁.registry (.registry r)).items = _
          rw [hm₁, registry_setRegistry hplace, if_pos rfl, hitems]
        · rw [htr.call? ht₁ hi₁, hr₁]
        · rw [← hr₁ j]
          exact htr.listening ht₁ hi₁ (ne_of_call? hnone₀ hj) hd
        · exact hstatus ((htr.tidy ht₁ hi₁).status_of_waitsOn hj)
      · exact hfail _
  · exact hfail _

theorem Registered.step (h : m.Registered (.registry r)) (hs : m.Sound) (ht : m.Tidy)
    (huse : m.usesRegistry r = true) (halone : m.resumesAlone r = true)
    (hstep : m.step code = some m') : m'.Registered (.registry r) := by
  obtain ⟨i, ready, hready, ⟨hi, hp, rfl⟩ | ⟨-, rfl⟩⟩ := ht.step_cases hstep
  · by_cases hr : m.usedRegistry i = some r
    · unfold usedRegistry at hr
      unfold usesRegistry at huse
      unfold resumesAlone at halone
      simp only [hready] at huse halone
      split at hr
      · next a next hc =>
        -- Code is in no call.
        have hnone : (m.routine i).call? (.registry r) = none := by
          have hpos := hs.linked.posture i (by simp)
          simp only [Routine.Posture, hc] at hpos
          exact call?_of_notMem fun c => hpos.notMem_registered _ c
        cases a with
        | resumeOn q c v =>
          obtain rfl : q = r := Option.some.inj hr
          rw [hc] at huse halone
          have hopen : q.val < m.registries.size := by simpa using huse
          refine h.resumes ht hc hnone hopen fun hres => ?_
          simpa [hres] using halone
        | suspend q v =>
          obtain rfl : q = r := Option.some.inj hr
          exact h.suspends ht hc hnone
        | _ => cases hr
      · next q next hc =>
        rw [hc] at huse
        simp [hr] at huse
      · next o hc =>
        cases hst : (m.routine i).stack with
        | nil => simp [hst] at hr
        | cons f st =>
          rw [hst] at hr
          cases f with
          | registered q c =>
            cases q with
            | registry q =>
              obtain rfl : q = r := Option.some.inj hr
              exact h.comes_back hs hc hst
            | context d => cases hr
          | _ => cases hr
      · cases hr
    · exact h.passes hs ht hi hr hp
  · exact h.congr rfl (fun _ => rfl) fun _ _ _ => id

end Machine

end OneShot
