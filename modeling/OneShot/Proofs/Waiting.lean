import OneShot.Proofs.Steps

/-!
# Who waits for whom

Each wait is for one slot. A routine that waits for an output of a coroutine is the one for whom the
outbox of the coroutine waits, and a routine that waits for an input is the one for whom the inbox
waits; so at most one routine waits at each slot. The status of a coroutine says which of its slots
are waited at. `Tidy` is the invariant that says this; it holds whatever code does, also of
coroutines whose yielders are used by others.

The equations `routine_handOver`, `routine_yield`, `routine_finish` and `routine_close` say what the
operations of a tidy machine do to each routine.
-/

namespace OneShot

variable {P V σ : Type}

namespace Control

/-- What a routine that waits for an input does when the input comes. -/
def take : Control P V σ → Input V → Control P V σ
  | .fresh s, .parcel p => .starting s p
  | .fresh _, .cancel => .ended
  | _, .parcel p => .returning (.value p)
  | _, .cancel => .returning (.failure .canceled)

/-- What a routine that waits for the end of a coroutine does when the end comes. -/
def awoken : Control P V σ → Control P V σ
  | .joining _ answer => .returning (.value (.plain answer))
  | c => c

/-- A routine that takes an input does not wait any more. -/
theorem take_ne (c : Control P V σ) (x : Input V) (d : RoutineId) :
    c.take x ≠ .listening d ∧ c.take x ≠ .reading d ∧ (∀ a, c.take x ≠ .joining d a) ∧
      (c.take x).isFresh = false := by
  cases c <;> cases x <;> simp [take, isFresh]

theorem take_ne_ended (c : Control P V σ) (x : Input V) (h : c.isFresh = false) :
    c.take x ≠ .ended := by
  cases c <;> cases x <;> simp_all [take, isFresh]

/-- A routine whose wait for an end is over does not wait any more. -/
theorem awoken_ne (c : Control P V σ) (d : RoutineId) :
    (c.awoken = .listening d ↔ c = .listening d) ∧ (c.awoken = .reading d ↔ c = .reading d) ∧
      ∀ a, c.awoken ≠ .joining d a := by
  cases c <;> simp [awoken]

theorem isFresh_awoken (c : Control P V σ) : c.awoken.isFresh = c.isFresh := by
  cases c <;> rfl

theorem awoken_eq_ended {c : Control P V σ} : c.awoken = .ended ↔ c = .ended := by
  cases c <;> simp [awoken]

/-- A routine that can go on waits for nothing. -/
theorem ne_of_isActive {c : Control P V σ} (h : c.isActive = true) (d : RoutineId) :
    c ≠ .listening d ∧ c ≠ .reading d ∧ (∀ a, c ≠ .joining d a) ∧ c.isFresh = false ∧
      c ≠ .ended := by
  cases c <;> simp_all [isActive, isFresh]

end Control

namespace Slot

variable {μ : Type}

/-- Who waits for the next message. -/
def reader? : Slot μ → Option RoutineId
  | .awaited r => some r
  | _ => none

/-- The slot after a message was sent. -/
def sent (s : Slot μ) (x : μ) : Slot μ :=
  match s with
  | .awaited _ => .empty
  | .empty => .full x
  | .full y => .full y

theorem reader?_eq_some {s : Slot μ} {r : RoutineId} : s.reader? = some r ↔ s = .awaited r := by
  cases s <;> simp [reader?]

end Slot

namespace Routine

/-- Whether the topmost frame waits for the end of a canceled coroutine. -/
def isCanceling (r : Routine P V σ) : Bool :=
  match r.stack with
  | .canceling _ :: _ => true
  | _ => false

/-- A routine that nobody waits for yet: one that was just made, or none. -/
def IsUnbegun (id : RoutineId) (r : Routine P V σ) : Prop :=
  r = .absent ∨ ∃ config start scope, r = .new id config start scope

/-- What the status of coroutine `c` says about its slots and about what it is doing. -/
structure Slotted (c : RoutineId) (r : Routine P V σ) : Prop where
  resumable : r.status.isResumable = true → r.inbox.isAwaited = true ∧ r.outbox = .empty
  running : r.status = .running → r.inbox = .empty ∧ (c ≠ .main → r.outbox.isAwaited = true)
  canceled : r.status = .canceled → r.inbox = .empty
  fresh : r.status = .notRunning ↔ r.control.isFresh = true
  inbox : ∀ x, r.inbox ≠ .full x
  outbox : ∀ o, r.outbox = .full o → r.control = .ended
  joiners : r.joiners ≠ [] → r.status = .canceled ∧ r.control ≠ .ended

end Routine

namespace Machine

open Control

variable {m m' : Machine P V σ} {i j c r l : RoutineId} {x : Input V} {o : Outcome V (Parcel V)}

/-- Who waits for a message waits at the slot into which it will come, and the other way round. -/
structure Tidy (m : Machine P V σ) : Prop where
  slotted : ∀ c, (m.routine c).Slotted c
  listener : ∀ c j, (m.routine c).outbox = .awaited j ↔ (m.routine j).control = .listening c
  reader : ∀ c r, (m.routine c).inbox = .awaited r ↔
    (m.routine r).control = .reading c ∨ r = c ∧ (m.routine c).control.isFresh = true
  joiner : ∀ c j, j ∈ (m.routine c).joiners ↔ ∃ a, (m.routine j).control = .joining c a
  /-- A coroutine to which a resume listens runs, and one to which a cancellation listens is
  canceled. -/
  heard : ∀ c j, (m.routine j).control = .listening c →
    m.status c = if (m.routine j).isCanceling then .canceled else .running
  /-- Nobody resumes the main line. -/
  main : (m.routine .main).scope = none ∧ ∀ j, (m.routine j).control ≠ .listening .main ∧
    (m.routine j).control ≠ .reading .main ∧ ∀ a, (m.routine j).control ≠ .joining .main a

theorem deliver_eq (m : Machine P V σ) (r : RoutineId) (x : Input V) :
    m.deliver r x = m.setControl r ((m.routine r).control.take x) := by
  unfold deliver
  split <;> simp_all [Control.take, reply, fail]

theorem lt_of_isResumable (h : (m.status c).isResumable = true) : c.val < m.routines.size := by
  by_contra hge
  rw [status, routine_of_size_le (Nat.le_of_not_lt hge)] at h
  cases h

namespace Tidy

/-- A routine that can go on does not wait for an input. -/
theorem ne_reader (h : m.Tidy) (hi : (m.routine i).control.isActive = true)
    (hin : (m.routine c).inbox = .awaited r) : r ≠ i := by
  rintro rfl
  rcases (h.reader c r).1 hin with hr | ⟨rfl, hf⟩
  · exact ne_reading_of_isActive hi c hr
  · rw [isFresh_of_isActive hi] at hf
    cases hf

/-- A routine that can go on does not wait for an output. -/
theorem ne_listener (h : m.Tidy) (hi : (m.routine i).control.isActive = true)
    (hout : (m.routine c).outbox = .awaited l) : l ≠ i := by
  rintro rfl
  exact ne_listening_of_isActive hi c ((h.listener c l).1 hout)

theorem lt_of_reader (h : m.Tidy) (hin : (m.routine c).inbox = .awaited r) :
    r.val < m.routines.size := by
  apply lt_of_ne_ended
  rcases (h.reader c r).1 hin with hr | ⟨rfl, hf⟩
  · rw [hr]
    simp
  · intro hc
    rw [hc] at hf
    cases hf

theorem lt_of_listener (h : m.Tidy) (hout : (m.routine c).outbox = .awaited l) :
    l.val < m.routines.size := by
  apply lt_of_ne_ended
  rw [(h.listener c l).1 hout]
  simp

theorem exists_reader (h : m.Tidy) (hc : (m.status c).isResumable = true) :
    ∃ r, (m.routine c).inbox = .awaited r := by
  have hin := ((h.slotted c).resumable hc).1
  cases heq : (m.routine c).inbox with
  | awaited r => exact ⟨r, rfl⟩
  | _ => rw [heq] at hin; cases hin

/-- Somebody listens to a coroutine that runs. -/
theorem exists_listener (h : m.Tidy) (hc : m.status c = .running) (hmain : c ≠ .main) :
    ∃ l, (m.routine c).outbox = .awaited l := by
  have hawaited := ((h.slotted c).running hc).2 hmain
  cases heq : (m.routine c).outbox with
  | awaited l => exact ⟨l, rfl⟩
  | _ => rw [heq] at hawaited; cases hawaited

end Tidy

/-! ## What the operations do -/

/-- Routine `i` hands an input to coroutine `c` and waits for an output. -/
def handOver (m : Machine P V σ) (i c : RoutineId) (s : Status) (x : Input V) : Machine P V σ :=
  ((m.setStatus c s).sendInput c x).listen i c

/-- What an input that is handed over does to a routine `j` of a tidy machine in which `r` waits for
it. -/
def handedOver (m : Machine P V σ) (i c r : RoutineId) (s : Status) (x : Input V) (j : RoutineId) :
    Routine P V σ :=
  { m.routine j with
    status := if j = c then s else (m.routine j).status
    inbox := if j = c then .empty else (m.routine j).inbox
    outbox := if j = c then .awaited i else (m.routine j).outbox
    control := if j = i then .listening c else
      if j = r then (m.routine r).control.take x else (m.routine j).control }

theorem routine_handOver (h : m.Tidy) (hi : (m.routine i).control.isActive = true)
    (hc : (m.status c).isResumable = true) (hin : (m.routine c).inbox = .awaited r) (s : Status)
    (x : Input V) (j : RoutineId) : (m.handOver i c s x).routine j = m.handedOver i c r s x j := by
  have hlt := lt_of_isResumable hc
  have hri := h.ne_reader hi hin
  have hr := h.lt_of_reader hin
  have hlti := lt_of_isActive hi
  have hout := ((h.slotted c).resumable hc).2
  have hsend : ∀ j, ((m.setStatus c s).sendInput c x).routine j =
      { m.routine j with
        status := if j = c then s else (m.routine j).status
        inbox := if j = c then .empty else (m.routine j).inbox
        control := if j = r then (m.routine r).control.take x else (m.routine j).control } := by
    intro j
    have hin' : ((m.setStatus c s).routine c).inbox = .awaited r := by
      rw [setStatus, routine_update_self hlt]
      exact hin
    unfold sendInput
    simp only [hin']
    rw [routine_wake, deliver_eq, setStatus, update_update, setControl,
      routine_update_ite (by simpa using hr), routine_update_ite hlt, routine_update_ite hlt]
    split_ifs <;> simp_all
  have hout' : (((m.setStatus c s).sendInput c x).routine c).outbox = .empty := by
    rw [hsend]
    exact hout
  have hsize : ((m.setStatus c s).sendInput c x).routines.size = m.routines.size :=
    (Keeps.sendInput _ c x).size.trans (size_update ..)
  unfold handOver listen
  simp only [hout']
  rw [routine_pause, setControl, routine_update_ite (by simpa [hsize] using hlti),
    routine_update_ite (by rwa [hsize]), routine_update_ite (by rwa [hsize])]
  unfold handedOver
  split_ifs <;> simp_all

/-- Hands out an output, with a listener `l` for it, does this to a routine `j` of a tidy machine. -/
def handedOut (m : Machine P V σ) (i c l : RoutineId) (p : Parcel V) (j : RoutineId) :
    Routine P V σ :=
  { m.routine j with
    status := if j = c then .suspending else (m.routine j).status
    inbox := if j = c then .awaited i else (m.routine j).inbox
    outbox := if j = c then .empty else (m.routine j).outbox
    control := if j = i then .reading c else
      if j = l then .returning (.value p) else (m.routine j).control }

theorem routine_yield (h : m.Tidy) (hi : (m.routine i).control.isActive = true)
    (hc : m.status c = .running) (hout : (m.routine c).outbox = .awaited l) (p : Parcel V)
    (j : RoutineId) : (m.yield i c p).routine j = m.handedOut i c l p j := by
  have hlt : c.val < m.routines.size := by
    by_contra hge
    rw [status, routine_of_size_le (Nat.le_of_not_lt hge)] at hc
    cases hc
  have hli := h.ne_listener hi hout
  have hl := h.lt_of_listener hout
  have hlti := lt_of_isActive hi
  have hin := ((h.slotted c).running hc).1
  have hsend : ∀ j, ((m.setStatus c .suspending).sendOutput c (.value p)).routine j =
      { m.routine j with
        status := if j = c then .suspending else (m.routine j).status
        outbox := if j = c then .empty else (m.routine j).outbox
        control := if j = l then .returning (.value p) else (m.routine j).control } := by
    intro j
    have hout' : ((m.setStatus c .suspending).routine c).outbox = .awaited l := by
      rw [setStatus, routine_update_self hlt]
      exact hout
    rw [sendOutput_awaited hout' (by simp), routine_wake, setStatus, update_update, reply,
      setControl, routine_update_ite (by simpa using hl), routine_update_ite hlt,
      routine_update_ite hlt]
    split_ifs <;> simp_all
  have hin' : (((m.setStatus c .suspending).sendOutput c (.value p)).routine c).inbox = .empty := by
    rw [hsend]
    exact hin
  have hsize : ((m.setStatus c .suspending).sendOutput c (.value p)).routines.size =
      m.routines.size := (Keeps.sendOutput _ c _).size.trans (size_update ..)
  unfold Machine.yield read
  simp only [hc, hin']
  rw [routine_pause, setControl, routine_update_ite (by simpa [hsize] using hlti),
    routine_update_ite (by rwa [hsize]), routine_update_ite (by rwa [hsize])]
  unfold handedOut
  split_ifs <;> simp_all

theorem routine_wakeJoiner (m : Machine P V σ) (i j : RoutineId) :
    (m.wakeJoiner i).routine j =
      { m.routine j with
        control := if j = i then (m.routine j).control.awoken else (m.routine j).control } := by
  unfold wakeJoiner
  split
  · next c a hc =>
    rw [routine_wake, reply, setControl, routine_update_ite (lt_of_ne_ended (by simp [hc]))]
    split_ifs with hj
    · subst hj
      simp [hc, Control.awoken]
    · rfl
  · next hne =>
    split_ifs with hj
    · subst hj
      cases hc : (m.routine j).control with
      | joining c a => exact absurd hc (hne c a)
      | _ => simp [Control.awoken, ← hc]
    · rfl

theorem routine_wakeJoiners (m : Machine P V σ) (is : List RoutineId) (j : RoutineId) :
    (is.foldl wakeJoiner m).routine j =
      { m.routine j with
        control := if j ∈ is then (m.routine j).control.awoken else (m.routine j).control } := by
  induction is generalizing m with
  | nil => simp
  | cons i is ih =>
    have hawoken : ∀ c : Control P V σ, c.awoken.awoken = c.awoken := by
      intro c
      cases c <;> rfl
    rw [List.foldl_cons, ih, routine_wakeJoiner]
    by_cases hji : j = i <;> by_cases hj : j ∈ is <;> simp [hji, hj, hawoken]

/-- What the end of a coroutine with an outcome does to a routine `j` of a tidy machine. -/
def finished (m : Machine P V σ) (i : RoutineId) (o : Outcome V (Parcel V)) (j : RoutineId) :
    Routine P V σ :=
  { m.routine j with
    status := if j = i then o.ending (m.status i) else (m.routine j).status
    outbox := if j = i then (m.routine i).outbox.sent o else (m.routine j).outbox
    joiners := if j = i then [] else (m.routine j).joiners
    control := if j = i then .ended else
      if (m.routine i).outbox.reader? = some j then .returning o else
      if j ∈ (m.routine i).joiners then (m.routine j).control.awoken else (m.routine j).control }

theorem routine_finish (h : m.Tidy) (hi : (m.routine i).control.isActive = true)
    (o : Outcome V (Parcel V)) (j : RoutineId) : (m.finish i o).routine j = m.finished i o j := by
  have hlti := lt_of_isActive hi
  have hfull : ∀ x, (m.routine i).outbox ≠ .full x := fun x hx =>
    ne_ended_of_isActive hi (((h.slotted i).outbox x hx))
  set m₁ := (m.update i (Routine.atEnd o)).pause i with hm₁
  have hr : ∀ j, m₁.routine j = if j = i then (m.routine i).atEnd o else m.routine j := fun j => by
    rw [hm₁, routine_pause, routine_update_ite hlti]
  have hsize : m₁.routines.size = m.routines.size := size_update ..
  have hsend : ∀ j, (m₁.sendOutput i o).routine j =
      { m₁.routine j with
        outbox := if j = i then (m.routine i).outbox.sent o else (m.routine j).outbox
        control := if (m.routine i).outbox.reader? = some j then .returning o else
          (m₁.routine j).control } := by
    intro j
    have hout : (m₁.routine i).outbox = (m.routine i).outbox := by rw [hr, if_pos rfl]; rfl
    unfold sendOutput
    rw [hout]
    cases hbox : (m.routine i).outbox with
    | full x => exact absurd hbox (hfull x)
    | empty =>
      simp only [Slot.sent, Slot.reader?]
      rw [routine_update_ite (by rwa [hsize]), hr]
      split_ifs <;> simp_all
    | awaited l =>
      have hli := h.ne_listener hi hbox
      have hl := h.lt_of_listener hbox
      simp only [Slot.sent, Slot.reader?]
      have hhear : ((m₁.update i fun r => { r with outbox := .empty }).hear l i o) =
          (m₁.update i fun r => { r with outbox := .empty }).reply l o := by
        cases o with
        | panic p =>
          have hstatus : (m₁.update i fun r => { r with outbox := .empty }).setStatus i .panicked =
              m₁.update i fun r => { r with outbox := .empty } := by
            simp only [setStatus, hm₁, update_pause, update_update]
            rfl
          simp only [hear, hstatus]
        | value a => rfl
        | failure f => rfl
      rw [hhear, routine_wake, reply, setControl, routine_update_ite (by simpa [hsize] using hl),
        routine_update_ite (by rwa [hsize]), routine_update_ite (by rwa [hsize]), hr]
      split_ifs <;> simp_all
  rw [finish_eq, ← hm₁, routine_wakeJoiners, hsend, hr]
  unfold finished
  have hself : i ∉ (m.routine i).joiners := fun hmem => by
    obtain ⟨a, ha⟩ := (h.joiner i i).1 hmem
    rw [ha] at hi
    cases hi
  by_cases hji : j = i
  · subst hji
    have hne : (m.routine j).outbox.reader? ≠ some j := fun hj =>
      h.ne_listener hi (Slot.reader?_eq_some.1 hj) rfl
    simp [hself, hne, Routine.atEnd, status]
  · by_cases hl : (m.routine i).outbox.reader? = some j
    · have hlis := (h.listener i j).1 (Slot.reader?_eq_some.1 hl)
      simp [hji, hl, Control.awoken]
    · simp [hji, hl]

/-- What the closing of a coroutine for whose input `r` waits does to a routine `j` of a tidy
machine. -/
def closed (m : Machine P V σ) (c r j : RoutineId) : Routine P V σ :=
  { m.routine j with
    status := if j = c then .canceled else (m.routine j).status
    inbox := if j = c then .empty else (m.routine j).inbox
    control := if j = r then (m.routine r).control.take .cancel else (m.routine j).control }

theorem routine_close (h : m.Tidy) (hin : (m.routine c).inbox = .awaited r) (j : RoutineId) :
    (m.close c).2.routine j = m.closed c r j := by
  have hr := h.lt_of_reader hin
  have hlt : c.val < m.routines.size := by
    by_contra hge
    rw [routine_of_size_le (Nat.le_of_not_lt hge)] at hin
    cases hin
  unfold close
  simp only [hin]
  rw [routine_wake, deliver_eq, setControl, routine_update_ite (by simpa using hr),
    routine_update_ite hlt, routine_update_ite hlt]
  unfold closed
  split_ifs <;> simp_all

/-- A routine that can go on does so when a coroutine was closed. -/
theorem Tidy.isActive_close (h : m.Tidy) (hi : (m.routine i).control.isActive = true)
    (hin : (m.routine c).inbox = .awaited r) :
    ((m.close c).2.routine i).control.isActive = true := by
  rw [routine_close h hin]
  simpa only [closed, if_neg (h.ne_reader hi hin).symm] using hi

/-- Closing a coroutine changes nothing if nobody waits for its input. -/
theorem close_eq (h : m.Tidy) (hin : ∀ r, (m.routine c).inbox ≠ .awaited r) :
    m.close c = (false, m) := by
  have hresumable : (m.status c).isResumable = false := by
    cases hc : (m.status c).isResumable with
    | false => rfl
    | true =>
      obtain ⟨r, hr⟩ := h.exists_reader hc
      exact absurd hr (hin r)
  unfold close
  split
  · next r hr => exact absurd hr (hin r)
  · rw [hresumable]
    rfl

/-- What waiting for the end of coroutine `c` does to a routine `j`. -/
def joined (m : Machine P V σ) (i c : RoutineId) (answer : V) (j : RoutineId) : Routine P V σ :=
  { m.routine j with
    joiners := if j = c then i :: (m.routine j).joiners else (m.routine j).joiners
    control := if j = i then .joining c answer else (m.routine j).control }

theorem routine_join (hi : (m.routine i).control.isActive = true)
    (hc : (m.routine c).control ≠ .ended) (answer : V) (j : RoutineId) :
    (m.join i c answer).routine j = m.joined i c answer j := by
  have hlti := lt_of_isActive hi
  unfold join
  split
  · next hended => exact absurd hended hc
  · rw [routine_pause, setControl, routine_update_ite (by simpa using hlti),
      routine_update_ite (lt_of_ne_ended hc), routine_update_ite (lt_of_ne_ended hc)]
    unfold joined
    split_ifs <;> simp_all

/-! ## The operations keep a machine tidy -/

namespace Tidy

/-- A routine that waits for an input of a coroutine waits for nothing else. -/
theorem of_reader (h : m.Tidy) (hin : (m.routine c).inbox = .awaited r) :
    (∀ d, (m.routine r).control ≠ .listening d) ∧ (∀ d a, (m.routine r).control ≠ .joining d a) ∧
      (m.routine r).control ≠ .ended ∧ ((m.routine c).control.isFresh = true → r = c) ∧
      ((m.routine r).control.isFresh = true → r = c) := by
  have hself : (m.routine c).control.isFresh = true → r = c := fun hf =>
    Slot.awaited.inj (hin.symm.trans ((h.reader c c).2 (.inr ⟨rfl, hf⟩)))
  rcases (h.reader c r).1 hin with hr | ⟨rfl, hf⟩
  · rw [hr]
    exact ⟨by simp, by simp, by simp, hself, fun hf => by cases hf⟩
  · refine ⟨fun d hd => ?_, fun d a hd => ?_, fun hd => ?_, hself, fun _ => rfl⟩
    all_goals
      rw [hd] at hf
      cases hf

theorem handOver (h : m.Tidy) (hi : (m.routine i).control.isActive = true)
    (hc : (m.status c).isResumable = true) (hmain : c ≠ .main) {s : Status}
    (hs : s = if (m.routine i).isCanceling then .canceled else .running) :
    (m.handOver i c s x).Tidy := by
  obtain ⟨r, hin⟩ := h.exists_reader hc
  have hr := routine_handOver h hi hc hin s x
  generalize m.handOver i c s x = m' at hr
  have hri := h.ne_reader hi hin
  have hout := ((h.slotted c).resumable hc).2
  have htake := take_ne (m.routine r).control x
  have hfresh := (htake r).2.2.2
  have hended := take_ne_ended (m.routine r).control x
  have hread := (h.reader c r).1 hin
  obtain ⟨hrlisten, hrjoin, hrended, hcfresh, hrfresh⟩ := h.of_reader hin
  have hactive := ne_of_isActive hi
  obtain ⟨-, -, -, hifresh, hiended⟩ := hactive i
  constructor
  case slotted =>
    intro d
    obtain ⟨h₁, h₂, h₃, h₄, h₅, h₆, h₇⟩ := h.slotted d
    rw [hr]
    constructor <;> simp only [handedOver] <;>
      grind [Status.isResumable, Slot.isAwaited, isFresh, status]
  case listener =>
    intro d j
    have hl := h.listener d j
    rw [hr, hr]
    simp only [handedOver]
    grind
  case reader =>
    intro d j
    have hl := h.reader d j
    rw [hr, hr]
    simp only [handedOver]
    grind [isFresh]
  case joiner =>
    intro d j
    have hl := h.joiner d j
    rw [hr, hr]
    simp only [handedOver]
    grind
  case heard =>
    intro d j
    have hl := h.heard d j
    have hl' := h.listener d j
    have hcanceling : (m'.routine j).isCanceling = (m.routine j).isCanceling := by
      rw [hr]
      rfl
    rw [hcanceling, Machine.status, hr, hr]
    simp only [handedOver]
    grind [Machine.status]
  case main =>
    refine ⟨by rw [hr]; exact h.main.1, fun j => ?_⟩
    have hj := h.main.2 j
    rw [hr]
    simp only [handedOver]
    grind

theorem close (h : m.Tidy) (c : RoutineId) : (m.close c).2.Tidy := by
  by_cases hin : ∀ r, (m.routine c).inbox ≠ .awaited r
  · rw [close_eq h hin]
    exact h
  · obtain ⟨r, hin⟩ : ∃ r, (m.routine c).inbox = .awaited r := by
      simpa using hin
    have hr := routine_close h hin
    generalize (m.close c).2 = m' at hr
    have htake := take_ne (m.routine r).control .cancel
    have hfresh := (htake r).2.2.2
    have hended := take_ne_ended (m.routine r).control .cancel
    have hread := (h.reader c r).1 hin
    obtain ⟨hrlisten, hrjoin, hrended, hcfresh, hrfresh⟩ := h.of_reader hin
    constructor
    case slotted =>
      intro d
      obtain ⟨h₁, h₂, h₃, h₄, h₅, h₆, h₇⟩ := h.slotted d
      rw [hr]
      constructor <;> simp only [closed] <;>
        grind [Status.isResumable, Slot.isAwaited, isFresh, status]
    case listener =>
      intro d j
      have hl := h.listener d j
      rw [hr, hr]
      simp only [closed]
      grind
    case reader =>
      intro d j
      have hl := h.reader d j
      rw [hr, hr]
      simp only [closed]
      grind [isFresh]
    case joiner =>
      intro d j
      have hl := h.joiner d j
      rw [hr, hr]
      simp only [closed]
      grind
    case heard =>
      intro d j
      have hl := h.heard d j
      have hl' := h.listener d j
      have hrun := (h.slotted d).running
      have hcan := (h.slotted d).canceled
      have hcanceling : (m'.routine j).isCanceling = (m.routine j).isCanceling := by
        rw [hr]
        rfl
      rw [hcanceling, Machine.status, hr, hr]
      simp only [closed]
      grind [Machine.status]
    case main =>
      refine ⟨by rw [hr]; exact h.main.1, fun j => ?_⟩
      have hj := h.main.2 j
      rw [hr]
      simp only [closed]
      grind

end Tidy

/-- Routine `i` changes nothing by which others deal with each other or with it. -/
structure Inward (i : RoutineId) (m m' : Machine P V σ) : Prop where
  size : m'.routines.size = m.routines.size
  status : ∀ j, (m'.routine j).status = (m.routine j).status
  inbox : ∀ j, (m'.routine j).inbox = (m.routine j).inbox
  outbox : ∀ j, (m'.routine j).outbox = (m.routine j).outbox
  joiners : ∀ j, (m'.routine j).joiners = (m.routine j).joiners
  control : ∀ j, (m'.routine j).control = (m.routine j).control
  stack : ∀ j, j ≠ i → (m'.routine j).stack = (m.routine j).stack
  scope : ∀ j, (m'.routine j).scope.isSome = (m.routine j).scope.isSome

namespace Tidy

theorem inward (h : m.Tidy) (hi : (m.routine i).control.isActive = true) (hq : Inward i m m') :
    m'.Tidy := by
  constructor
  case slotted =>
    intro d
    obtain ⟨h₁, h₂, h₃, h₄, h₅, h₆, h₇⟩ := h.slotted d
    constructor <;>
      simpa only [hq.status, hq.inbox, hq.outbox, hq.joiners, hq.control]
  case listener => exact fun d j => by simpa only [hq.outbox, hq.control] using h.listener d j
  case reader => exact fun d j => by simpa only [hq.inbox, hq.control] using h.reader d j
  case joiner => exact fun d j => by simpa only [hq.joiners, hq.control] using h.joiner d j
  case heard =>
    intro d j hj
    rw [hq.control] at hj
    have hne : j ≠ i := by
      rintro rfl
      exact ne_listening_of_isActive hi d hj
    have hcanceling : (m'.routine j).isCanceling = (m.routine j).isCanceling := by
      unfold Routine.isCanceling
      rw [hq.stack j hne]
    rw [Machine.status, hq.status, hcanceling]
    exact h.heard d j hj
  case main =>
    refine ⟨?_, fun j => by simpa only [hq.control] using h.main.2 j⟩
    have hscope := hq.scope .main
    rw [h.main.1] at hscope
    simpa using hscope

theorem grow (h : m.Tidy) {x : Routine P V σ} (hmain : 0 < m.routines.size)
    (hx : x.IsUnbegun m.next) : (m.grow x).Tidy := by
  have hr := routine_grow m x
  generalize m.grow x = m' at hr
  have hnone := routine_next m
  have hne : (RoutineId.main : RoutineId) ≠ m.next := by
    intro heq
    have hval := congrArg RoutineId.val heq
    simp only [next, RoutineId.main] at hval
    omega
  -- Nobody knows the new routine.
  have hnew : (∀ o, x.outbox ≠ .full o) ∧ (∀ j, x.outbox ≠ .awaited j) ∧ x.joiners = [] ∧
      (∀ a, x.inbox ≠ .full a) ∧
      (∀ j, x.control ≠ .listening j ∧ x.control ≠ .reading j ∧ ∀ a, x.control ≠ .joining j a) ∧
      (x.status = .notRunning ∧ x.control.isFresh = true ∧ x.inbox = .awaited m.next ∧
        x.outbox = .empty ∨
        x.status = .done ∧ x.control.isFresh = false ∧ x.inbox = .empty) := by
    rcases hx with rfl | ⟨config, start, scope, rfl⟩
    · simp [Routine.absent, isFresh]
    · simp [Routine.new, isFresh]
  obtain ⟨hx₁, hx₂, hx₃, hx₄, hx₅, hx₆⟩ := hnew
  have habsent : (m.routine m.next).outbox = .empty ∧ (m.routine m.next).inbox = .empty ∧
      (m.routine m.next).joiners = [] ∧ (m.routine m.next).control = .ended ∧
      (m.routine m.next).status = .done := by
    rw [hnone]
    exact ⟨rfl, rfl, rfl, rfl, rfl⟩
  constructor
  case slotted =>
    intro d
    obtain ⟨h₁, h₂, h₃, h₄, h₅, h₆, h₇⟩ := h.slotted d
    rw [hr]
    constructor <;> grind [Status.isResumable, Slot.isAwaited]
  case listener =>
    intro d j
    have hl := h.listener d j
    have hl' := h.listener d m.next
    rw [hr, hr]
    grind
  case reader =>
    intro d j
    have hl := h.reader d j
    have hl' := h.reader m.next j
    rw [hr, hr]
    grind
  case joiner =>
    intro d j
    have hl := h.joiner d j
    have hl' := h.joiner m.next j
    rw [hr, hr]
    grind
  case heard =>
    intro d j
    have hl := h.heard d j
    have hl' := h.listener m.next j
    by_cases hj : j = m.next
    · rw [hj, hr, if_pos rfl]
      exact fun hc => absurd hc (hx₅ d).1
    · rw [hr j, if_neg hj, Machine.status, hr]
      grind [Machine.status]
  case main =>
    refine ⟨by rw [hr, if_neg hne]; exact h.main.1, fun j => ?_⟩
    have hj := h.main.2 j
    rw [hr]
    grind

theorem setControl (h : m.Tidy) (hi : (m.routine i).control.isActive = true) {d : Control P V σ}
    (hd : d.isActive = true) : (m.setControl i d).Tidy := by
  have hr : ∀ j, (m.setControl i d).routine j = { m.routine j with
      control := if j = i then d else (m.routine j).control } := by
    intro j
    rw [Machine.setControl, routine_update_ite (lt_of_isActive hi)]
    split_ifs with hj
    · rw [hj]
    · rfl
  generalize m.setControl i d = m' at hr
  have hactive := ne_of_isActive hi
  obtain ⟨-, -, -, hifresh, hiended⟩ := hactive i
  have hdactive := ne_of_isActive hd
  obtain ⟨-, -, -, hdfresh, hdended⟩ := hdactive i
  constructor
  case slotted =>
    intro k
    obtain ⟨h₁, h₂, h₃, h₄, h₅, h₆, h₇⟩ := h.slotted k
    rw [hr]
    constructor <;> dsimp only <;> grind
  case listener =>
    intro k j
    have hl := h.listener k j
    rw [hr, hr]
    grind
  case reader =>
    intro k j
    have hl := h.reader k j
    rw [hr, hr]
    grind
  case joiner =>
    intro k j
    have hl := h.joiner k j
    rw [hr, hr]
    grind
  case heard =>
    intro k j
    have hl := h.heard k j
    have hcanceling : (m'.routine j).isCanceling = (m.routine j).isCanceling := by
      rw [hr]
      rfl
    rw [hcanceling, Machine.status, hr, hr]
    grind [Machine.status]
  case main =>
    refine ⟨by rw [hr]; exact h.main.1, fun j => ?_⟩
    have hj := h.main.2 j
    rw [hr]
    grind

theorem join (h : m.Tidy) (hi : (m.routine i).control.isActive = true)
    (hc : (m.routine c).control ≠ .ended) (hstatus : m.status c = .canceled) (hmain : c ≠ .main)
    (answer : V) : (m.join i c answer).Tidy := by
  have hr := routine_join hi hc answer
  generalize m.join i c answer = m' at hr
  have hactive := ne_of_isActive hi
  obtain ⟨-, -, -, hifresh, hiended⟩ := hactive i
  constructor
  case slotted =>
    intro k
    obtain ⟨h₁, h₂, h₃, h₄, h₅, h₆, h₇⟩ := h.slotted k
    rw [hr]
    constructor <;> simp only [joined] <;> grind [isFresh, status]
  case listener =>
    intro k j
    have hl := h.listener k j
    rw [hr, hr]
    simp only [joined]
    grind
  case reader =>
    intro k j
    have hl := h.reader k j
    rw [hr, hr]
    simp only [joined]
    grind [isFresh]
  case joiner =>
    intro k j
    have hl := h.joiner k j
    rw [hr, hr]
    simp only [joined]
    by_cases hji : j = i <;> by_cases hk : k = c <;> simp only [hji, hk] <;> grind
  case heard =>
    intro k j
    have hl := h.heard k j
    have hcanceling : (m'.routine j).isCanceling = (m.routine j).isCanceling := by
      rw [hr]
      rfl
    rw [hcanceling, Machine.status, hr, hr]
    simp only [joined]
    grind [Machine.status]
  case main =>
    refine ⟨by rw [hr]; exact h.main.1, fun j => ?_⟩
    have hj := h.main.2 j
    rw [hr]
    simp only [joined]
    grind

theorem yield (h : m.Tidy) (hi : (m.routine i).control.isActive = true)
    (hc : m.status c = .running) (hmain : c ≠ .main) (p : Parcel V) : (m.yield i c p).Tidy := by
  obtain ⟨l, hout⟩ := h.exists_listener hc hmain
  have hr := routine_yield h hi hc hout p
  generalize m.yield i c p = m' at hr
  have hli := h.ne_listener hi hout
  have hlisten := (h.listener c l).1 hout
  have hactive := ne_of_isActive hi
  obtain ⟨-, -, -, hifresh, hiended⟩ := hactive i
  have hfreshc := (h.slotted c).fresh
  constructor
  case slotted =>
    intro k
    obtain ⟨h₁, h₂, h₃, h₄, h₅, h₆, h₇⟩ := h.slotted k
    rw [hr]
    constructor <;> simp only [handedOut] <;>
      grind [isFresh, status, Status.isResumable, Slot.isAwaited]
  case listener =>
    intro k j
    have hl := h.listener k j
    rw [hr, hr]
    simp only [handedOut]
    grind
  case reader =>
    intro k j
    have hl := h.reader k j
    have hl' := h.reader c j
    have hin := ((h.slotted c).running hc).1
    rw [hr, hr]
    simp only [handedOut]
    grind [isFresh, status]
  case joiner =>
    intro k j
    have hl := h.joiner k j
    rw [hr, hr]
    simp only [handedOut]
    grind
  case heard =>
    intro k j
    have hl := h.heard k j
    have hl' := h.listener k j
    have hcanceling : (m'.routine j).isCanceling = (m.routine j).isCanceling := by
      rw [hr]
      rfl
    rw [hcanceling, Machine.status, hr, hr]
    simp only [handedOut]
    grind [Machine.status]
  case main =>
    refine ⟨by rw [hr]; exact h.main.1, fun j => ?_⟩
    have hj := h.main.2 j
    rw [hr]
    simp only [handedOut]
    grind

theorem finish (h : m.Tidy) (hi : (m.routine i).control.isActive = true)
    (o : Outcome V (Parcel V)) : (m.finish i o).Tidy := by
  have hr := routine_finish h hi o
  generalize m.finish i o = m' at hr
  have hactive := ne_of_isActive hi
  obtain ⟨-, -, -, hifresh, hiended⟩ := hactive i
  have hfull := (h.slotted i).outbox
  have hterminal := terminal_ending o (m.status i)
  have hfreshi := (h.slotted i).fresh
  have hterm : ∀ s : Status, s.isTerminal = true → s.isResumable = false ∧ s ≠ .running ∧
      s ≠ .notRunning := by
    intro s hs
    cases s <;> simp_all [Status.isTerminal, Status.isResumable]
  obtain ⟨ht₁, ht₂, ht₃⟩ := hterm _ hterminal
  have hcanceled : o.ending (m.status i) = .canceled → m.status i = .canceled := by
    unfold Outcome.ending
    grind
  have hawait : ∀ j, (m.routine i).outbox.reader? = some j ↔
      (m.routine j).control = .listening i := fun j => by
    rw [Slot.reader?_eq_some]
    exact h.listener i j
  have hsent : (∀ j, (m.routine i).outbox.sent o ≠ .awaited j) := by
    intro j
    cases (m.routine i).outbox <;> simp [Slot.sent]
  constructor
  case slotted =>
    intro k
    obtain ⟨h₁, h₂, h₃, h₄, h₅, h₆, h₇⟩ := h.slotted k
    have hfresh := isFresh_awoken (m.routine k).control
    have hended := @awoken_eq_ended _ _ _ (m.routine k).control
    have hself := h.joiner i k
    rw [hr]
    constructor <;> simp only [finished, hawait] <;> grind [isFresh, status]
  case listener =>
    intro k j
    have hl := h.listener k j
    have hawoken := awoken_ne (m.routine j).control
    have hl' := h.listener i j
    rw [hr, hr]
    simp only [finished, hawait]
    grind
  case reader =>
    intro k j
    have hl := h.reader k j
    have hawoken := awoken_ne (m.routine j).control
    have hfresh := isFresh_awoken (m.routine k).control
    rw [hr, hr]
    simp only [finished, hawait]
    grind [isFresh]
  case joiner =>
    intro k j
    have hl := h.joiner k j
    have hawoken := awoken_ne (m.routine j).control
    have hl' := h.joiner i j
    rw [hr, hr]
    simp only [finished, hawait]
    grind
  case heard =>
    intro k j
    have hl := h.heard k j
    have hawoken := awoken_ne (m.routine j).control
    have hl' := h.listener k j
    have hcanceling : (m'.routine j).isCanceling = (m.routine j).isCanceling := by
      rw [hr]
      rfl
    rw [hcanceling, Machine.status, hr, hr]
    simp only [finished, hawait]
    grind [Machine.status]
  case main =>
    refine ⟨by rw [hr]; exact h.main.1, fun j => ?_⟩
    have hj := h.main.2 j
    have hawoken := awoken_ne (m.routine j).control
    rw [hr]
    simp only [finished, hawait]
    grind

end Tidy

end Machine

end OneShot
