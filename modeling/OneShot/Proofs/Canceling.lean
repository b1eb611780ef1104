import OneShot.Proofs.GivenUp
import OneShot.Proofs.Origins
import OneShot.Proofs.Registered

/-!
# Canceling a coroutine

A cancellation wakes the one yield in which the coroutine waits, and then waits for the body to end. So
whatever the body does, the canceling routine hears of nothing but the end of the body: `AwaitsEnd`. The
outcome of the body then comes to the code that goes on after the cancellation: `ComesOut`. A coroutine
that is dropped is woken in the same way, or never begins.

`Reaches.canceling` collects this, with what follows from the coroutine being given up.
-/

namespace OneShot

variable {P V σ : Type}

namespace Machine

open Control

variable {code : P → Entry V → Code P V σ V} {m m₁ m₂ m' : Machine P V σ} {i j c d r : RoutineId}
  {o : Outcome V (Parcel V)} {answer : V} {next : Outcome V V → Code P V σ V}
  {st : List (Frame P V σ)}

/-! ## Until the body ends -/

/-- Routine `i` has canceled coroutine `c`, and waits for the end of its body. -/
structure AwaitsEnd (m : Machine P V σ) (i c : RoutineId) (st : List (Frame P V σ)) : Prop where
  status : m.status c = .canceled
  listening : (m.routine i).control = .listening c
  stack : (m.routine i).stack = st

/-- It waits until the body ends. -/
theorem AwaitsEnd.step (h : m.AwaitsEnd i c st) (hm : m.Proper) (hs : m.Shut c)
    (hstep : m.step code = some m') :
    m'.AwaitsEnd i c st ∨ ∃ o, EndsIn m m' c o ∧ (m'.routine i).control = .returning o ∧
      (m'.routine i).stack = st := by
  have hstack : (m'.routine i).stack = st := by
    obtain ⟨j, -, -, ⟨hj, hp, -⟩ | ⟨-, rfl⟩⟩ := hm.tidy.step_cases hstep
    · have hij : i ≠ j := by
        rintro rfl
        exact ne_listening_of_isActive hj c h.listening
      rw [hp.stack hm.tidy hj hij, h.stack]
    · exact h.stack
  rcases hm.tidy.shut_step hs hstep with hspared | ⟨o, hends⟩
  · exact .inl ⟨hspared.status.trans h.status, hspared.listening i h.listening, hstack⟩
  · exact .inr ⟨o, hends, hends.told i h.listening, hstack⟩

/-- In every run it still waits, or the body has ended. -/
theorem AwaitsEnd.of_reaches (h : m.AwaitsEnd i c st) (hm : m.Proper) (hg : m.GivenUp c)
    (hr : Reaches code m m') :
    m'.AwaitsEnd i c st ∨ ∃ o m₁ m₂, Reaches code m m₁ ∧ m₁.AwaitsEnd i c st ∧
      m₁.step code = some m₂ ∧ EndsIn m₁ m₂ c o ∧ (m₂.routine i).control = .returning o ∧
      (m₂.routine i).stack = st ∧ Reaches code m₂ m' := by
  induction hr with
  | refl => exact .inl h
  | @step m m₁ m' hstep hrest ih =>
    rcases h.step hm hg.shut hstep with hwaits | ⟨o, hends, hcontrol, hstack⟩
    · refine (ih hwaits (hm.step hstep) (hg.step hm hstep)).imp id ?_
      rintro ⟨o, m₂, m₃, hr, hrest'⟩
      exact ⟨o, m₂, m₃, .step hstep hr, hrest'⟩
    · exact .inr ⟨o, m, m₁, .refl m, h, hstep, hends, hcontrol, hstack, hrest⟩
  | @turn m m' _ ih =>
    have hwaits : m.passTurn.AwaitsEnd i c st :=
      ⟨by rw [Machine.status, routine_passTurn]; exact h.status, by rw [routine_passTurn]; exact h.listening,
        by rw [routine_passTurn]; exact h.stack⟩
    refine (ih hwaits hm.passTurn hg.passTurn).imp id ?_
    rintro ⟨o, m₂, m₃, hr, hrest'⟩
    exact ⟨o, m₂, m₃, .turn hr, hrest'⟩

/-! ## What the cancellation comes to -/

/-- What code gets to see of a cancellation when the body has ended with an outcome: nothing of its
value, and nothing of a failure that says no more than that it was canceled. -/
def canceledWith (answer : V) : Outcome V (Parcel V) → Outcome V V
  | .value _ => .value answer
  | .failure .canceled => .value answer
  | .failure f => .failure f
  | .panic p => .panic p

/-- The outcome `o` of the body is on its way to the code that goes on after the cancellation; this many
frames are left. -/
inductive ComesOut (m : Machine P V σ) (i : RoutineId) (answer : V)
    (next : Outcome V V → Code P V σ V) (st : List (Frame P V σ)) (o : Outcome V (Parcel V)) :
    Nat → Prop where
  | canceling (control : (m.routine i).control = .returning o)
    (stack : (m.routine i).stack = .canceling answer :: .next next :: st) :
    ComesOut m i answer next st o 1
  | next (control : (m.routine i).control = .returning ((canceledWith answer o).map .plain))
    (stack : (m.routine i).stack = .next next :: st) : ComesOut m i answer next st o 0

namespace ComesOut

variable {n : Nat}

theorem isActive (h : m.ComesOut i answer next st o n) : (m.routine i).control.isActive = true := by
  cases h with
  | canceling control _ => rw [control]; rfl
  | next control _ => rw [control]; rfl

theorem congr (h : m.ComesOut i answer next st o n) (hc : (m'.routine i).control = (m.routine i).control)
    (hst : (m'.routine i).stack = (m.routine i).stack) : m'.ComesOut i answer next st o n := by
  cases h with
  | canceling control stack => exact .canceling (hc.trans control) (hst.trans stack)
  | next control stack => exact .next (hc.trans control) (hst.trans stack)

/-- The frame of the cancellation is left. -/
theorem advance (code : P → Entry V → Code P V σ V) (h : m.ComesOut i answer next st o n)
    (ht : m.Tidy) :
    (∃ n' < n, (m.stepOf code i).ComesOut i answer next st o n') ∨
      ((m.stepOf code i).routine i).control = .running (next (canceledWith answer o)) ∧
        ((m.stepOf code i).routine i).stack = st := by
  have hi := h.isActive
  have hlt := lt_of_isActive hi
  cases h with
  | canceling control stack =>
    have hpop : ∀ st', Arranges (fun _ => True) i m
        (m.update i fun r => { r with stack := st' }) := fun st' =>
      Arranges.refl.own (fun _ => ⟨_, _, _, rfl⟩) fun _ _ hr => absurd trivial hr
    have hreply : ∀ {m₁ : Machine P V σ} (o' : Outcome V (Parcel V)), i.val < m₁.routines.size →
        (m₁.routine i).stack = .next next :: st →
          ((m₁.reply i o').routine i).control = .returning o' ∧
            ((m₁.reply i o').routine i).stack = .next next :: st := by
      intro m₁ o' hlt₁ hst₁
      rw [reply, setControl, routine_update_self hlt₁]
      exact ⟨rfl, hst₁⟩
    have hstack : ((m.update i fun r => { r with stack := .next next :: st }).routine i).stack =
        .next next :: st := by rw [routine_update_self hlt]
    have hlt₁ : i.val < (m.update i fun r => { r with stack := .next next :: st }).routines.size := by
      simpa using hlt
    -- What is left of the cancellation when its frame is taken off.
    have hcanceling : ((m.stepOf code i).routine i).control =
          .returning ((canceledWith answer o).map .plain) ∧
        ((m.stepOf code i).routine i).stack = .next next :: st := by
      rw [stepOf_returning control stack]
      simp only [unwind]
      split
      · next p =>
        refine hreply _ ((hpop _).releaseParcel p |>.lt ht hi) ?_
        rw [stack_releaseParcel]
        exact hstack
      · exact hreply _ hlt₁ hstack
      · next hvalue hfailure =>
        have hout : (canceledWith answer o).map .plain = o := by
          cases o with
          | value p => exact absurd rfl (hvalue p)
          | failure f => cases f <;> first | rfl | exact absurd rfl hfailure
          | panic p => rfl
        rw [hout]
        exact hreply _ hlt₁ hstack
    exact .inl ⟨0, Nat.zero_lt_one, .next hcanceling.1 hcanceling.2⟩
  | next control stack =>
    right
    rw [stepOf_next control stack, seen_map_plain, setControl, update_update,
      routine_update_self hlt]
    exact ⟨rfl, rfl⟩

end ComesOut

/-- The outcome comes nearer to the code with each step of the routine. -/
theorem comesOut_nears (code : P → Entry V → Code P V σ V) (i : RoutineId) (answer : V)
    (next : Outcome V V → Code P V σ V) (st : List (Frame P V σ)) (o : Outcome V (Parcel V)) :
    Nears code (· < ·) (fun n j m => j = i ∧ m.Proper ∧ m.ComesOut i answer next st o n)
      (fun _ m' => (m'.routine i).control = .running (next (canceledWith answer o)) ∧
        (m'.routine i).stack = st) where
  wf := Nat.lt_wfRel.wf
  ready := by
    rintro n j m ⟨rfl, hm, hout⟩
    exact hm.sound.linked.ready j hout.isActive
  turn := by
    rintro n j m ⟨rfl, hm, hout⟩
    exact ⟨rfl, hm.passTurn, hout.congr (by rw [routine_passTurn]) (by rw [routine_passTurn])⟩
  other := by
    rintro n j m m' ⟨rfl, hm, hout⟩ hstep hhead
    refine ⟨rfl, hm.step hstep, ?_⟩
    obtain ⟨x, ready, hready, ⟨-, -, hf⟩ | ⟨-, rfl⟩⟩ := hm.sound.step_cases hstep
    · have hne : j ≠ x := by
        rintro rfl
        exact hhead (by rw [hready]; rfl)
      obtain ⟨hcontrol, hstack⟩ := hf.routine_of_isActive hm.sound hne hout.isActive
      exact hout.congr hcontrol hstack
    · exact hout.congr rfl rfl
  own := by
    rintro n j m m' ⟨rfl, hm, hout⟩ hstep hhead
    obtain rfl : m.stepOf code j = m' := stepOf_eq_of_step hhead hstep
    rcases hout.advance code hm.tidy with ⟨n', hlt, hout'⟩ | hdone
    · exact .inl ⟨n', j, hlt, rfl, hm.step hstep, hout'⟩
    · exact .inr hdone

/-! ## The step that cancels or gives up -/

/-- The yield in which coroutine `c` waits fails with `canceled`, and no other routine but `i`, which
makes the step, notices anything. -/
structure Wakes (m m' : Machine P V σ) (i c : RoutineId) : Prop where
  status : m'.status c = .canceled
  reader : ∃ r, r ≠ i ∧ (m.routine r).control = .reading c ∧
    (m'.routine r).control = .returning (.failure .canceled) ∧
    ∀ j, j ≠ i → j ≠ r → (m'.routine j).control = (m.routine j).control
  stack : ∀ j, j ≠ i → (m'.routine j).stack = (m.routine j).stack
  others : ∀ d, d ≠ c → m'.status d = m.status d

/-- Operations that drop coroutine `c`, and wait for the end of its body or do not. -/
inductive Drops (c : RoutineId) : Code P V σ V → Prop where
  | abandon (next : Unit → Code P V σ V) : Drops c (.ask (.abandon c) next)
  | dispose (answer : V) (next : Outcome V V → Code P V σ V) :
    Drops c (.act (.dispose c answer) next)

/-- Changing the status and pushing a frame do not concern each other. -/
theorem setStatus_pushFrame_comm (m : Machine P V σ) (i c : RoutineId) (s : Status)
    (f : Frame P V σ) : (m.setStatus c s).pushFrame i f = (m.pushFrame i f).setStatus c s := by
  by_cases hic : i = c
  · subst hic
    simp only [setStatus, pushFrame, update_update]
  · exact (update_comm hic _ _).symm

/-- Who waits for the input of a suspended coroutine waits in a yield. -/
theorem Tidy.exists_reading (ht : m.Tidy) (hc : m.status c = .suspending) :
    ∃ r, (m.routine c).inbox = .awaited r ∧ (m.routine r).control = .reading c := by
  obtain ⟨r, hin⟩ := ht.exists_reader (c := c) (by rw [hc]; rfl)
  refine ⟨r, hin, ((ht.reader c r).1 hin).resolve_right ?_⟩
  rintro ⟨-, hfresh⟩
  have hnew := (ht.slotted c).fresh.2 hfresh
  cases hc.symm.trans hnew

/-- A cancellation wakes the yield, and waits for the end of the body. -/
theorem Proper.stepOf_cancel (code : P → Entry V → Code P V σ V) (hm : m.Proper)
    (hhead : m.ready.head? = some i)
    (hc : (m.routine i).control = .running (.act (.cancel c answer) next))
    (hco : m.isCoroutine c = true) (hst : m.status c = .suspending) :
    Wakes m (m.stepOf code i) i c ∧ (m.stepOf code i).AwaitsEnd i c
        (.canceling answer :: .next next :: (m.routine i).stack) ∧
      (m.stepOf code i).GivenUp c := by
  have ht := hm.tidy
  have hi : (m.routine i).control.isActive = true := by rw [hc]; rfl
  have hlt := lt_of_isActive hi
  have hltc : c.val < m.routines.size := lt_of_isResumable (by rw [hst]; rfl)
  set m₁ := (m.pushFrame i (.next next)).pushFrame i (.canceling answer) with hm₁
  have hr₁ : ∀ j, m₁.routine j = if j = i then { m.routine i with
      stack := .canceling answer :: .next next :: (m.routine i).stack } else m.routine j := by
    intro j
    rw [hm₁, pushFrame, pushFrame, update_update, routine_update_ite hlt]
  have ha : Arranges (fun _ => True) i m m₁ :=
    (Arranges.refl.pushFrame (.next next) fun _ _ => trivial).pushFrame (.canceling answer)
      fun _ _ => trivial
  obtain ⟨ht₁, hcontrol₁, -⟩ := ha.own_eq ht hi
  have hi₁ : (m₁.routine i).control.isActive = true := hcontrol₁ ▸ hi
  have heq : m.stepOf code i = m₁.handOver i c .canceled .cancel := by
    have hst₁ : (m.pushFrame i (.next next)).status c = .suspending := by
      rw [status_pushFrame, hst]
    rw [stepOf_act hc]
    simp only [begin, onCoroutine, isCoroutine_pushFrame, hco, if_true, cancel, hst₁, handOver]
    rw [hm₁, setStatus_pushFrame_comm]
  obtain ⟨r, hin, hreading⟩ := ht.exists_reading hst
  have hri : r ≠ i := ht.ne_reader hi hin
  have hr := routine_handOver ht₁ hi₁ (by rw [hm₁, status_pushFrame, status_pushFrame, hst]; rfl)
    (by rwa [hm₁, inbox_pushFrame, inbox_pushFrame]) .canceled .cancel
  rw [← heq] at hr
  have hcanceled : (m.stepOf code i).status c = .canceled := by simp [status, hr, handedOver]
  refine ⟨⟨hcanceled, ⟨r, hri, hreading, ?_, fun j hji hjr => ?_⟩, fun j hji => ?_, fun d hdc => ?_⟩,
    ⟨hcanceled, ?_, ?_⟩, ⟨?_, ?_, ?_⟩, .inl hcanceled⟩
  · simp [hr, handedOver, hm₁, hri, hreading, take]
  · simp [hr, handedOver, hm₁, hji, hjr]
  · simp [hr, handedOver, hr₁, hji]
  · rw [status, hr]
    simp only [handedOver, if_neg hdc]
    exact (status_pushFrame _).trans (status_pushFrame _)
  · simp [hr, handedOver]
  · simp [hr, handedOver, hr₁]
  · have hstep : m.step code = some (m.stepOf code i) := step_of_head hhead
    exact hltc.trans_le (hm.sound.size_step hstep)
  · rw [hcanceled]
    rfl
  · simp [hr, handedOver]

/-- Nobody waits for an output of a coroutine that can be resumed. -/
theorem Tidy.not_isBusy (ht : m.Tidy) (hc : (m.status c).isResumable = true) :
    m.isBusy c = false := by
  unfold isBusy
  rw [((ht.slotted c).resumable hc).2]

/-- A disposal closes the coroutine, and waits for its end. -/
theorem stepOf_dispose (code : P → Entry V → Code P V σ V)
    (hc : (m.routine i).control = .running (.act (.dispose c answer) next))
    (hco : m.isCoroutine c = true) (hin : (m.routine c).inbox = .awaited r)
    (hbusy : m.isBusy c = false) :
    m.stepOf code i = ((m.pushFrame i (.next next)).close c).2.join i c answer := by
  have hclose : (m.pushFrame i (.next next)).close c =
      (true, ((m.pushFrame i (.next next)).close c).2) := by
    unfold Machine.close
    rw [inbox_pushFrame, hin]
  rw [stepOf_act hc]
  unfold begin onCoroutine dispose
  simp only [isCoroutine_pushFrame, hco, if_true, isBusy_pushFrame, hbusy]
  rw [hclose]
  rfl

/-- Waiting for the end of a coroutine that was closed concerns the routine that waits alone, whether
the body has ended already or not. -/
theorem Tidy.join_close (ht : m.Tidy) (hi : (m.routine i).control.isActive = true)
    (hin : (m.routine c).inbox = .awaited r) (answer : V) (j : RoutineId) :
    ((m.close c).2.join i c answer).status j = (m.closed c r j).status ∧
      (((m.close c).2.join i c answer).routine j).inbox = (m.closed c r j).inbox ∧
      (j ≠ i → (((m.close c).2.join i c answer).routine j).control = (m.closed c r j).control ∧
        (((m.close c).2.join i c answer).routine j).stack = (m.closed c r j).stack) := by
  rw [← routine_close ht hin, Machine.status]
  by_cases hend : ((m.close c).2.routine c).control = .ended
  · have hreply : (m.close c).2.join i c answer =
        (m.close c).2.reply i (.value (.plain answer)) := by
      unfold Machine.join
      rw [hend]
    rw [hreply, reply, Machine.setControl, routine_update]
    split
    · next hj => exact ⟨rfl, rfl, fun hne => absurd hj.1.symm hne⟩
    · exact ⟨rfl, rfl, fun _ => ⟨rfl, rfl⟩⟩
  · rw [routine_join (ht.isActive_close hi hin) hend]
    exact ⟨rfl, rfl, fun hne => ⟨by simp [joined, hne], rfl⟩⟩

/-- What the operations that drop a coroutine have in common: the coroutine is closed, and what else
happens concerns the routine that drops it. -/
theorem Tidy.stepOf_drop (code : P → Entry V → Code P V σ V) {x : Code P V σ V} (ht : m.Tidy)
    (hdrop : Drops c x)
    (hc : (m.routine i).control = .running x) (hco : m.isCoroutine c = true)
    (hin : (m.routine c).inbox = .awaited r) (hbusy : m.isBusy c = false) (j : RoutineId) :
    (m.stepOf code i).status j = (m.closed c r j).status ∧
      ((m.stepOf code i).routine j).inbox = (m.closed c r j).inbox ∧
      (j ≠ i → ((m.stepOf code i).routine j).control = (m.closed c r j).control ∧
        ((m.stepOf code i).routine j).stack = (m.routine j).stack) := by
  have hi : (m.routine i).control.isActive = true := by rw [hc]; rfl
  cases hdrop with
  | abandon next =>
    have hstep : m.stepOf code i = (m.close c).2.setControl i (.running (next ())) := by
      rw [stepOf_running hc]
      simp only [exec, answer, hco, hbusy]
      rfl
    rw [hstep, Machine.status, Machine.setControl, routine_update, routine_close ht hin]
    split
    · next hj => exact ⟨rfl, rfl, fun hne => absurd hj.1.symm hne⟩
    · exact ⟨rfl, rfl, fun _ => ⟨rfl, rfl⟩⟩
  | dispose answer next =>
    have hclosed := (ht.pushNext next hi).join_close (isActive_pushFrame hi _)
      (r := r) (by rwa [inbox_pushFrame]) answer j
    rw [← stepOf_dispose code hc hco hin hbusy] at hclosed
    obtain ⟨hstatus, hinbox, hrest⟩ := hclosed
    refine ⟨?_, ?_, fun hji => ?_⟩
    · rw [hstatus]
      exact if_congr Iff.rfl rfl (status_pushFrame _)
    · rw [hinbox]
      simp [closed]
    · obtain ⟨hcontrol, hstack⟩ := hrest hji
      rw [hcontrol, hstack]
      refine ⟨by simp [closed], ?_⟩
      show ((m.pushFrame i (.next next)).routine j).stack = _
      rw [pushFrame, routine_update_of_ne hji.symm]

/-- A suspended coroutine that is dropped is woken like one that is canceled. -/
theorem Proper.wakes_of_drops {x : Code P V σ V} (hm : m.Proper) (hdrop : Drops c x)
    (hc : (m.routine i).control = .running x) (hco : m.isCoroutine c = true)
    (hst : m.status c = .suspending) : Wakes m (m.stepOf code i) i c := by
  have hi : (m.routine i).control.isActive = true := by rw [hc]; rfl
  obtain ⟨r, hin, hreading⟩ := hm.tidy.exists_reading hst
  have hri : r ≠ i := hm.tidy.ne_reader hi hin
  have hall := hm.tidy.stepOf_drop code hdrop hc hco hin
    (hm.tidy.not_isBusy (by rw [hst]; rfl))
  refine ⟨?_, ⟨r, hri, hreading, ?_, fun j hji hjr => ?_⟩, fun j hji => ((hall j).2.2 hji).2,
    fun d hdc => ?_⟩
  · rw [(hall c).1]
    simp [closed]
  · rw [((hall r).2.2 hri).1]
    simp [closed, hreading, take]
  · rw [((hall j).2.2 hji).1]
    simp [closed, hjr]
  · rw [(hall d).1]
    simp [closed, hdc, status]

/-- A coroutine that is dropped is given up. -/
theorem Proper.givenUp_of_drops {x : Code P V σ V} (hm : m.Proper) (hhead : m.ready.head? = some i)
    (hdrop : Drops c x) (hc : (m.routine i).control = .running x) (hco : m.isCoroutine c = true)
    (hres : (m.status c).isResumable = true) : (m.stepOf code i).GivenUp c := by
  obtain ⟨r, hin⟩ := hm.tidy.exists_reader hres
  obtain ⟨hstatus, hinbox, -⟩ :=
    hm.tidy.stepOf_drop code hdrop hc hco hin (hm.tidy.not_isBusy hres) c
  have hcanceled : (m.stepOf code i).status c = .canceled := by
    rw [hstatus]
    simp [closed]
  have hstep : m.step code = some (m.stepOf code i) := step_of_head hhead
  refine ⟨⟨?_, by rw [hcanceled]; rfl, ?_⟩, .inl hcanceled⟩
  · exact (lt_of_isResumable hres).trans_le (hm.sound.size_step hstep)
  · rw [hinbox]
    simp [closed]

/-- A coroutine that was never resumed ends when it is dropped. -/
theorem Tidy.ended_of_drops (code : P → Entry V → Code P V σ V) {x : Code P V σ V} (ht : m.Tidy)
    (hdrop : Drops c x)
    (hc : (m.routine i).control = .running x) (hco : m.isCoroutine c = true)
    (hst : m.status c = .notRunning) :
    (∃ s, (m.routine c).control = .fresh s) ∧ ((m.stepOf code i).routine c).control = .ended := by
  have hres : (m.status c).isResumable = true := by rw [hst]; rfl
  have hfresh : (m.routine c).control.isFresh = true := (ht.slotted c).fresh.1 hst
  obtain ⟨s, hs⟩ : ∃ s, (m.routine c).control = .fresh s := by
    cases hcontrol : (m.routine c).control with
    | fresh s => exact ⟨s, rfl⟩
    | _ => rw [hcontrol] at hfresh; cases hfresh
  have hin : (m.routine c).inbox = .awaited c := (ht.reader c c).2 (.inr ⟨rfl, hfresh⟩)
  have hci : c ≠ i := by
    rintro rfl
    cases hc.symm.trans hs
  refine ⟨⟨s, hs⟩, ?_⟩
  rw [((ht.stepOf_drop code hdrop hc hco hin (ht.not_isBusy hres) c).2.2 hci).1]
  simp [closed, hs, take]

/-- What becomes of a cancellation of coroutine `c` by routine `i`, which goes on with `next`. -/
structure Cancels (code : P → Entry V → Code P V σ V) (m : Machine P V σ) (i c : RoutineId)
    (answer : V) (next : Outcome V V → Code P V σ V) : Prop where
  /-- The yield in which the coroutine waits fails, and nobody else notices anything. -/
  wakes : Wakes m (m.stepOf code i) i c
  /-- From then on, every yield through the coroutine fails at once, and it can be neither resumed nor
  canceled. -/
  outOfUse : ∀ m', Reaches code (m.stepOf code i) m' → m'.OutOfUse code c
  /-- The routine waits until the body has ended with an outcome `o`. Then the status is final, and the
  outcome comes to the code that goes on. -/
  waits : ∀ m', Reaches code (m.stepOf code i) m' →
    m'.AwaitsEnd i c (.canceling answer :: .next next :: (m.routine i).stack) ∨
      ∃ o m₁ m₂, Reaches code (m.stepOf code i) m₁ ∧
        m₁.AwaitsEnd i c (.canceling answer :: .next next :: (m.routine i).stack) ∧
        m₁.step code = some m₂ ∧ EndsIn m₁ m₂ c o ∧ Reaches code m₂ m' ∧
        m'.status c = o.ending .canceled ∧ (m'.routine c).control = .ended ∧
        ((∃ n, m'.ComesOut i answer next (m.routine i).stack o n) ∨
          ∃ m₃ m₄, Reaches code m₂ m₃ ∧ m₃.step code = some m₄ ∧ Reaches code m₄ m' ∧
            (m₄.routine i).control = .running (next (canceledWith answer o)) ∧
            (m₄.routine i).stack = (m.routine i).stack)
  /-- In every fair run in which the body ends, the code goes on. -/
  comesBack : ∀ g : Nat → Machine P V σ, IsFairRun code g → g 0 = m.stepOf code i →
    ∀ n o, EndsIn (g n) (g (n + 1)) c o → ∃ k, n < k ∧
      ((g k).routine i).control = .running (next (canceledWith answer o)) ∧
      ((g k).routine i).stack = (m.routine i).stack

theorem Proper.cancels (hm : m.Proper) (hhead : m.ready.head? = some i)
    (hc : (m.routine i).control = .running (.act (.cancel c answer) next))
    (hco : m.isCoroutine c = true) (hst : m.status c = .suspending) :
    Cancels code m i c answer next := by
  have hstep : m.step code = some (m.stepOf code i) := step_of_head hhead
  have hm₀ := hm.step hstep
  obtain ⟨hwakes, hawaits, hgiven⟩ := hm.stepOf_cancel code hhead hc hco hst
  constructor
  case wakes => exact hwakes
  case outOfUse =>
    intro m' hr
    have hco₀ : (m.stepOf code i).isCoroutine c = true :=
      (hm.sound.isCoroutine_step hstep (lt_of_isResumable (by rw [hst]; rfl))).trans hco
    exact hgiven.outOfUse_of_reaches hm₀ hco₀ hr
  case waits =>
    intro m' hr
    refine (hawaits.of_reaches hm₀ hgiven hr).imp id ?_
    rintro ⟨o, m₁, m₂, hr₁, hawaits₁, hstep₁, hends, hcontrol, hstack, hrest⟩
    have hm₁ := hm₀.of_reaches hr₁
    have hm₂ := hm₁.step hstep₁
    have hgiven₂ := (hgiven.of_reaches hm₀ hr₁).step hm₁ hstep₁
    obtain ⟨hstatus, hended⟩ := hgiven₂.ended_of_reaches hm₂ hends.ended hrest
    refine ⟨o, m₁, m₂, hr₁, hawaits₁, hstep₁, hends, hrest, ?_, hended, ?_⟩
    · rw [hstatus, hends.status, hawaits₁.status]
    · rcases (comesOut_nears code i answer next _ o).of_reaches
        ⟨rfl, hm₂, .canceling hcontrol hstack⟩ hrest with ⟨n, j, -, -, hout⟩ | harrived
      · exact .inl ⟨n, hout⟩
      · exact .inr harrived
  case comesBack =>
    intro g hg hg0 n o hends
    have hr : Reaches code (m.stepOf code i) (g n) := hg0 ▸ hg.reaches (Nat.zero_le n)
    have hmn := hm₀.of_reaches hr
    have hgivenn := hgiven.of_reaches hm₀ hr
    -- The body has not ended before.
    have hawaitsn : (g n).AwaitsEnd i c (.canceling answer :: .next next :: (m.routine i).stack) := by
      refine (hawaits.of_reaches hm₀ hgiven hr).resolve_right ?_
      rintro ⟨o', m₁, m₂, hr₁, -, hstep₁, hends₁, -, -, hrest⟩
      have hm₁ := hm₀.of_reaches hr₁
      have hgiven₂ := (hgiven.of_reaches hm₀ hr₁).step hm₁ hstep₁
      have hended := (hgiven₂.ended_of_reaches (hm₁.step hstep₁) hends₁.ended hrest).2
      cases hended.symm.trans hends.control
    have hstepn : (g n).step code = some (g (n + 1)) := by
      refine (hg.moves n).resolve_right fun hturn => ?_
      have hsame : ((g (n + 1)).routine c).control = .returning o := by
        rw [hturn, routine_passTurn, hends.control]
      cases hends.ended.symm.trans hsame
    obtain ⟨hcontrol, hstack⟩ : ((g (n + 1)).routine i).control = .returning o ∧
        ((g (n + 1)).routine i).stack = .canceling answer :: .next next :: (m.routine i).stack := by
      have htold := hends.told i hawaitsn.listening
      rcases hawaitsn.step hmn hgivenn.shut hstepn with hawaits' | ⟨-, -, -, hstack⟩
      · cases htold.symm.trans hawaits'.listening
      · exact ⟨htold, hstack⟩
    obtain ⟨k, hk, -, hdone⟩ := (comesOut_nears code i answer next _ o).of_isFairRun hg
      (n := n + 1) ⟨rfl, hmn.step hstepn, .canceling hcontrol hstack⟩
    exact ⟨k + 1, by omega, hdone⟩

/-- What becomes of a coroutine that routine `i` cancels or drops. -/
structure Canceling (code : P → Entry V → Code P V σ V) (m : Machine P V σ) (i c : RoutineId) :
    Prop where
  /-- A suspended coroutine can be canceled. -/
  cancels : m.status c = .suspending → ∀ answer next,
    (m.routine i).control = .running (.act (.cancel c answer) next) → Cancels code m i c answer next
  /-- A suspended coroutine that is dropped is woken in the same way. -/
  drops : m.status c = .suspending → ∀ x, Drops c x → (m.routine i).control = .running x →
    Wakes m (m.stepOf code i) i c ∧
      ∀ m', Reaches code (m.stepOf code i) m' → m'.OutOfUse code c
  /-- One that was never resumed ends at once, and does not make a step later. -/
  dropsUnbegun : m.status c = .notRunning → ∀ x, Drops c x → (m.routine i).control = .running x →
    (∃ s, (m.routine c).control = .fresh s) ∧ ∀ m', Reaches code (m.stepOf code i) m' →
      (m'.routine c).control = .ended ∧ m'.OutOfUse code c

/-- In every machine that is reached: whatever the body of a suspended coroutine does after a cancellation,
the canceling routine hears only how it ends, after it has ended; and a coroutine that is dropped is
woken in the same way, or never begins. -/
theorem Reaches.canceling {store : σ} {c₀ : Code P V σ V} (h : Reaches code (initial store c₀) m)
    (hhead : m.ready.head? = some i) (hco : m.isCoroutine c = true) : Canceling code m i c := by
  have hm := h.proper
  have hstep : m.step code = some (m.stepOf code i) := step_of_head hhead
  have hlater : ∀ x, Drops c x → (m.routine i).control = .running x →
      (m.status c).isResumable = true →
        (m.stepOf code i).GivenUp c ∧ (m.stepOf code i).isCoroutine c = true := by
    intro x hdrop hc hres
    refine ⟨hm.givenUp_of_drops hhead hdrop hc hco hres, ?_⟩
    exact (hm.sound.isCoroutine_step hstep (lt_of_isResumable hres)).trans hco
  constructor
  case cancels => exact fun hst answer next hc => hm.cancels hhead hc hco hst
  case drops =>
    intro hst x hdrop hc
    obtain ⟨hgiven, hco'⟩ := hlater x hdrop hc (by rw [hst]; rfl)
    exact ⟨hm.wakes_of_drops hdrop hc hco hst, fun m' hr =>
      hgiven.outOfUse_of_reaches (hm.step hstep) hco' hr⟩
  case dropsUnbegun =>
    intro hst x hdrop hc
    obtain ⟨hgiven, hco'⟩ := hlater x hdrop hc (by rw [hst]; rfl)
    obtain ⟨hfresh, hended⟩ := hm.tidy.ended_of_drops code hdrop hc hco hst
    exact ⟨hfresh, fun m' hr => ⟨(hgiven.ended_of_reaches (hm.step hstep) hended hr).2,
      hgiven.outOfUse_of_reaches (hm.step hstep) hco' hr⟩⟩

/-! A body that hands out once more after it was canceled. -/

/-- Hands out twice, and ends as the second yield does. -/
def yieldsTwice : Unit → Entry Nat → Code Unit Nat Unit Nat
  | _, .start v self => .act (.yield self v) fun _ => .perform (.yield self v)
  | _, _ => .pure 0

/-- Makes a coroutine, resumes it and cancels it. -/
def cancelsOnce : Code Unit Nat Unit Nat :=
  .ask (.spawn .standard ()) fun c => .act (.resume c 5) fun _ => .perform (.cancel c 7)

theorem canceling_yieldsTwice :
    ∃ m m', Reaches yieldsTwice (initial () cancelsOnce) m ∧ m.ready.head? = some .main ∧
      m.isCoroutine ⟨1⟩ = true ∧ m.status ⟨1⟩ = .suspending ∧
      (∃ next, (m.routine .main).control = .running (.act (.cancel ⟨1⟩ 7) next)) ∧
      Canceling yieldsTwice m .main ⟨1⟩ ∧ Reaches yieldsTwice m m' ∧ m'.isDone = true ∧
      m'.status ⟨1⟩ = .canceled ∧
      (m'.routine .main).outbox = .full (.value (.plain 7)) := by
  have hreach : Reaches yieldsTwice (initial () cancelsOnce)
      ((initial () cancelsOnce).run yieldsTwice 5) := reaches_run _ 5
  exact ⟨_, _, hreach, rfl, rfl, rfl, ⟨_, rfl⟩, hreach.canceling rfl rfl, reaches_run _ 20, rfl, rfl,
    rfl⟩

end Machine

end OneShot
