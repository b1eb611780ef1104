import OneShot.Proofs.Concluding
import OneShot.Proofs.StatusChanges

/-!
# Coroutines that were given up

A coroutine with a terminal status whose input nobody awaits cannot be used any more: no operation that
passes control gets at it, and all that can still happen to it is that its body ends. `Shut` says so, and
`Tidy.shut_step` shows it.

A coroutine that was canceled, or dropped, is such a one: `GivenUp`. It stays canceled unless its body
panics, resumes and cancellations of it are refused, and its yields fail at once: `OutOfUse`.
-/

namespace OneShot

variable {P V σ : Type}

namespace Machine

open Control

variable {code : P → Entry V → Code P V σ V} {m m₁ m₂ m' : Machine P V σ} {i j c d r : RoutineId}
  {R : RegistryId → Prop} {o : Outcome V (Parcel V)}

/-! ## Coroutines that cannot be used any more -/

/-- Coroutine `c` can be neither resumed nor yielded through, and nobody waits for an input of it. -/
structure Shut (m : Machine P V σ) (c : RoutineId) : Prop where
  made : c.val < m.routines.size
  terminal : (m.status c).isTerminal = true
  inbox : (m.routine c).inbox = .empty

/-- What is left as it is of coroutine `c`, and of those who listen to it. -/
structure Spared (m m' : Machine P V σ) (c : RoutineId) : Prop where
  status : m'.status c = m.status c
  inbox : (m'.routine c).inbox = (m.routine c).inbox
  ended : (m.routine c).control = .ended → (m'.routine c).control = .ended
  listening : ∀ j, (m.routine j).control = .listening c → (m'.routine j).control = .listening c

namespace Spared

theorem refl (m : Machine P V σ) (c : RoutineId) : Spared m m c := ⟨rfl, rfl, id, fun _ => id⟩

theorem trans (h : Spared m m₁ c) (h' : Spared m₁ m' c) : Spared m m' c where
  status := h'.status.trans h.status
  inbox := h'.inbox.trans h.inbox
  ended := h'.ended ∘ h.ended
  listening j := h'.listening j ∘ h.listening j

theorem shut (h : Spared m m' c) (hs : m.Shut c) (hsize : m.routines.size ≤ m'.routines.size) :
    m'.Shut c where
  made := hs.made.trans_le hsize
  terminal := by rw [h.status]; exact hs.terminal
  inbox := h.inbox.trans hs.inbox

end Spared

namespace Shut

variable (hs : m.Shut c)
include hs

theorem not_resumable : (m.status c).isResumable = false := by
  rw [Status.isResumable_eq, hs.terminal]
  rfl

theorem ne_running : m.status c ≠ .running := by
  intro hrun
  have hterminal := hs.terminal
  rw [hrun] at hterminal
  cases hterminal

theorem ne_of_resumable (hd : (m.status d).isResumable = true) : c ≠ d := by
  rintro rfl
  rw [hs.not_resumable] at hd
  cases hd

theorem ne_of_awaited (hin : (m.routine d).inbox = .awaited r) : c ≠ d := by
  rintro rfl
  cases hs.inbox.symm.trans hin

end Shut

/-- Who reads neither listens nor has ended. -/
theorem Tidy.spares_reader (ht : m.Tidy) (hin : (m.routine d).inbox = .awaited r) :
    (∀ j, (m.routine j).control = .listening c → j ≠ r) ∧
      ((m.routine c).control = .ended → c ≠ r) := by
  obtain ⟨hlisten, -, hended, -⟩ := ht.of_reader hin
  constructor
  · rintro j hj rfl
    exact hlisten c hj
  · rintro hc rfl
    exact hended hc

/-- Giving up another coroutine spares it. -/
theorem Shut.spared_close (hs : m.Shut c) (ht : m.Tidy) (d : RoutineId) :
    Spared m (m.close d).2 c := by
  by_cases hin : ∀ r, (m.routine d).inbox ≠ .awaited r
  · rw [close_eq ht hin]
    exact .refl m c
  · obtain ⟨r, hin⟩ : ∃ r, (m.routine d).inbox = .awaited r := by simpa using hin
    have hcd := hs.ne_of_awaited hin
    obtain ⟨hlisten, hend⟩ := ht.spares_reader (c := c) hin
    constructor
    case status => simp [status, routine_close ht hin, closed, hcd]
    case inbox => simp [routine_close ht hin, closed, hcd]
    case ended => exact fun hc => by simp [routine_close ht hin, closed, hend hc, hc]
    case listening => exact fun j hj => by simp [routine_close ht hin, closed, hlisten j hj, hj]

/-- What happens before control passes spares it. -/
theorem Arranges.spared (h : Arranges R i m m₁) (ht : m.Tidy)
    (hi : (m.routine i).control.isActive = true) (hs : m.Shut c) : Spared m m₁ c := by
  induction h with
  | refl => exact .refl m c
  | inward _ hq _ ih =>
    exact ih.trans ⟨hq.status c, hq.inbox c, fun hc => (hq.control c).trans hc,
      fun j hj => (hq.control j).trans hj⟩
  | @grows m₁ ha x hx ih =>
    have hgrow : ∀ j : RoutineId, j.val < m₁.routines.size → (m₁.grow x).routine j = m₁.routine j :=
      fun _ => routine_grow_of_lt
    have hc := hs.made.trans_le (ha.own_eq ht hi).2.2
    refine ih.trans ⟨by rw [status, hgrow c hc, status], by rw [hgrow c hc],
      fun hended => by rw [hgrow c hc, hended], fun j hj => ?_⟩
    rw [hgrow j (lt_of_ne_ended (by simp [hj])), hj]
  | @closes m₁ ha d ih =>
    obtain ⟨ht₁, -, hsize⟩ := ha.own_eq ht hi
    exact ih.trans ((ih.shut hs hsize).spared_close ht₁ d)

/-- Handing an input to another coroutine spares it. -/
theorem Shut.spared_handOver (hs : m.Shut c) (ht : m.Tidy)
    (hi : (m.routine i).control.isActive = true) (hd : (m.status d).isResumable = true) (s : Status)
    (x : Input V) : Spared m (m.handOver i d s x) c := by
  obtain ⟨r, hin⟩ := ht.exists_reader hd
  have hcd := hs.ne_of_resumable hd
  obtain ⟨hlisten, hend⟩ := ht.spares_reader (c := c) hin
  have hr := routine_handOver ht hi hd hin s x
  constructor
  case status => simp [status, hr, handedOver, hcd]
  case inbox => simp [hr, handedOver, hcd]
  case ended =>
    intro hc
    have hci : c ≠ i := by
      rintro rfl
      exact ne_ended_of_isActive hi hc
    simp [hr, handedOver, hci, hend hc, hc]
  case listening =>
    intro j hj
    have hji : j ≠ i := by
      rintro rfl
      exact ne_listening_of_isActive hi c hj
    simp [hr, handedOver, hji, hlisten j hj, hj]

/-- Passing control to another coroutine spares it. -/
theorem Transfers.spared (h : m.Transfers i m') (ht : m.Tidy)
    (hi : (m.routine i).control.isActive = true) (hs : m.Shut c) : Spared m m' c := by
  have hne : (m.routine c).control = .ended → c ≠ i := by
    rintro hc rfl
    exact ne_ended_of_isActive hi hc
  have hlistener : ∀ j, (m.routine j).control = .listening c → j ≠ i := by
    rintro j hj rfl
    exact ne_listening_of_isActive hi c hj
  cases h with
  | @goes e he =>
    have hr : ∀ j, j ≠ i → (m.setControl i e).routine j = m.routine j := fun j hj =>
      routine_update_of_ne hj.symm _
    constructor
    case status =>
      rw [Machine.status, setControl, routine_update]
      split <;> rfl
    case inbox =>
      rw [setControl, routine_update]
      split <;> rfl
    case ended => exact fun hc => by rw [hr c (hne hc), hc]
    case listening => exact fun j hj => by rw [hr j (hlistener j hj), hj]
  | resumes p hd hmain hst => exact hs.spared_handOver ht hi hd _ _
  | cancels hd hmain hst => exact hs.spared_handOver ht hi (by rw [hd]; rfl) _ _
  | @disposes d r answer hin hmain hd =>
    have hclosed := hs.spared_close ht d
    have hr := routine_join (ht.isActive_close hi hin) hd answer
    refine hclosed.trans ?_
    constructor
    case status => simp [Machine.status, hr, joined]
    case inbox => simp [hr, joined]
    case ended =>
      intro hc
      have hci : c ≠ i := by
        rintro rfl
        exact ne_ended_of_isActive (ht.isActive_close hi hin) hc
      simp [hr, joined, hci, hc]
    case listening =>
      intro j hj
      have hji : j ≠ i := by
        rintro rfl
        exact ne_listening_of_isActive (ht.isActive_close hi hin) c hj
      simp [hr, joined, hji, hj]
  | @yields d p hd hmain hown =>
    obtain ⟨l, hout⟩ := ht.exists_listener hd hmain
    have hr := routine_yield ht hi hd hout p
    have hcd : c ≠ d := by
      rintro rfl
      exact hs.ne_running hd
    have hl := (ht.listener d l).1 hout
    constructor
    case status => simp [Machine.status, hr, handedOut, hcd]
    case inbox => simp [hr, handedOut, hcd]
    case ended =>
      intro hc
      have hcl : c ≠ l := by
        rintro rfl
        cases hc.symm.trans hl
      simp [hr, handedOut, hne hc, hcl, hc]
    case listening =>
      intro j hj
      have hjl : j ≠ l := by
        rintro rfl
        exact hcd (Control.listening.inj (hj.symm.trans hl))
      simp [hr, handedOut, hlistener j hj, hjl, hj]

/-- The body of coroutine `c`, which returns `o`, ends with a step; whoever listens hears of it. -/
structure EndsIn (m m' : Machine P V σ) (c : RoutineId) (o : Outcome V (Parcel V)) : Prop where
  head : m.ready.head? = some c
  control : (m.routine c).control = .returning o
  nil : (m.routine c).stack = []
  status : m'.status c = o.ending (m.status c)
  inbox : (m'.routine c).inbox = (m.routine c).inbox
  ended : (m'.routine c).control = .ended
  told : ∀ j, (m.routine j).control = .listening c → (m'.routine j).control = .returning o

/-- The end of a body concerns only those who listen to it. -/
theorem Tidy.finish_cases (ht : m.Tidy) (hhead : m.ready.head? = some i)
    (hc : (m.routine i).control = .returning o) (hst : (m.routine i).stack = []) :
    Spared m (m.finish i o) c ∨ i = c ∧ EndsIn m (m.finish i o) c o := by
  have hi : (m.routine i).control.isActive = true := by rw [hc]; rfl
  have hr := routine_finish ht hi o
  have hlistener : ∀ j, (m.routine j).control = .listening c → j ≠ i := by
    rintro j hj rfl
    exact ne_listening_of_isActive hi c hj
  by_cases hci : c = i
  · subst hci
    refine .inr ⟨rfl, hhead, hc, hst, ?_, ?_, ?_, fun j hj => ?_⟩
    · simp [status, hr, finished]
    · simp [hr, finished]
    · simp [hr, finished]
    · have hout := Slot.reader?_eq_some.2 ((ht.listener c j).2 hj)
      simp [hr, finished, hlistener j hj, hout]
  · have hlistens : ∀ j, (m.routine i).outbox.reader? = some j → (m.routine j).control = .listening i :=
      fun j hj => (ht.listener i j).1 (Slot.reader?_eq_some.1 hj)
    refine .inl ⟨?_, ?_, fun hended => ?_, fun j hj => ?_⟩
    · simp [status, hr, finished, hci]
    · simp [hr, finished]
    · have hnot : (m.routine i).outbox.reader? ≠ some c := fun hout => by
        cases hended.symm.trans (hlistens c hout)
      simp [hr, finished, hci, hnot, hended, awoken]
    · -- A routine listens to one coroutine only.
      have hnot : (m.routine i).outbox.reader? ≠ some j := fun hout =>
        hci (Control.listening.inj (hj.symm.trans (hlistens j hout)))
      simp [hr, finished, hlistener j hj, hnot, hj, awoken]

/-- All that a step does to a coroutine that cannot be used any more is that its body ends. -/
theorem Tidy.shut_step (ht : m.Tidy) (hs : m.Shut c) (hstep : m.step code = some m') :
    Spared m m' c ∨ ∃ o, EndsIn m m' c o := by
  obtain ⟨i, ready, hready, ⟨hi, hp, -⟩ | ⟨-, rfl⟩⟩ := ht.step_cases hstep
  case inr => exact .inl ⟨rfl, rfl, id, fun _ => id⟩
  cases hp with
  | @ends o hc hst =>
    rcases ht.finish_cases (c := c) (by rw [hready]; rfl) hc hst with hspared | ⟨-, hends⟩
    · exact .inl hspared
    · exact .inr ⟨o, hends⟩
  | transfers ha htr =>
    obtain ⟨ht₁, hc₁, hsize⟩ := ha.own_eq ht hi
    have hspared := ha.spared ht hi hs
    exact .inl (hspared.trans (htr.spared ht₁ (hc₁ ▸ hi) (hspared.shut hs hsize)))

/-! ## Canceled and dropped coroutines -/

/-- Coroutine `c` was canceled or given up: it is canceled until its body ends, and stays so unless the
body panics. -/
structure GivenUp (m : Machine P V σ) (c : RoutineId) : Prop where
  shut : m.Shut c
  status : m.status c = .canceled ∨ m.status c = .panicked ∧ (m.routine c).control = .ended

theorem GivenUp.step (h : m.GivenUp c) (hm : m.Proper) (hstep : m.step code = some m') :
    m'.GivenUp c := by
  have hmade := h.shut.made.trans_le (hm.sound.size_step hstep)
  rcases hm.tidy.shut_step h.shut hstep with hspared | ⟨o, hends⟩
  · refine ⟨hspared.shut h.shut (hm.sound.size_step hstep), ?_⟩
    rw [hspared.status]
    exact h.status.imp id fun ⟨hst, hended⟩ => ⟨hst, hspared.ended hended⟩
  · have hst : m.status c = .canceled := by
      refine h.status.resolve_right ?_
      rintro ⟨-, hended⟩
      cases hended.symm.trans hends.control
    refine ⟨⟨hmade, by rw [hends.status]; exact terminal_ending o _, hends.inbox.trans h.shut.inbox⟩,
      ?_⟩
    rw [hends.status, hst]
    cases o with
    | value p => exact .inl rfl
    | failure f => exact .inl rfl
    | panic p => exact .inr ⟨rfl, hends.ended⟩

theorem GivenUp.passTurn (h : m.GivenUp c) : m.passTurn.GivenUp c := by
  refine ⟨⟨?_, ?_, ?_⟩, ?_⟩ <;> simp only [Machine.status, routine_passTurn, size_passTurn]
  · exact h.shut.made
  · exact h.shut.terminal
  · exact h.shut.inbox
  · exact h.status

theorem GivenUp.of_reaches (h : m.GivenUp c) (hm : m.Proper) (hr : Reaches code m m') :
    m'.GivenUp c := by
  have hinv : m'.Proper ∧ m'.GivenUp c :=
    hr.invariant (fun m _ (hm : m.Proper ∧ m.GivenUp c) hs => ⟨hm.1.step hs, hm.2.step hm.1 hs⟩)
      (fun _ hm => ⟨hm.1.passTurn, hm.2.passTurn⟩) ⟨hm, h⟩
  exact hinv.2

/-- What has ended stays as it is. -/
theorem GivenUp.ended_of_reaches (h : m.GivenUp c) (hm : m.Proper)
    (hended : (m.routine c).control = .ended) (hr : Reaches code m m') :
    m'.status c = m.status c ∧ (m'.routine c).control = .ended := by
  induction hr with
  | refl => exact ⟨rfl, hended⟩
  | @step m m₁ m' hstep _ ih =>
    rcases hm.tidy.shut_step h.shut hstep with hspared | ⟨o, hends⟩
    · obtain ⟨hstatus, hcontrol⟩ := ih (h.step hm hstep) (hm.step hstep) (hspared.ended hended)
      exact ⟨hstatus.trans hspared.status, hcontrol⟩
    · cases hended.symm.trans hends.control
  | @turn m m' _ ih =>
    obtain ⟨hstatus, hcontrol⟩ := ih h.passTurn hm.passTurn (by rw [routine_passTurn]; exact hended)
    refine ⟨hstatus.trans ?_, hcontrol⟩
    rw [Machine.status, routine_passTurn, Machine.status]

/-- What nobody can do any more with a coroutine that was canceled or given up. -/
structure OutOfUse (code : P → Entry V → Code P V σ V) (m : Machine P V σ) (c : RoutineId) :
    Prop where
  status : m.status c = .canceled ∨ m.status c = .panicked
  /-- No yield waits for an input of the coroutine. -/
  unread : ∀ j, (m.routine j).control ≠ .reading c
  /-- A yield fails at once, and hands nothing out. -/
  yield : m.status c = .canceled → ∀ j v, m.Refuses code j (.yield c v) .canceled
  /-- The coroutine cannot be resumed or canceled any more. -/
  resume : ∀ j v, m.Refuses code j (.resume c v) (.cannotResume (m.status c))
  resumeOn : ∀ j q v,
    m.RefusesOn code j (.registry q) (.resumeOn q c v) (.cannotResume (m.status c))
  cancel : ∀ j answer, m.Refuses code j (.cancel c answer) (.cannotCancel (m.status c))

theorem GivenUp.outOfUse (h : m.GivenUp c) (ht : m.Tidy) (hco : m.isCoroutine c = true) :
    m.OutOfUse code c where
  status := h.status.imp id And.left
  unread j hj := by
    cases h.shut.inbox.symm.trans ((ht.reader c j).2 (.inl hj))
  yield hst j v := by
    have hrefuses : m.Refuses code j (.yield c v) _ := refuses_yield hco h.shut.ne_running v
    rwa [if_pos hst] at hrefuses
  resume j v := refuses_resume hco h.shut.not_resumable v
  resumeOn j q v := refuses_resumeOn hco h.shut.not_resumable q v
  cancel j answer := by
    refine refuses_cancel hco ?_ answer
    intro hst
    have hterminal := h.shut.terminal
    rw [hst] at hterminal
    cases hterminal

theorem GivenUp.outOfUse_of_reaches (h : m.GivenUp c) (hm : m.Proper)
    (hco : m.isCoroutine c = true) (hr : Reaches code m m') : m'.OutOfUse code c := by
  have hkeep : ∀ m m' : Machine P V σ, m.Proper ∧ m.GivenUp c ∧ m.isCoroutine c = true →
      m.step code = some m' → m'.Proper ∧ m'.GivenUp c ∧ m'.isCoroutine c = true :=
    fun _ _ ⟨hm, h, hco⟩ hs =>
      ⟨hm.step hs, h.step hm hs, (hm.sound.isCoroutine_step hs h.shut.made).trans hco⟩
  have hinv : m'.Proper ∧ m'.GivenUp c ∧ m'.isCoroutine c = true := by
    refine hr.invariant hkeep (fun m hm => ⟨hm.1.passTurn, hm.2.1.passTurn, ?_⟩) ⟨hm, h, hco⟩
    rw [isCoroutine, routine_passTurn]
    exact hm.2.2
  exact hinv.2.1.outOfUse hinv.1.tidy hinv.2.2

end Machine

end OneShot
