import OneShot.Proofs.Suspending

/-!
# Ending handled bodies

A handled body ends with an outcome for its scope. If somebody listens, the listener hears of it; a
body that was given up before has nobody who listens, and its outcome stays in its outbox.
-/

namespace OneShot

variable {P V σ : Type}

/-- The status of a body that has ended. -/
def Outcome.ending (o : Outcome V (Parcel V)) (s : Status) : Status :=
  match o with
  | .panic _ => .panicked
  | _ => if s = .canceled then .canceled else .done

/-- A body that has ended. -/
def Routine.atEnd (o : Outcome V (Parcel V)) (r : Routine P V σ) : Routine P V σ :=
  { r with status := o.ending r.status, control := .ended, joiners := [] }

/-- A body that has ended, and what comes out is taken. -/
def Routine.heard (o : Outcome V (Parcel V)) (r : Routine P V σ) : Routine P V σ :=
  { r.atEnd o with outbox := .empty }

/-- A body that has ended, and what comes out stays there. -/
def Routine.unheard (o : Outcome V (Parcel V)) (r : Routine P V σ) : Routine P V σ :=
  { r.atEnd o with outbox := .full o }

/-- A body that has ended has a final status. -/
theorem terminal_ending (o : Outcome V (Parcel V)) (s : Status) :
    (o.ending s).isTerminal = true := by
  cases o <;> simp only [Outcome.ending] <;> first | rfl | (split <;> rfl)

theorem Outcome.Ends.isSignal {o : Outcome V (Parcel V)} {q : Mark} (h : o.Ends (some q)) :
    o.IsSignal := by
  match o, h with
  | .value (.signal (.done b)), h =>
    have hb : b.mark? = some q := h
    change b.mark?.isSome
    rw [hb]
    rfl
  | .failure f, _ => trivial
  | .panic p, _ => trivial

theorem Outcome.Ends.need?_eq_none {o : Outcome V (Parcel V)} {q : Mark} (h : o.Ends (some q)) :
    o.signal?.bind Signal.need? = none := by
  match o, h with
  | .value (.signal (.done b)), h => rfl
  | .failure f, _ => rfl
  | .panic p, _ => rfl

namespace Machine

open Control

variable {m m' : Machine P V σ} {i j : RoutineId} {scope : Scope P} {o : Outcome V (Parcel V)}

theorem update_pause (m : Machine P V σ) (i j : RoutineId) (f : Routine P V σ → Routine P V σ) :
    (m.pause j).update i f = (m.update i f).pause j := rfl

theorem finish_eq (m : Machine P V σ) (i : RoutineId) (o : Outcome V (Parcel V)) :
    m.finish i o = (m.routine i).joiners.foldl wakeJoiner
      (((m.update i (Routine.atEnd o)).pause i).sendOutput i o) := by
  have heq : m.update i (Routine.atEnd o) = m.update i fun r =>
      { r with status := o.ending (m.status i), control := .ended, joiners := [] } :=
    update_congr rfl
  rw [heq]
  rfl

/-- A body ends to which a routine listens. -/
theorem finish_awaited (hjoiners : (m.routine i).joiners = [])
    (hout : (m.routine i).outbox = .awaited j) (hi : i.val < m.routines.size) :
    m.finish i o =
      (((m.update i (Routine.heard o)).update j (Routine.told o)).pause i).wake j := by
  have hself : ((m.update i (Routine.atEnd o)).pause i).routine i = (m.routine i).atEnd o := by
    rw [routine_pause, routine_update_self hi]
  have hhear : ((((m.update i (Routine.atEnd o)).pause i).update i fun r =>
      { r with outbox := .empty }).hear j i o) =
        ((m.update i (Routine.heard o)).update j (Routine.told o)).pause i := by
    have hheard : ((m.update i (Routine.atEnd o)).pause i).update i (fun r =>
        { r with outbox := .empty }) = (m.update i (Routine.heard o)).pause i := by
      rw [update_pause, update_update]
      rfl
    rw [hheard]
    cases o with
    | panic p =>
      have hstatus : ((m.update i (Routine.heard (.panic p))).pause i).setStatus i .panicked =
          (m.update i (Routine.heard (.panic p))).pause i := by
        rw [setStatus, update_pause, update_update]
        rfl
      simp only [hear, hstatus]
      rfl
    | value a => rfl
    | failure f => rfl
  rw [finish_eq, hjoiners, sendOutput, hself]
  simp only [Routine.atEnd, hout]
  exact congrArg (·.wake j) hhear

/-- A body ends to which nobody listens. -/
theorem finish_empty (hjoiners : (m.routine i).joiners = [])
    (hout : (m.routine i).outbox = .empty) (hi : i.val < m.routines.size) :
    m.finish i o = (m.update i (Routine.unheard o)).pause i := by
  have hself : ((m.update i (Routine.atEnd o)).pause i).routine i = (m.routine i).atEnd o := by
    rw [routine_pause, routine_update_self hi]
  rw [finish_eq, hjoiners, sendOutput, hself]
  simp only [Routine.atEnd, hout, List.foldl_nil]
  rw [update_pause, update_update]
  rfl

/-- The end of a body concerns the body and its listener. -/
theorem routine_finish_awaited (hjoiners : (m.routine i).joiners = [])
    (hout : (m.routine i).outbox = .awaited j) (hne : i ≠ j) (hi : i.val < m.routines.size)
    (hj : j.val < m.routines.size) (l : RoutineId) :
    (m.finish i o).routine l = if l = i then (m.routine i).heard o
      else if l = j then (m.routine j).told o else m.routine l := by
  rw [finish_awaited hjoiners hout hi, routine_wake, routine_pause,
    routine_update_ite (by rw [size_update]; exact hj), routine_update_ite hi,
    routine_update_ite hi]
  grind

/-- The end of a body to which nobody listens concerns the body only. -/
theorem routine_finish_empty (hjoiners : (m.routine i).joiners = [])
    (hout : (m.routine i).outbox = .empty) (hi : i.val < m.routines.size) (l : RoutineId) :
    (m.finish i o).routine l =
      if l = i then (m.routine i).unheard o else m.routine l := by
  rw [finish_empty hjoiners hout hi, routine_pause, routine_update_ite hi]

/-- A handled body ends. Its listener hears of it; a canceled one has none. -/
theorem Linked.finish {rest : Routine P V σ} (h : m.Linked none)
    (hscope : (m.routine i).scope = some scope) (hc : (m.routine i).control = .returning o)
    (hst : (m.routine i).stack = []) (hrest : rest.control = .ended) (hphase : rest.Phase i)
    (hstack : rest.stack = (m.routine i).stack) (hscope' : rest.scope = (m.routine i).scope)
    (hself : m'.routine i = rest)
    (htold : ∀ l, (m.routine l).control = .listening i → m'.routine l = (m.routine l).told o)
    (hothers : ∀ l, l ≠ i → (m.routine l).control ≠ .listening i → m'.routine l = m.routine l)
    (hsize : m'.routines.size = m.routines.size) (hctx : m'.contexts.size = m.contexts.size)
    (hready : ∀ l, l ≠ i → (m.routine l).control = .listening i ∨ l ∈ m.ready → l ∈ m'.ready) :
    m'.Linked none := by
  have hactive : (m.routine i).control.isActive = true := by rw [hc]; rfl
  have hends : o.Ends (some scope.mark) := by
    have hp := h.posture i (by simp)
    simpa only [Routine.Posture, hc, hst, Fits, Routine.role, hscope, Option.map_some] using hp
  have hposture : rest.Posture := by
    simp only [Routine.Posture, hrest]
    exact hstack.trans hst
  refine h.comeToRest (by simp) hactive (by simp [hscope]) hends.isSignal (.inr hrest) hphase hposture
    hstack hscope' (fun _ => ⟨hrest, ?_⟩) hself htold hothers hsize hctx hready
  rintro b rfl
  rw [Routine.role, hscope]
  exact hends

/-- A handled body ends, and its listener hears of it. -/
theorem Linked.finishHeard (h : m.Linked none) (hscope : (m.routine i).scope = some scope)
    (hout : (m.routine i).outbox = .awaited j) (hc : (m.routine i).control = .returning o)
    (hst : (m.routine i).stack = [])
    (hr : ∀ l, m'.routine l = if l = i then (m.routine i).heard o
      else if l = j then (m.routine j).told o else m.routine l)
    (hsize : m'.routines.size = m.routines.size) (hctx : m'.contexts.size = m.contexts.size)
    (hready : m'.ready = m.ready.erase i ++ [j]) : m'.Linked none := by
  have hsome : (m.routine i).scope.isSome := by simp [hscope]
  have hcontrol := h.outbox i j hout
  have hunique : ∀ l, (m.routine l).control = .listening i → l = j := fun l hl =>
    h.eq_of_listening hsome hl hcontrol
  have hphase : Routine.Phase i ((m.routine i).heard o) := by
    have hp := h.phase i hsome
    have hrun := hp.running_of_awaited (by rw [hout]; rfl)
    obtain ⟨hinbox, -⟩ := hp.running hrun
    have hstatus : o.ending .running = .panicked ∨ o.ending .running = .done := by
      cases o <;> simp [Outcome.ending]
    constructor <;> grind [Routine.heard, Routine.atEnd, Slot.isAwaited]
  refine h.finish hscope hc hst rfl hphase rfl rfl (by grind) (by grind) (by grind) hsize hctx
    fun l hli hl => ?_
  rw [hready, List.mem_append, List.mem_erase_of_ne hli]
  grind

/-- A canceled body ends, and nobody hears of it. -/
theorem Linked.finishUnheard (h : m.Linked none) (hscope : (m.routine i).scope = some scope)
    (hcanceled : (m.routine i).status = .canceled) (hc : (m.routine i).control = .returning o)
    (hst : (m.routine i).stack = [])
    (hr : ∀ l, m'.routine l = if l = i then (m.routine i).unheard o else m.routine l)
    (hsize : m'.routines.size = m.routines.size) (hctx : m'.contexts.size = m.contexts.size)
    (hready : m'.ready = m.ready.erase i) : m'.Linked none := by
  have hsome : (m.routine i).scope.isSome := by simp [hscope]
  obtain ⟨hinbox, hout, -⟩ := (h.phase i hsome).canceled hcanceled
  have hnobody : ∀ l, (m.routine l).control ≠ .listening i := by
    intro l hl
    rw [h.outbox_of_listening hsome hl] at hout
    cases hout
  have hphase : Routine.Phase i ((m.routine i).unheard o) := by
    have halone := (h.phase i hsome).alone
    have hstatus : o.ending .canceled = .panicked ∨ o.ending .canceled = .canceled := by
      cases o <;> simp [Outcome.ending]
    constructor <;> grind [Routine.unheard, Routine.atEnd, Slot.isAwaited]
  refine h.finish hscope hc hst rfl hphase rfl rfl (by grind) (by grind) (by grind) hsize hctx
    fun l hli hl => ?_
  rw [hready, List.mem_erase_of_ne hli]
  grind

namespace Counted

/-- A body ends that refers to nothing any more. -/
theorem endBody (h : m.Counted none [] []) (hi : i.val < m.routines.size)
    (hc : (m.routine i).control = .returning o) (hneed : o.signal?.bind Signal.need? = none)
    (hst : (m.routine i).stack = []) (hwi : ∀ y, y.scope = i → ¬ m.Waits y)
    {f : Routine P V σ → Routine P V σ} (hcontrol : (f (m.routine i)).control = .ended)
    (hscope : (f (m.routine i)).scope = (m.routine i).scope)
    (hstack : (f (m.routine i)).stack = (m.routine i).stack) :
    (m.update i f).Counted none [] [] := by
  refine h.sameRefs hi hstack hscope (fun _ => ⟨?_, ?_, ?_⟩) fun y hy _ hw =>
    absurd hw (hwi y hy)
  · rw [hcontrol, hc, keys_of_need?_eq_none hneed]
    rfl
  · rw [hcontrol, hc]
    exact hneed.symm
  · intro c t
    simp [Routine.entries, hstack, hst]

/-- A listener hears of an end. -/
theorem tell (h : m.Counted none [] []) (hc : (m.routine j).control = .listening i)
    (hneed : o.signal?.bind Signal.need? = none) :
    (m.update j (Routine.told o)).Counted none [] [] := by
  have hj : j.val < m.routines.size := lt_of_ne_ended (by simp [hc])
  refine h.sameRefs hj rfl rfl (fun _ => ⟨?_, ?_, ?_⟩) ?_
  · rw [hc]
    exact keys_of_need?_eq_none hneed
  · rw [hc]
    exact hneed
  · refine Routine.entries_congr rfl ?_
    rw [hc]
    simp [Routine.told, hasEntry, hneed]
  · rintro y rfl - hw
    unfold Waits at hw ⊢
    rwa [routine_update_self hj]

end Counted

/-- Either somebody listens to a handled body that ends, or it was canceled. -/
theorem Linked.end_cases {w : Option RoutineId} (h : m.Linked w)
    (hsome : (m.routine i).scope.isSome) (hactive : (m.routine i).control.isActive = true) :
    ((m.routine i).status = .running ∧ ∃ j, (m.routine i).outbox = .awaited j ∧
        (m.routine j).control = .listening i ∧ i ≠ j) ∨
      (m.routine i).status = .canceled ∧ (m.routine i).outbox = .empty := by
  have hp := h.phase i hsome
  cases hstatus : (m.routine i).status with
  | running =>
    obtain ⟨j, hout, hcontrol⟩ := h.exists_listener hsome hstatus
    refine .inl ⟨rfl, j, hout, hcontrol, ?_⟩
    rintro rfl
    exact ne_listening_of_isActive hactive i hcontrol
  | canceled =>
    rcases (hp.canceled hstatus).2.2 with hended | ⟨hempty, -⟩
    · exact absurd hended (ne_ended_of_isActive hactive)
    · exact .inr ⟨rfl, hempty⟩
  | notRunning => exact absurd hstatus hp.begun
  | suspending => exact absurd (hp.suspending hstatus).2.2.1 (ne_reading_of_isActive hactive i)
  | panicked => exact absurd (hp.atEnd (.inl hstatus)).2.2 (ne_ended_of_isActive hactive)
  | done => exact absurd (hp.atEnd (.inr hstatus)).2.2 (ne_ended_of_isActive hactive)

/-- A step ends a handled body. -/
theorem Sound.finishHandled (h : m.Sound) (hsome : (m.routine i).scope.isSome)
    (hc : (m.routine i).control = .returning o) (hst : (m.routine i).stack = []) :
    (m.finish i o).Sound := by
  obtain ⟨scope, hscope⟩ := Option.isSome_iff_exists.1 hsome
  have hactive : (m.routine i).control.isActive = true := by rw [hc]; rfl
  have hi := lt_of_isActive hactive
  have hp := h.linked.phase i hsome
  have hends : o.Ends (some scope.mark) := by
    have hposture := h.linked.posture i (by simp)
    simpa only [Routine.Posture, hc, hst, Fits, Routine.role, hscope, Option.map_some]
      using hposture
  have hwi : ∀ y, y.scope = i → ¬ m.Waits y := fun y hy => h.linked.not_waits (hy ▸ hactive)
  have hover : ∀ (f : Routine P V σ → Routine P V σ), (f (m.routine i)).control = .ended →
      (f (m.routine i)).scope = (m.routine i).scope →
      (f (m.routine i)).stack = (m.routine i).stack → (m.update i f).Counted none [] [] :=
    fun f => h.counted.endBody hi hc hends.need?_eq_none hst hwi
  rcases h.linked.end_cases hsome hactive with ⟨-, j, hout, hcontrol, hne⟩ | ⟨hstatus, hempty⟩
  · have hj : j.val < m.routines.size := lt_of_ne_ended (by simp [hcontrol])
    have hr := routine_finish_awaited (o := o) hp.alone hout hne hi hj
    rw [finish_awaited hp.alone hout hi] at hr ⊢
    have hcontrol' : ((m.update i (Routine.heard o)).routine j).control = .listening i := by
      rw [routine_update_of_ne hne, hcontrol]
    refine ⟨h.linked.finishHeard hscope hout hc hst hr ?_ rfl rfl,
      ((hover (Routine.heard o) rfl rfl rfl).tell hcontrol' hends.need?_eq_none).setReady _, ?_⟩
    · simp [pause, wake]
    · intro t c ht hz hdue
      have hold := h.reclaimed t
      rw [hr] at ht ⊢
      grind [Routine.heard, Routine.atEnd, Routine.told, terminal_ending]
  · have hr := routine_finish_empty (o := o) hp.alone hempty hi
    rw [finish_empty hp.alone hempty hi] at hr ⊢
    refine ⟨h.linked.finishUnheard hscope hstatus hc hst hr ?_ rfl rfl,
      (hover (Routine.unheard o) rfl rfl rfl).setReady _, ?_⟩
    · simp [pause]
    · intro t c ht hz hdue
      have hold := h.reclaimed t
      rw [hr] at ht ⊢
      grind [Routine.unheard, Routine.atEnd, terminal_ending]

end Machine

end OneShot
