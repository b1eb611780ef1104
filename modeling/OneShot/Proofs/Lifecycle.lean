import OneShot.Proofs.Steps

/-!
# The life of a handled body

A handled body runs and waits in turn until it ends by itself, or until it is given up. It is given up
only while it waits, and only once: the call that it is blocked in comes back with
`Failure.canceled`, and the body is never resumed again.

`Sound.bodyStep` says what one step can do to the status of a handled body. From it,
`Reaches.status_of_isTerminal` says that a terminal status is there to stay, `Reaches.comesBack` that
the call of a body that was given up comes back as canceled and in no other way, and
`Sound.fate_of_reaches` that each handled body that is over has met one of the two ends.
-/

namespace OneShot

variable {P V σ : Type}

namespace Machine

variable {code : P → Entry V → Code P V σ V} {m m₀ m₁ m₂ m' : Machine P V σ} {i s : RoutineId}

/-- A step of a sound machine is a step of a routine that can go on, or takes a routine that cannot
go on out of those that are ready. -/
theorem Sound.step_cases (h : m.Sound) (hs : m.step code = some m') :
    ∃ i ready, m.ready = i :: ready ∧
      ((m.routine i).control.isActive = true ∧ m' = m.stepOf code i ∧ m.Follows i m' ∨
        (m.routine i).control.isActive = false ∧ m' = m.pause i) := by
  obtain ⟨i, ready, hready, ⟨hi, rfl⟩ | hidle⟩ := exists_of_step hs
  · exact ⟨i, ready, hready, .inl ⟨hi, rfl, h.stepOf hi⟩⟩
  · exact ⟨i, ready, hready, .inr hidle⟩

/-- What is reached from a sound machine is sound. -/
theorem Sound.of_reaches (h : m.Sound) (hr : Reaches code m m') : m'.Sound :=
  hr.invariant (fun _ _ hm hs => hm.step hs) (fun _ hm => hm.passTurn) h

/-! ## One step -/

/-- From the first machine to the second, the body of scope `s` is given up while it waits: the call
that it is blocked in, a perform or the forwarding of an effect, is told that it was canceled. -/
structure GivesUp (m m' : Machine P V σ) (s : RoutineId) : Prop where
  suspending : (m.routine s).status = .suspending
  blocked : ∃ f st, (m.routine s).stack = f :: st ∧ f.need?.isSome
  canceled : (m'.routine s).status = .canceled
  told : (m'.routine s).control = .returning (.failure .canceled)
  stack : (m'.routine s).stack = (m.routine s).stack

/-- What a step can do to the handled body of scope `s`. -/
inductive BodyStep (m m' : Machine P V σ) (s : RoutineId) : Prop where
  | goes (hstatus : (m'.routine s).status = (m.routine s).status)
  | suspends (hstatus : (m.routine s).status = .running)
    (hstatus' : (m'.routine s).status = .suspending)
  | answered (hstatus : (m.routine s).status = .suspending)
    (hstatus' : (m'.routine s).status = .running)
  | ends (o : Outcome V (Parcel V))
    (hstatus : (m.routine s).status = .running ∨ (m.routine s).status = .canceled)
    (hstatus' : (m'.routine s).status = o.ending (m.routine s).status)
    (hended : (m'.routine s).control = .ended)
  | givenUp (h : m.GivesUp m' s)

/-- What the step of a routine does to a handled body, be it its own or another one. -/
theorem Follows.bodyStep (hf : m.Follows i m') (h : m.Sound)
    (hi : (m.routine i).control.isActive = true) (hs : (m.routine s).scope.isSome) :
    m.BodyStep m' s := by
  have hphase := h.linked.phase s hs
  by_cases hsi : s = i
  · subst hsi
    -- A routine that makes a step does not wait, and has not ended.
    cases hf.influences.moves hs with
    | on hslots _ => exact .goes (congrArg Prod.fst hslots)
    | suspended hstatus hslots => exact .suspends hstatus (congrArg Prod.fst hslots)
    | atEnd o hcontrol hstatus =>
      refine .ends o ?_ hstatus hcontrol
      have hactive := Control.ne_ended_of_isActive hi
      cases hst : (m.routine s).status with
      | notRunning => exact absurd hst hphase.begun
      | running => exact .inl rfl
      | suspending =>
        exact absurd (hphase.suspending hst).2.2.1 (Control.ne_reading_of_isActive hi s)
      | canceled => exact .inr rfl
      | panicked => exact absurd (hphase.atEnd (.inl hst)).2.2 hactive
      | done => exact absurd (hphase.atEnd (.inr hst)).2.2 hactive
  · have hlt := lt_of_scope hs
    cases hf.influences.touches s hsi hlt with
    | rests hrests =>
      cases hrests with
      | spared hslots _ => exact .goes (congrArg Prod.fst hslots)
      | closed _ hstatus hslots hcontrol =>
        obtain ⟨-, -, -, f, st, hst, hneed, -⟩ := hphase.suspending hstatus
        exact .givenUp ⟨hstatus, ⟨f, st, hst, hneed⟩, congrArg Prod.fst hslots, hcontrol,
          hf.influences.stack s hsi hlt⟩
    | resumed b _ _ hstatus hslots _ => exact .answered hstatus (congrArg Prod.fst hslots)
    | told o _ _ hslots _ => exact .goes (congrArg Prod.fst hslots)
    | eased hslots _ => exact .goes (congrArg Prod.fst (hslots hs))

theorem Sound.bodyStep (h : m.Sound) (hstep : m.step code = some m')
    (hs : (m.routine s).scope.isSome) : m.BodyStep m' s := by
  obtain ⟨i, -, -, ⟨hi, -, hf⟩ | ⟨-, rfl⟩⟩ := h.step_cases hstep
  · exact hf.bodyStep h hi hs
  · exact .goes rfl

/-- A routine keeps its scope, but for its age. -/
theorem Sound.abides_step (h : m.Sound) (hstep : m.step code = some m')
    (hlt : s.val < m.routines.size) : (m.routine s).Abides (m'.routine s) := by
  obtain ⟨i, -, -, ⟨-, -, hf⟩ | ⟨-, rfl⟩⟩ := h.step_cases hstep
  · by_cases hsi : s = i
    · exact hsi ▸ hf.influences.own
    · exact hf.influences.abides s hsi hlt
  · exact .refl _

/-- What is handled stays handled. -/
theorem Sound.isSome_step (h : m.Sound) (hstep : m.step code = some m')
    (hs : (m.routine s).scope.isSome) : (m'.routine s).scope.isSome := by
  rw [(h.abides_step hstep (lt_of_scope hs)).isSome]
  exact hs

/-- What code may name, it may name later. -/
theorem Sound.isCoroutine_step (h : m.Sound) (hstep : m.step code = some m')
    (hlt : s.val < m.routines.size) : m'.isCoroutine s = m.isCoroutine s := by
  unfold isCoroutine
  rw [← Option.not_isSome, ← Option.not_isSome, (h.abides_step hstep hlt).isSome]

/-- No machine loses a routine. -/
theorem Sound.size_step (h : m.Sound) (hstep : m.step code = some m') :
    m.routines.size ≤ m'.routines.size := by
  obtain ⟨i, -, -, ⟨-, -, hf⟩ | ⟨-, rfl⟩⟩ := h.step_cases hstep
  · exact hf.influences.size
  · exact le_rfl

/-- A body runs when its scope is opened. -/
theorem Sound.running_of_opened (h : m.Sound) (hstep : m.step code = some m')
    (hge : m.routines.size ≤ s.val) (hs : (m'.routine s).scope.isSome) :
    (m'.routine s).status = .running := by
  obtain ⟨i, -, -, ⟨-, -, hf⟩ | ⟨-, rfl⟩⟩ := h.step_cases hstep
  · exact (hf.influences.opened s hge hs).1
  · rw [routine_pause, routine_of_size_le hge] at hs
    cases hs

namespace BodyStep

theorem status_of_isTerminal (h : m.BodyStep m' s)
    (ht : (m.routine s).status.isTerminal = true) :
    (m'.routine s).status = (m.routine s).status ∨
      (m.routine s).status = .canceled ∧ (m'.routine s).status = .panicked := by
  cases h with
  | goes hstatus => exact .inl hstatus
  | suspends hstatus _ => rw [hstatus] at ht; cases ht
  | answered hstatus _ => rw [hstatus] at ht; cases ht
  | ends o hstatus hstatus' _ =>
    rcases hstatus with hstatus | hstatus
    · rw [hstatus] at ht
      cases ht
    · rw [hstatus] at hstatus' ⊢
      cases o with
      | panic p => exact .inr ⟨rfl, hstatus'⟩
      | value p => exact .inl hstatus'
      | failure f => exact .inl hstatus'
  | givenUp h => rw [h.suspending] at ht; cases ht

end BodyStep

/-! ## Runs -/

/-- A routine keeps its scope over a run, but for its age. -/
theorem Reaches.abides (hr : Reaches code m m') (h : m.Sound) (hlt : s.val < m.routines.size) :
    (m.routine s).Abides (m'.routine s) := by
  induction hr with
  | refl m => exact .refl _
  | step hstep _ ih =>
    exact (h.abides_step hstep hlt).trans
      (ih (h.step hstep) (Nat.lt_of_lt_of_le hlt (h.size_step hstep)))
  | @turn m m' _ ih =>
    have hold := ih h.passTurn
    rw [routine_passTurn, size_passTurn] at hold
    exact hold hlt

/-- No run loses a routine. -/
theorem Reaches.size_le (hr : Reaches code m m') (h : m.Sound) :
    m.routines.size ≤ m'.routines.size := by
  induction hr with
  | refl m => exact le_rfl
  | step hstep _ ih => exact (h.size_step hstep).trans (ih (h.step hstep))
  | @turn m m' _ ih =>
    rw [← size_passTurn m]
    exact ih h.passTurn

/-- A terminal status is there to stay; only a canceled body may still panic. -/
theorem Reaches.status_of_isTerminal (hr : Reaches code m m') (h : m.Sound)
    (hs : (m.routine s).scope.isSome) (ht : (m.routine s).status.isTerminal = true) :
    (m'.routine s).status = (m.routine s).status ∨
      (m.routine s).status = .canceled ∧ (m'.routine s).status = .panicked := by
  induction hr with
  | refl m => exact .inl rfl
  | @step m m₁ m' hstep _ ih =>
    have hfirst := (h.bodyStep hstep hs).status_of_isTerminal ht
    have ht₁ : (m₁.routine s).status.isTerminal = true := by
      rcases hfirst with heq | ⟨-, heq⟩
      · rwa [heq]
      · rw [heq]
        rfl
    rcases ih (h.step hstep) (h.isSome_step hstep hs) ht₁ with heq | ⟨hc, hp⟩
    · rw [heq]
      exact hfirst
    · rcases hfirst with heq | ⟨-, heq⟩
      · exact .inr ⟨heq ▸ hc, hp⟩
      · cases heq.symm.trans hc
  | @turn m m' _ ih =>
    have hold := ih h.passTurn
    rw [routine_passTurn] at hold
    exact hold hs ht

/-- A routine that can go on stays as it is until its own step. -/
theorem Follows.routine_of_isActive (hf : m.Follows i m') (h : m.Sound) (hsi : s ≠ i)
    (hs : (m.routine s).control.isActive = true) :
    (m'.routine s).control = (m.routine s).control ∧
      (m'.routine s).stack = (m.routine s).stack := by
  have hlt := lt_of_isActive hs
  have hnot : ∀ hsome : (m.routine s).scope.isSome, (m.routine s).status ≠ .suspending :=
    fun hsome hst => Control.ne_reading_of_isActive hs s
      ((h.linked.phase s hsome).suspending hst).2.2.1
  refine ⟨?_, hf.influences.stack s hsi hlt⟩
  cases hf.influences.touches s hsi hlt with
  | rests hrests =>
    cases hrests with
    | spared _ hcontrol => exact hcontrol
    | closed hsome hstatus => exact absurd hstatus (hnot hsome)
  | resumed b hsome _ hstatus _ _ => exact absurd hstatus (hnot hsome)
  | told o _ hlistening _ _ => exact absurd hlistening (Control.ne_listening_of_isActive hs i)
  | eased _ hcontrol =>
    rcases hcontrol with heq | ⟨hw, -⟩
    · exact heq
    · unfold WaitsPlainly at hw
      cases hc : (m.routine s).control with
      | starting | running | returning => rw [hc] at hw; exact hw.elim
      | _ => rw [hc] at hs; cases hs

/-- The call that a suspended body is blocked in passes a cancellation on. -/
theorem stepOf_canceled {f : Frame P V σ} {st : List (Frame P V σ)}
    (hc : (m.routine s).control = .returning (.failure .canceled))
    (hst : (m.routine s).stack = f :: st) (hf : f.need?.isSome) :
    m.stepOf code s = (m.update s fun r => { r with stack := st }).fail s .canceled := by
  rw [stepOf_returning hc hst]
  cases f with
  | performing => rfl
  | forwarding e => rfl
  | _ => cases hf

/-- Between the two machines, the call on top of the stack of routine `s` comes back as canceled. -/
def ComesBack (code : P → Entry V → Code P V σ V) (m m' : Machine P V σ) (s : RoutineId) : Prop :=
  ∃ m₁ m₂ f st, Reaches code m m₁ ∧ m₁.step code = some m₂ ∧ Reaches code m₂ m' ∧
    (m.routine s).stack = f :: st ∧ (m₁.routine s).stack = f :: st ∧
    (m₂.routine s).control = .returning (.failure .canceled) ∧ (m₂.routine s).stack = st

/-- A body that was given up stands at the call that it was blocked in until its own step, and that
step takes the call off its stack. -/
theorem Reaches.comesBack {f : Frame P V σ} {st : List (Frame P V σ)} (hr : Reaches code m m')
    (h : m.Sound) (hc : (m.routine s).control = .returning (.failure .canceled))
    (hst : (m.routine s).stack = f :: st) (hf : f.need?.isSome) :
    (m'.routine s).control = .returning (.failure .canceled) ∨ ComesBack code m m' s := by
  induction hr with
  | refl m => exact .inl hc
  | @step m m₁ m' hstep hrest ih =>
    have hactive : (m.routine s).control.isActive = true := by rw [hc]; rfl
    -- Either the body is left alone, or this is its own step.
    have hsame : (m₁.routine s).control = (m.routine s).control ∧
          (m₁.routine s).stack = (m.routine s).stack ∨
        (m₁.routine s).control = .returning (.failure .canceled) ∧
          (m₁.routine s).stack = st := by
      obtain ⟨i, -, -, ⟨hi, heq, hfollows⟩ | ⟨-, rfl⟩⟩ := h.step_cases hstep
      · by_cases hsi : s = i
        · subst hsi
          have hi' := lt_of_isActive hactive
          have hr₁ : m₁.routine s =
              { m.routine s with stack := st, control := .returning (.failure .canceled) } := by
            rw [heq, stepOf_canceled hc hst hf, fail, reply, setControl,
              routine_update_self (by simpa using hi'), routine_update_self hi']
          exact .inr ⟨by rw [hr₁], by rw [hr₁]⟩
        · exact .inl (hfollows.routine_of_isActive h hsi hactive)
      · exact .inl ⟨rfl, rfl⟩
    rcases hsame with ⟨hc₁, hst₁⟩ | ⟨hc₁, hst₁⟩
    · refine (ih (h.step hstep) (hc₁.trans hc) (hst₁.trans hst)).imp id ?_
      rintro ⟨m₂, m₃, g, st', hbefore, hback, hafter, hg, hends⟩
      exact ⟨m₂, m₃, g, st', .step hstep hbefore, hback, hafter, hst₁.symm.trans hg, hends⟩
    · exact .inr ⟨m, m₁, f, st, .refl m, hstep, hrest, hst, hst, hc₁, hst₁⟩
  | @turn m m' _ ih =>
    have hold := ih h.passTurn
    simp only [ComesBack, routine_passTurn] at hold
    refine (hold hc hst).imp id ?_
    rintro ⟨m₁, m₂, g, st', hbefore, hends⟩
    exact ⟨m₁, m₂, g, st', .turn hbefore, hends⟩

/-- The end that the body of scope `s` meets between two machines. -/
inductive Fate (code : P → Entry V → Code P V σ V) (m₀ m : Machine P V σ) (s : RoutineId) :
    Prop where
  /-- It ends while it runs. -/
  | finished (m₁ m₂ : Machine P V σ) (before : Reaches code m₀ m₁)
    (hstep : m₁.step code = some m₂) (after : Reaches code m₂ m)
    (running : (m₁.routine s).status = .running) (ended : (m₂.routine s).control = .ended)
  /-- It is given up while it waits. The call that it is blocked in comes back as canceled, and it
  is never suspended or resumed again. -/
  | givenUp (m₁ m₂ : Machine P V σ) (before : Reaches code m₀ m₁)
    (hstep : m₁.step code = some m₂) (after : Reaches code m₂ m) (gives : m₁.GivesUp m₂ s)
    (back : ComesBack code m₂ m s)
    (final : ∀ m', Reaches code m₂ m' →
      (m'.routine s).status = .canceled ∨ (m'.routine s).status = .panicked)

theorem Fate.of_reaches (hr : Reaches code m₀ m) (h : m.Fate code m₁ s) : m₀.Fate code m₁ s := by
  cases h with
  | finished _ _ before hstep after running ended =>
    exact .finished _ _ (hr.trans before) hstep after running ended
  | givenUp _ _ before hstep after gives back final =>
    exact .givenUp _ _ (hr.trans before) hstep after gives back final

/-- A body that was given up and has ended has met that end. -/
theorem GivesUp.fate (hgives : m.GivesUp m₁ s) (h : m.Sound) (hs : (m.routine s).scope.isSome)
    (hstep : m.step code = some m₁) (hr : Reaches code m₁ m')
    (hended : (m'.routine s).control = .ended) : m.Fate code m' s := by
  have h₁ := h.step hstep
  have hs₁ := h.isSome_step hstep hs
  have hterminal : (m₁.routine s).status.isTerminal = true := by rw [hgives.canceled]; rfl
  refine .givenUp m m₁ (.refl m) hstep hr hgives ?_ fun m₂ hr₂ => ?_
  · obtain ⟨f, st, hst, hf⟩ := hgives.blocked
    rcases hr.comesBack h₁ hgives.told (hgives.stack.trans hst) hf with hstill | hback
    · cases hended.symm.trans hstill
    · exact hback
  · rcases hr₂.status_of_isTerminal h₁ hs₁ hterminal with heq | ⟨-, heq⟩
    · exact .inl (heq.trans hgives.canceled)
    · exact .inr heq

end Machine

end OneShot
