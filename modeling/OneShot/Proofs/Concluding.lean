import OneShot.Proofs.Faults
import OneShot.Proofs.Fair

/-!
# The value of a body is used once

When the body of a scope has come to a value, one routine *brings* the value to the scope, and what the
scope does with it is done once. So the value of a forwarded continuation answers the body that waits for
it, and never answers it again: a scope whose value was given away is not concluded a second time.

`Gives` describes the step with which a scope is concluded, `Once` is the invariant, and
`Reaches.concluded` says that a concluded scope stays so.
-/

namespace OneShot

variable {P V σ : Type}

namespace Machine

open Control

variable {code : P → Entry V → Code P V σ V} {m m' : Machine P V σ} {i j s : RoutineId}
  {R : RegistryId → Prop}

/-- Routine `j` brings the value of the body of scope `s`. -/
def Brings (m : Machine P V σ) (j s : RoutineId) : Prop :=
  ∃ b, (m.routine j).control = .returning (.value (.signal (.done b))) ∧
    awaitedScope? (m.routine j).stack = some s

/-- The body of scope `s` has ended, and nobody brings its value any more. -/
structure Concluded (m : Machine P V σ) (s : RoutineId) : Prop where
  isSome : (m.routine s).scope.isSome
  ended : (m.routine s).control = .ended
  unbrought : ∀ j, ¬ m.Brings j s

/-- The value of each body is brought once. -/
structure Once (m : Machine P V σ) : Prop where
  alone : ∀ i j s, m.Brings i s → m.Brings j s → i = j
  spent : ∀ s scope, (m.routine s).scope = some scope → scope.finish = .into none → m.Concluded s

/-- The step in which routine `i` takes the value of the body of scope `s`, above the frames `st`: the value
is returned, or goes to a procedure, or answers the body that waits for it. -/
inductive Gives (code : P → Entry V → Code P V σ V) (m m' : Machine P V σ) (i s : RoutineId)
    (st : List (Frame P V σ)) : Prop where
  | passesOn (v : V)
    (value : (m.routine i).control = .returning (.value (.signal (.done (.datum v)))))
    (goes : (m'.routine i).control = .returning (.value (.plain v)))
    (stack : (m'.routine i).stack = st)
  | calls (p : P) (v : V) (scope : Scope P) (hscope : (m.routine s).scope = some scope)
    (finish : scope.finish = .call p)
    (value : (m.routine i).control = .returning (.value (.signal (.done (.datum v)))))
    (goes : (m'.routine i).control = .running (code p (.value v)))
    (stack : (m'.routine i).stack = st)
  | answers (t : RoutineId) (v : V) (scope : Scope P) (hscope : (m.routine s).scope = some scope)
    (finish : scope.finish = .into (some t)) (waits : m.Waits ⟨.result, t⟩)
    (value : (m.routine i).control = .returning (.value (.signal (.done (.result v)))))
    (answered : (m'.routine t).control = .returning (.value (.boxed (.result v))))
    (listens : (m'.routine i).control = .listening t)

theorem not_brings (h : ∀ b, (m.routine j).control ≠ .returning (.value (.signal (.done b)))) :
    ¬ m.Brings j s := fun ⟨b, hb, _⟩ => h b hb

theorem Brings.congr (hr : ∀ j, m'.routine j = m.routine j) (h : m'.Brings j s) : m.Brings j s := by
  unfold Brings at h ⊢
  rwa [hr] at h

theorem Concluded.congr (hr : ∀ j, m'.routine j = m.routine j) (h : m.Concluded s) :
    m'.Concluded s :=
  ⟨by rw [hr]; exact h.isSome, by rw [hr]; exact h.ended, fun j hj => h.unbrought j (hj.congr hr)⟩

/-- A step changes no stack but that of the routine that makes it. -/
theorem Passes.stack (h : m.Passes R i m') (ht : m.Tidy) (hi : (m.routine i).control.isActive = true)
    (hj : j ≠ i) : (m'.routine j).stack = (m.routine j).stack := by
  cases h with
  | transfers ha htr =>
    obtain ⟨ht₁, hc, -⟩ := ha.own_eq ht hi
    exact (htr.stack ht₁ (hc ▸ hi) j).trans (ha.stack hj)
  | ends hc hst =>
    rw [routine_finish ht hi]
    rfl

section Step

variable (hm : m.Sound) (ht : m.Tidy) (hstep : m.step code = some m')
include hm ht hstep

/-- Who brings a value brought it before, or has just heard it from the body. -/
theorem Brings.of_step (h : m'.Brings j s) :
    m.Brings j s ∨ m.ready.head? = some s ∧ (m.routine s).control.isActive = true ∧
      (m.routine j).control = .listening s := by
  obtain ⟨i, ready, hready, ⟨hi, hp, -⟩ | ⟨-, rfl⟩⟩ := ht.step_cases hstep
  case inr => exact .inl (h.congr (routine_pause m i))
  have hf : m.Follows i m' := by
    obtain ⟨i', ready', hready', ⟨-, -, hf⟩ | ⟨hi', -⟩⟩ := hm.step_cases hstep
    all_goals obtain rfl : i = i' := (List.cons.inj (hready.symm.trans hready')).1
    · exact hf
    · rw [hi] at hi'
      cases hi'
  obtain ⟨b, hc, hawaited⟩ := h
  by_cases hji : j = i
  · subst hji
    obtain ⟨hc₀, hawaited₀⟩ := hf.influences.done b s hc hawaited
    exact .inl ⟨b, hc₀, hawaited₀⟩
  · rw [hp.stack ht hi hji] at hawaited
    have hlt : j.val < m.routines.size := by
      by_contra hge
      rw [routine_of_size_le (not_lt.1 hge)] at hawaited
      cases hawaited
    cases hf.influences.touches j hji hlt with
    | rests hrests =>
      cases hrests with
      | spared _ hcontrol => exact .inl ⟨b, hcontrol.symm.trans hc, hawaited⟩
      | closed _ _ _ hcontrol => cases hcontrol.symm.trans hc
    | resumed b' _ _ _ _ hcontrol => cases hcontrol.symm.trans hc
    | told o hscope hlistening _ _ =>
      -- The scope that a listener awaits is the one that it listens to.
      obtain ⟨scope, hscope⟩ := Option.isSome_iff_exists.1 hscope
      obtain ⟨-, st, hst, -⟩ := hm.linked.takesSignals hscope hlistening
      rw [hst] at hawaited
      obtain rfl : i = s := Option.some.inj hawaited
      exact .inr ⟨by rw [hready]; rfl, hi, hlistening⟩
    | eased _ hcontrol =>
      rcases hcontrol with hcontrol | ⟨-, heased⟩
      · exact .inl ⟨b, hcontrol.symm.trans hc, hawaited⟩
      · rw [hc] at heased
        exact heased.elim

omit ht in
/-- A body that has ended stays so. -/
theorem Sound.ended_step (hs : (m.routine s).scope.isSome) (hended : (m.routine s).control = .ended) :
    (m'.routine s).control = .ended := by
  obtain ⟨i, -, -, ⟨hi, -, hf⟩ | ⟨-, rfl⟩⟩ := hm.step_cases hstep
  case inr => exact hended
  have hsi : s ≠ i := by
    rintro rfl
    exact ne_ended_of_isActive hi hended
  have hsuspending : (m.routine s).status ≠ .suspending := fun hst => by
    cases hended.symm.trans ((hm.linked.phase s hs).suspending hst).2.2.1
  cases hf.influences.touches s hsi (lt_of_scope hs) with
  | rests hrests =>
    cases hrests with
    | spared _ hcontrol => exact hcontrol.trans hended
    | closed _ hst _ _ => exact absurd hst hsuspending
  | resumed _ _ _ hst _ _ => exact absurd hst hsuspending
  | told _ _ hlistening _ _ => cases hended.symm.trans hlistening
  | eased _ hcontrol =>
    rcases hcontrol with hcontrol | ⟨hwaits, -⟩
    · exact hcontrol.trans hended
    · rw [WaitsPlainly, hended] at hwaits
      exact hwaits.elim

/-- A scope that is concluded stays so. -/
theorem Concluded.step (h : m.Concluded s) : m'.Concluded s where
  isSome := hm.isSome_step hstep h.isSome
  ended := hm.ended_step hstep h.isSome h.ended
  unbrought j hj := by
    rcases hj.of_step hm ht hstep with hold | ⟨-, hactive, -⟩
    · exact h.unbrought j hold
    · exact ne_ended_of_isActive hactive h.ended

/-- Two routines do not begin to bring the same value. -/
theorem Once.alone_step (h : m.Once) (hi : m'.Brings i s) (hj : m'.Brings j s) : i = j := by
  have hended : ∀ l, m.Brings l s → (m.routine s).control = .ended := by
    rintro l ⟨b, hc, hawaited⟩
    exact (hm.linked.ending l (by simp) _ s hc rfl hawaited).2.1
  rcases hi.of_step hm ht hstep with hi | ⟨-, hactive, hi⟩
  · rcases hj.of_step hm ht hstep with hj | ⟨-, hactive, -⟩
    · exact h.alone i j s hi hj
    · exact absurd (hended i hi) (ne_ended_of_isActive hactive)
  · rcases hj.of_step hm ht hstep with hj | ⟨-, -, hj⟩
    · exact absurd (hended j hj) (ne_ended_of_isActive hactive)
    · exact Slot.awaited.inj (((ht.listener s i).2 hi).symm.trans ((ht.listener s j).2 hj))

end Step

/-! ## Taking a value -/

/-- What the step does in which a routine takes the value of a body. -/
theorem Sound.gives {b : Boxed V} {st : List (Frame P V σ)} (hm : m.Sound) (ho : m.Once)
    (hc : (m.routine i).control = .returning (.value (.signal (.done b))))
    (hst : (m.routine i).stack = .dispatch s :: st) :
    Gives code m (m.stepOf code i) i s st := by
  obtain ⟨scope, hv⟩ := hm.takesValue hc hst
  have hlt : i.val < m.routines.size := lt_of_ne_ended (by simp [hc])
  have hstep := hv.stepOf_eq code hc hst
  have hcontrol : ∀ d : Control P V σ,
      (((m.update i fun r => { r with stack := st }).setControl i d).routine i).control = d ∧
        (((m.update i fun r => { r with stack := st }).setControl i d).routine i).stack = st := by
    intro d
    rw [setControl, update_update, routine_update_self hlt]
    exact ⟨rfl, rfl⟩
  have hmark := hv.mark
  rw [Scope.mark] at hmark
  unfold Machine.conclude at hstep
  cases hfin : scope.finish with
  | passOn =>
    rw [hfin] at hmark
    obtain ⟨v, rfl⟩ := Boxed.exists_datum hmark
    simp only [hfin] at hstep
    rw [hstep]
    obtain ⟨hgoes, hst'⟩ := hcontrol (.returning (.value (.plain v)))
    exact .passesOn v hc hgoes hst'
  | call p =>
    rw [hfin] at hmark
    obtain ⟨v, rfl⟩ := Boxed.exists_datum hmark
    simp only [hfin] at hstep
    rw [hstep]
    obtain ⟨hgoes, hst'⟩ := hcontrol (.running (code p (.value v)))
    exact .calls p v scope hv.scope_eq hfin hc hgoes hst'
  | into t =>
    rw [hfin] at hmark
    obtain ⟨v, rfl⟩ := Boxed.exists_result hmark
    cases t with
    | none =>
      -- The value would have been brought twice.
      exact absurd ⟨_, hc, by rw [hst]; rfl⟩
        ((ho.spent s scope hv.scope_eq hfin).unbrought i)
    | some t =>
      obtain ⟨hw, ⟨ctx, hri⟩, hrt⟩ := hv.entersOuter code hm hc hst hfin
      exact .answers t v scope hv.scope_eq hfin hw hc (by rw [hrt]; rfl) (by rw [hri]; rfl)

/-- With the step in which a routine takes the value of a body, the scope is concluded. -/
theorem Once.concluded_step (ho : m.Once) (hm : m.Sound) (ht : m.Tidy)
    (hstep : m.step code = some m') (hhead : m.ready.head? = some i) (hi : m.Concludes i s) :
    m'.Concluded s := by
  obtain ⟨b, st, hc, hst⟩ := hi
  have hended := hm.linked.ending i (by simp) _ s hc rfl (by rw [hst]; rfl)
  obtain rfl : m.stepOf code i = m' := stepOf_eq_of_step hhead hstep
  refine ⟨hm.isSome_step hstep hended.1, hm.ended_step hstep hended.1 hended.2.1, fun j hj => ?_⟩
  rcases hj.of_step hm ht hstep with hold | ⟨-, hactive, -⟩
  · obtain rfl : j = i := ho.alone j i s hold ⟨b, hc, by rw [hst]; rfl⟩
    refine not_brings (fun b' hb' => ?_) hj
    have hgives : Gives code m (m.stepOf code j) j s st := hm.gives ho hc hst
    cases hgives with
    | passesOn v _ hgoes _ => cases hgoes.symm.trans hb'
    | calls p v _ _ _ _ hgoes _ => cases hgoes.symm.trans hb'
    | answers t v _ _ _ _ _ _ hlistens => cases hlistens.symm.trans hb'
  · exact ne_ended_of_isActive hactive hended.2.1

/-! ## Runs -/

/-- What holds of every machine that is reached, as far as values are concerned. -/
structure Proper (m : Machine P V σ) : Prop where
  sound : m.Sound
  tidy : m.Tidy
  once : m.Once
  /-- Coroutines that code has made start with plain inputs. -/
  clear : m.Clear (fun _ => False) fun _ => False

namespace Proper

/-- A scope gives its value away in no other step than the one that concludes it. -/
theorem spent_step (h : m.Proper) (hstep : m.step code = some m') {scope : Scope P}
    (hscope : (m'.routine s).scope = some scope) (hfin : scope.finish = .into none) :
    m'.Concluded s := by
  by_contra hnot
  have hwhole : m.Clear (fun _ => False) (s = ·) := by
    refine fun j => ⟨fun _ hf => hf.elim, fun _ hf => hf.elim, (h.clear j).input, ?_⟩
    rintro rfl c hc hfin'
    exact hnot ((h.once.spent s c hc hfin').step h.sound h.tidy hstep)
  have hwhole' := h.sound.clear_step (fun _ hf => hf.elim) hstep hwhole (fun _ _ _ hf => hf.elim) ?_
  · exact (hwhole' s).finish rfl scope hscope hfin
  · rintro i z hhead hconcludes
    refine ⟨?_, fun _ _ _ => id⟩
    rintro rfl
    exact hnot (h.once.concluded_step h.sound h.tidy hstep hhead hconcludes)

theorem step (h : m.Proper) (hstep : m.step code = some m') : m'.Proper where
  sound := h.sound.step hstep
  tidy := h.tidy.step hstep
  once := ⟨fun _ _ _ => h.once.alone_step h.sound h.tidy hstep, fun _ _ => h.spent_step hstep⟩
  clear := h.sound.clear_step (fun _ hf => hf.elim) hstep h.clear (fun _ _ _ hf => hf.elim)
    fun _ _ _ _ => ⟨id, fun _ _ _ => id⟩

theorem passTurn (h : m.Proper) : m.passTurn.Proper where
  sound := h.sound.passTurn
  tidy := h.tidy.passTurn
  once := ⟨fun i j s hi hj => h.once.alone i j s (hi.congr (routine_passTurn m))
    (hj.congr (routine_passTurn m)), fun s scope hscope hfin =>
      (h.once.spent s scope (routine_passTurn m s ▸ hscope) hfin).congr (routine_passTurn m)⟩
  clear := h.clear.congr (routine_passTurn m)

theorem of_reaches (h : m.Proper) (hr : Reaches code m m') : m'.Proper :=
  hr.invariant (fun _ _ hm hs => hm.step hs) (fun _ hm => hm.passTurn) h

end Proper

theorem proper_initial (store : σ) (c : Code P V σ V) : (initial store c).Proper := by
  have hroutine := routine_initial store c
  have hno : ∀ j s, ¬ (initial store c : Machine P V σ).Brings j s := fun j s =>
    not_brings fun b hb => by rcases hroutine j with ⟨h, -⟩ | h <;> rw [h] at hb <;> cases hb
  refine ⟨sound_initial store c, tidy_initial store c, ⟨fun i _ s hi => absurd hi (hno i s), ?_⟩, ?_⟩
  · intro s scope hscope
    rcases hroutine s with ⟨h, -⟩ | h <;> rw [h] at hscope <;> cases hscope
  · refine fun j => ⟨fun _ hf => hf.elim, fun _ hf => hf.elim, fun p a hc => ?_, fun hf => hf.elim⟩
    rcases hroutine j with ⟨h, -⟩ | h <;> rw [h] at hc <;> cases hc

theorem Reaches.proper {store : σ} {c : Code P V σ V} (h : Reaches code (initial store c) m) :
    m.Proper := (proper_initial store c).of_reaches h

/-- A scope that is concluded is not concluded again. -/
theorem Reaches.concluded (hr : Reaches code m m') (hm : m.Proper) (h : m.Concluded s) :
    m'.Concluded s := by
  induction hr with
  | refl => exact h
  | step hstep _ ih => exact ih (hm.step hstep) (h.step hm.sound hm.tidy hstep)
  | turn _ ih => exact ih hm.passTurn (h.congr (routine_passTurn _))

end Machine

end OneShot
