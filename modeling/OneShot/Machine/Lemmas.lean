import OneShot.Machine.Step

/-!
# What changes of a machine do to its routines

`routine_update` and `routine_spawn` say what `routine` shows after a change: the changed routine as
changed, and every other one as it was; `routine_initial` says what it shows in the beginning.
`registry_setRegistry` says the same of the registries. When the turn passes on, only the order of
the ready routines changes. The last section says what a step is, by what its routine is at.
-/

namespace OneShot.Machine

variable {P V σ : Type}

@[simp] theorem size_update (m : Machine P V σ) (i : RoutineId)
    (f : Routine P V σ → Routine P V σ) : (m.update i f).routines.size = m.routines.size := by
  simp [update]

/-- Changing a routine that exists changes it, and leaves the others alone. -/
theorem routine_update (m : Machine P V σ) (i j : RoutineId)
    (f : Routine P V σ → Routine P V σ) :
    (m.update i f).routine j =
      if i = j ∧ j.val < m.routines.size then f (m.routine j) else m.routine j := by
  unfold update routine
  by_cases hj : j.val < m.routines.size
  · by_cases hij : i = j
    · simp [Array.getD, Array.getElem_modify, hj, hij]
    · have hval : i.val ≠ j.val := fun h => hij (by cases i; cases j; simp_all)
      simp [Array.getD, Array.getElem_modify, hj, hij, hval]
  · simp [Array.getD, hj]

theorem routine_update_self {m : Machine P V σ} {i : RoutineId}
    (h : i.val < m.routines.size) (f : Routine P V σ → Routine P V σ) :
    (m.update i f).routine i = f (m.routine i) := by
  simp [routine_update, h]

theorem routine_update_of_ne {m : Machine P V σ} {i j : RoutineId} (h : i ≠ j)
    (f : Routine P V σ → Routine P V σ) : (m.update i f).routine j = m.routine j := by
  simp [routine_update, h]

@[simp] theorem ready_update (m : Machine P V σ) (i : RoutineId)
    (f : Routine P V σ → Routine P V σ) : (m.update i f).ready = m.ready := rfl

@[simp] theorem registry_update (m : Machine P V σ) (i : RoutineId)
    (f : Routine P V σ → Routine P V σ) (p : Place) :
    (m.update i f).registry p = m.registry p := by
  cases p <;> rfl

@[simp] theorem routine_setRegistry (m : Machine P V σ) (p : Place) (g : Registry RoutineId)
    (i : RoutineId) : (m.setRegistry p g).routine i = m.routine i := by
  cases p <;> rfl

@[simp] theorem routine_wake (m : Machine P V σ) (i j : RoutineId) :
    (m.wake i).routine j = m.routine j := rfl

@[simp] theorem routine_pause (m : Machine P V σ) (i j : RoutineId) :
    (m.pause i).routine j = m.routine j := rfl

/-- The new routine is the one with the new number. -/
theorem routine_spawn (m : Machine P V σ) (config : Config) (start : Start P V)
    (scope : Option (Scope P)) (j : RoutineId) :
    (m.spawn config start scope).2.routine j =
      if j.val = m.routines.size then .new j config start scope else m.routine j := by
  obtain ⟨j⟩ := j
  unfold spawn routine
  by_cases hj : j = m.routines.size
  · simp [Array.getD, hj]
  · by_cases hlt : j < m.routines.size
    · have hle : j < m.routines.size + 1 := by omega
      simp [Array.getD, hj, hlt, hle, Array.getElem_push_lt]
    · have hgt : ¬ j < m.routines.size + 1 := by omega
      simp [Array.getD, hj, hlt, hgt]

/-- Before the first step there is only the main line. -/
theorem routine_initial (store : σ) (c : Code P V σ V) (j : RoutineId) :
    (initial store c : Machine P V σ).routine j = .main c ∧ j = .main ∨
      (initial store c : Machine P V σ).routine j = .absent := by
  obtain ⟨_ | j⟩ := j
  · exact .inl ⟨rfl, rfl⟩
  · exact .inr (by simp [routine, initial, Array.getD])

@[simp] theorem routine_passTurn (m : Machine P V σ) (j : RoutineId) :
    m.passTurn.routine j = m.routine j := by
  unfold passTurn
  split <;> rfl

@[simp] theorem size_passTurn (m : Machine P V σ) :
    m.passTurn.routines.size = m.routines.size := by
  unfold passTurn
  split <;> rfl

@[simp] theorem contexts_passTurn (m : Machine P V σ) : m.passTurn.contexts = m.contexts := by
  unfold passTurn
  split <;> rfl

@[simp] theorem registries_passTurn (m : Machine P V σ) :
    m.passTurn.registries = m.registries := by
  unfold passTurn
  split <;> rfl

@[simp] theorem conts_passTurn (m : Machine P V σ) : m.passTurn.conts = m.conts := by
  unfold passTurn
  split <;> rfl

theorem registry_passTurn (m : Machine P V σ) (p : Place) :
    m.passTurn.registry p = m.registry p := by
  cases p <;> simp [registry]

/-- Whether a registry was opened. -/
def hasPlace (m : Machine P V σ) : Place → Prop
  | .registry r => r.val < m.registries.size
  | .context c => c.val < m.contexts.size

private theorem getD_setIfInBounds (gs : Array (Registry RoutineId)) (r s : Nat)
    (g : Registry RoutineId) (h : r < gs.size) :
    (gs.setIfInBounds r g).getD s .empty = if r = s then g else gs.getD s .empty := by
  by_cases hrs : r = s
  · subst hrs
    simp [Array.getD, h]
  · by_cases hs : s < gs.size <;> simp [Array.getD, hs, hrs]

/-- Replacing a registry that was opened replaces it, and leaves the others alone. -/
theorem registry_setRegistry {m : Machine P V σ} {p : Place} (h : m.hasPlace p) (q : Place)
    (g : Registry RoutineId) :
    (m.setRegistry p g).registry q = if p = q then g else m.registry q := by
  cases p with
  | registry r =>
    cases q with
    | registry s =>
      obtain ⟨r⟩ := r
      obtain ⟨s⟩ := s
      simpa [setRegistry, registry] using getD_setIfInBounds m.registries r s g h
    | context c => simp [setRegistry, registry]
  | context c =>
    cases q with
    | registry s => simp [setRegistry, registry]
    | context d =>
      obtain ⟨c⟩ := c
      obtain ⟨d⟩ := d
      simpa [setRegistry, registry] using getD_setIfInBounds m.contexts c d g h

/-! ## Steps -/

section Steps

variable {code : P → Entry V → Code P V σ V} {m m' : Machine P V σ} {i : RoutineId}

theorem step_of_head (h : m.ready.head? = some i) : m.step code = some (m.stepOf code i) := by
  unfold step
  cases hready : m.ready with
  | nil => rw [hready] at h; cases h
  | cons j ready =>
    rw [hready] at h
    cases h
    rfl

theorem head_of_step (hs : m.step code = some m') :
    ∃ i, m.ready.head? = some i ∧ m.stepOf code i = m' := by
  unfold step at hs
  split at hs
  · cases hs
  · next i ready hready => exact ⟨i, by rw [hready]; rfl, Option.some.inj hs⟩

/-- The first of the ready routines makes the step. -/
theorem stepOf_eq_of_step (h : m.ready.head? = some i) (hs : m.step code = some m') :
    m.stepOf code i = m' :=
  Option.some.inj ((step_of_head h).symm.trans hs)

theorem stepOf_starting {s : Start P V} {x : Parcel V}
    (hc : (m.routine i).control = .starting s x) : m.stepOf code i = m.start code i s x := by
  unfold stepOf
  rw [hc]

theorem stepOf_running {c : Code P V σ V} (hc : (m.routine i).control = .running c) :
    m.stepOf code i = m.exec code i c := by
  unfold stepOf
  rw [hc]

/-- Code begins an operation, and goes on with its outcome later. -/
theorem stepOf_act {a : Act P V} {next : Outcome V V → Code P V σ V}
    (hc : (m.routine i).control = .running (.act a next)) :
    m.stepOf code i = (m.pushFrame i (.next next)).begin code i a :=
  stepOf_running hc

/-- An outcome comes to the first frame. -/
theorem stepOf_returning {o : Outcome V (Parcel V)} {f : Frame P V σ} {st : List (Frame P V σ)}
    (hc : (m.routine i).control = .returning o) (hst : (m.routine i).stack = f :: st) :
    m.stepOf code i = (m.update i fun r => { r with stack := st }).unwind code i o f := by
  unfold stepOf
  rw [hc]
  dsimp only
  rw [hst]

/-- Code that waited for the outcome goes on with what it gets to see of it. -/
theorem stepOf_next {o : Outcome V (Parcel V)} {next : Outcome V V → Code P V σ V} {st : List (Frame P V σ)}
    (hc : (m.routine i).control = .returning o) (hst : (m.routine i).stack = .next next :: st) :
    m.stepOf code i =
      (m.update i fun r => { r with stack := st }).setControl i (.running (next (seen o))) :=
  stepOf_returning hc hst

/-- Where no frame is left, the outcome is that of the routine. -/
theorem stepOf_ending {o : Outcome V (Parcel V)} (hc : (m.routine i).control = .returning o)
    (hst : (m.routine i).stack = []) : m.stepOf code i = m.finish i o := by
  unfold stepOf
  rw [hc]
  dsimp only
  rw [hst]

end Steps

end OneShot.Machine
