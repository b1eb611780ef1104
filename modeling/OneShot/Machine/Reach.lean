import OneShot.Machine.Step

/-!
# Reachable machines

A machine reaches another one by steps, between which the turn passes on whenever it likes: so all
interleavings of the ready routines are covered. `reaches_run` says that a bounded run is one of
them, and `Reaches.invariant` that what every step and every change of turn keeps holds of all
machines that are reached.
-/

namespace OneShot.Machine

variable {P V σ : Type} {code : P → Entry V → Code P V σ V}

/-- The first machine comes to the second by steps and changes of turn. -/
inductive Reaches (code : P → Entry V → Code P V σ V) : Machine P V σ → Machine P V σ → Prop where
  | refl (m : Machine P V σ) : Reaches code m m
  | step {m m' m'' : Machine P V σ} (h : m.step code = some m') (rest : Reaches code m' m'') :
    Reaches code m m''
  | turn {m m' : Machine P V σ} (rest : Reaches code m.passTurn m') : Reaches code m m'

/-- The same, where every step is one that a rule allows. -/
inductive ReachesUnder (code : P → Entry V → Code P V σ V)
    (rule : Machine P V σ → Machine P V σ → Prop) : Machine P V σ → Machine P V σ → Prop where
  | refl (m : Machine P V σ) : ReachesUnder code rule m m
  | step {m m' m'' : Machine P V σ} (hrule : rule m m') (h : m.step code = some m')
    (rest : ReachesUnder code rule m' m'') : ReachesUnder code rule m m''
  | turn {m m' : Machine P V σ} (rest : ReachesUnder code rule m.passTurn m') :
    ReachesUnder code rule m m'

namespace Reaches

theorem trans {m m' m'' : Machine P V σ} (h : Reaches code m m') (h' : Reaches code m' m'') :
    Reaches code m m'' := by
  induction h with
  | refl => exact h'
  | step hs _ ih => exact .step hs (ih h')
  | turn _ ih => exact .turn (ih h')

/-- What every step and every change of turn keeps holds of all machines that are reached. -/
theorem invariant {Inv : Machine P V σ → Prop}
    (keep : ∀ m m', Inv m → m.step code = some m' → Inv m')
    (turn : ∀ m, Inv m → Inv m.passTurn) {m m' : Machine P V σ}
    (h : Reaches code m m') (hm : Inv m) : Inv m' := by
  induction h with
  | refl => exact hm
  | step hs _ ih => exact ih (keep _ _ hm hs)
  | turn _ ih => exact ih (turn _ hm)

end Reaches

/-- Makes `n` steps, if a test allows each of them. -/
def runUnder (code : P → Entry V → Code P V σ V) (test : Machine P V σ → Machine P V σ → Bool) :
    Nat → Machine P V σ → Option (Machine P V σ)
  | 0, m => some m
  | n + 1, m =>
    match m.step code with
    | some m' => if test m m' then runUnder code test n m' else none
    | none => none

namespace ReachesUnder

variable {rule : Machine P V σ → Machine P V σ → Prop}

/-- What every step that the rule allows and every change of turn keeps holds of all machines that
are reached. -/
theorem invariant {Inv : Machine P V σ → Prop}
    (keep : ∀ m m', Inv m → rule m m' → m.step code = some m' → Inv m')
    (turn : ∀ m, Inv m → Inv m.passTurn) {m m' : Machine P V σ}
    (h : ReachesUnder code rule m m') (hm : Inv m) : Inv m' := by
  induction h with
  | refl => exact hm
  | step hrule hs _ ih => exact ih (keep _ _ hm hrule hs)
  | turn _ ih => exact ih (turn _ hm)

/-- A run that follows a rule is a run. -/
theorem reaches {m m' : Machine P V σ} (h : ReachesUnder code rule m m') : Reaches code m m' := by
  induction h with
  | refl m => exact .refl m
  | step _ hs _ ih => exact .step hs ih
  | turn _ ih => exact .turn ih

theorem trans {m m' m'' : Machine P V σ} (h : ReachesUnder code rule m m')
    (h' : ReachesUnder code rule m' m'') : ReachesUnder code rule m m'' := by
  induction h with
  | refl => exact h'
  | step hrule hs _ ih => exact .step hrule hs (ih h')
  | turn _ ih => exact .turn (ih h')

/-- Steps that a test has allowed are steps that a rule allows. -/
theorem of_runUnder {test : Machine P V σ → Machine P V σ → Bool} (n : Nat)
    (hrule : ∀ m m', test m m' = true → rule m m') {m m' : Machine P V σ}
    (h : m.runUnder code test n = some m') : ReachesUnder code rule m m' := by
  induction n generalizing m with
  | zero =>
    obtain rfl : m = m' := Option.some.inj h
    exact .refl m
  | succ n ih =>
    cases hs : m.step code with
    | none => simp [runUnder, hs] at h
    | some m₁ =>
      simp only [runUnder, hs] at h
      split at h
      · next htest => exact .step (hrule _ _ htest) hs (ih h)
      · cases h

end ReachesUnder

/-- A machine at rest stays as it is. -/
theorem run_of_step_eq_none {m : Machine P V σ} (h : m.step code = none) (n : Nat) :
    m.run code n = m := by
  cases n with
  | zero => rfl
  | succ n => simp [run, h]

/-- A bounded run comes to a machine that is reached. -/
theorem reaches_run (m : Machine P V σ) (n : Nat) : Reaches code m (m.run code n) := by
  induction n generalizing m with
  | zero => exact .refl m
  | succ n ih =>
    cases hs : m.step code with
    | none => rw [run_of_step_eq_none hs]; exact .refl m
    | some m' =>
      simp only [run, hs]
      split
      · exact .step hs (.turn (ih _))
      · exact .step hs (ih _)

end OneShot.Machine
