import Mathlib.Data.Nat.Pairing
import OneShot.Proofs.Lifecycle

/-!
# Fair runs

A run that goes on for ever is fair if a routine that is ready from some time on makes a step at some
later time. A machine at rest may stay as it is, so a run that comes to rest is fair.

`IsFairRun.leadsTo` is the way to show that something happens in every fair run: there is always a
routine which is about to bring it nearer, no other routine interferes, and each step of that routine
makes a measure smaller. `exists_isFairRun` says that every machine has a fair run.
-/

namespace OneShot

variable {P V σ : Type}

namespace Machine

variable {code : P → Entry V → Code P V σ V} {m m' : Machine P V σ} {f : Nat → Machine P V σ}
  {i j : RoutineId} {n k : Nat}

/-- A run that goes on for ever, and in which no routine that stays ready is left out. -/
structure IsFairRun (code : P → Entry V → Code P V σ V) (f : Nat → Machine P V σ) : Prop where
  moves : ∀ n, (f n).step code = some (f (n + 1)) ∨ f (n + 1) = (f n).passTurn
  fair : ∀ n i, (∀ k, n ≤ k → i ∈ (f k).ready) →
    ∃ k, n ≤ k ∧ (f k).ready.head? = some i ∧ (f k).step code = some (f (k + 1))

namespace IsFairRun

theorem reaches (h : IsFairRun code f) (hnk : n ≤ k) : Reaches code (f n) (f k) := by
  induction k, hnk using Nat.le_induction with
  | base => exact .refl _
  | succ k _ ih =>
    refine ih.trans ?_
    rcases h.moves k with hstep | hturn
    · exact .step hstep (.refl _)
    · rw [hturn]
      exact .turn (.refl _)

/-- What every step and every change of turn keeps until something happens holds of all machines
until then. -/
theorem keeps (h : IsFairRun code f) {rule : Machine P V σ → Prop} (hrule : ∀ n, rule (f n))
    {Q : Machine P V σ → Prop} {G : Machine P V σ → Machine P V σ → Prop}
    (step : ∀ m m', Q m → rule m → m.step code = some m' → Q m' ∨ G m m')
    (turn : ∀ m, Q m → Q m.passTurn)
    (hq : Q (f n)) (hnever : ∀ l, n ≤ l → l < k → (f l).step code = some (f (l + 1)) →
      ¬ G (f l) (f (l + 1))) (hnk : n ≤ k) : Q (f k) := by
  induction k, hnk using Nat.le_induction with
  | base => exact hq
  | succ k hnk ih =>
    have hk := ih fun l hl hlt => hnever l hl (Nat.lt_succ_of_lt hlt)
    rcases h.moves k with hstep | hturn
    · exact (step _ _ hk (hrule k) hstep).resolve_right (hnever k hnk (Nat.lt_succ_self k) hstep)
    · rw [hturn]
      exact turn _ hk

/-- Something happens in every fair run of machines that follow a rule if there is always a routine
that brings it nearer: the steps of other routines and changes of turn leave it where it is, and a step
of its own lowers the measure, or is the step in which it happens. -/
theorem leadsToUnder (h : IsFairRun code f) {rule : Machine P V σ → Prop} (hrule : ∀ n, rule (f n))
    {α : Type} {r : α → α → Prop} (hwf : WellFounded r)
    {Q : α → RoutineId → Machine P V σ → Prop} {G : Machine P V σ → Machine P V σ → Prop}
    (ready : ∀ a j m, Q a j m → j ∈ m.ready) (turn : ∀ a j m, Q a j m → Q a j m.passTurn)
    (other : ∀ a j m m', Q a j m → rule m → m.step code = some m' → m.ready.head? ≠ some j →
      Q a j m')
    (own : ∀ a j m m', Q a j m → rule m → m.step code = some m' → m.ready.head? = some j →
      (∃ a' j', r a' a ∧ Q a' j' m') ∨ G m m')
    {a : α} (hq : Q a j (f n)) :
    ∃ k, n ≤ k ∧ (f k).step code = some (f (k + 1)) ∧ G (f k) (f (k + 1)) := by
  induction a using hwf.induction generalizing j n with
  | _ a ih =>
    -- Until the routine makes a step of its own, nothing changes for it.
    have hstays : ∀ k, n ≤ k → (∀ l, n ≤ l → l < k → ¬ ((f l).ready.head? = some j ∧
        (f l).step code = some (f (l + 1)))) → Q a j (f k) := fun k hnk hno =>
      h.keeps hrule (G := fun m m' => m.ready.head? = some j ∧ m.step code = some m')
        (fun m m' hm hr hs => by
          by_cases hhead : m.ready.head? = some j
          · exact .inr ⟨hhead, hs⟩
          · exact .inl (other a j m m' hm hr hs hhead))
        (turn a j) hq (fun l hnl hlk _ => hno l hnl hlk) hnk
    have hown : ∃ k, n ≤ k ∧ (f k).ready.head? = some j ∧ (f k).step code = some (f (k + 1)) := by
      by_contra hno
      refine hno (h.fair n j fun k hnk => ready a j _ (hstays k hnk fun l hnl _ hl => ?_))
      exact hno ⟨l, hnl, hl⟩
    classical
    obtain ⟨hnk, hhead, hstep⟩ := Nat.find_spec hown
    have hfirst := hstays _ hnk fun l hnl hlk hl => Nat.find_min hown hlk ⟨hnl, hl⟩
    rcases own a j _ _ hfirst (hrule _) hstep hhead with ⟨a', j', hlt, hq'⟩ | hg
    · obtain ⟨k, hk, hs, hg⟩ := ih a' hlt hq'
      exact ⟨k, by omega, hs, hg⟩
    · exact ⟨_, hnk, hstep, hg⟩

/-- The same, whatever the machines do. -/
theorem leadsTo (h : IsFairRun code f) {α : Type} {r : α → α → Prop} (hwf : WellFounded r)
    {Q : α → RoutineId → Machine P V σ → Prop} {G : Machine P V σ → Machine P V σ → Prop}
    (ready : ∀ a j m, Q a j m → j ∈ m.ready) (turn : ∀ a j m, Q a j m → Q a j m.passTurn)
    (other : ∀ a j m m', Q a j m → m.step code = some m' → m.ready.head? ≠ some j → Q a j m')
    (own : ∀ a j m m', Q a j m → m.step code = some m' → m.ready.head? = some j →
      (∃ a' j', r a' a ∧ Q a' j' m') ∨ G m m')
    {a : α} (hq : Q a j (f n)) :
    ∃ k, n ≤ k ∧ (f k).step code = some (f (k + 1)) ∧ G (f k) (f (k + 1)) :=
  h.leadsToUnder (fun _ => trivial) hwf ready turn
    (fun a j m m' hq (_ : True) => other a j m m' hq) (fun a j m m' hq _ => own a j m m' hq) hq

end IsFairRun

/-- Something is on its way, and routine `j` brings it nearer with its next step: the steps of other
routines and changes of turn leave it where it is, and a step of its own lowers the measure, or is the step
with which it arrives. -/
structure Nears (code : P → Entry V → Code P V σ V) {α : Type} (r : α → α → Prop)
    (Q : α → RoutineId → Machine P V σ → Prop) (G : Machine P V σ → Machine P V σ → Prop) : Prop where
  wf : WellFounded r
  ready : ∀ a j m, Q a j m → j ∈ m.ready
  turn : ∀ a j m, Q a j m → Q a j m.passTurn
  other : ∀ a j m m', Q a j m → m.step code = some m' → m.ready.head? ≠ some j → Q a j m'
  own : ∀ a j m m', Q a j m → m.step code = some m' → m.ready.head? = some j →
    (∃ a' j', r a' a ∧ Q a' j' m') ∨ G m m'

namespace Nears

variable {α : Type} {r : α → α → Prop} {Q : α → RoutineId → Machine P V σ → Prop}
  {G : Machine P V σ → Machine P V σ → Prop} {a : α}

/-- In every run it is still on its way, or it has arrived. -/
theorem of_reaches (h : Nears code r Q G) (hq : Q a j m) (hr : Reaches code m m') :
    (∃ a j, Q a j m') ∨ ∃ m₁ m₂, Reaches code m m₁ ∧ m₁.step code = some m₂ ∧
      Reaches code m₂ m' ∧ G m₁ m₂ := by
  induction hr generalizing a j with
  | refl m => exact .inl ⟨a, j, hq⟩
  | @step m m₁ m' hstep hrest ih =>
    have hlater : ∀ a' j', Q a' j' m₁ → (∃ a j, Q a j m') ∨ ∃ m₂ m₃, Reaches code m m₂ ∧
        m₂.step code = some m₃ ∧ Reaches code m₃ m' ∧ G m₂ m₃ := fun a' j' hq' =>
      (ih hq').imp id fun ⟨m₂, m₃, hr₁, hrest'⟩ => ⟨m₂, m₃, .step hstep hr₁, hrest'⟩
    by_cases hhead : m.ready.head? = some j
    · rcases h.own a j m m₁ hq hstep hhead with ⟨a', j', -, hq'⟩ | hg
      · exact hlater a' j' hq'
      · exact .inr ⟨m, m₁, .refl m, hstep, hrest, hg⟩
    · exact hlater a j (h.other a j m m₁ hq hstep hhead)
  | turn _ ih =>
    exact (ih (h.turn a j _ hq)).imp id fun ⟨m₂, m₃, hr₁, hrest'⟩ => ⟨m₂, m₃, .turn hr₁, hrest'⟩

/-- In every fair run it arrives. -/
theorem of_isFairRun (h : Nears code r Q G) (hf : IsFairRun code f) (hq : Q a j (f n)) :
    ∃ k, n ≤ k ∧ (f k).step code = some (f (k + 1)) ∧ G (f k) (f (k + 1)) :=
  hf.leadsTo h.wf h.ready h.turn h.other h.own hq

end Nears

/-! ## Every machine has a fair run -/

/-- The routine that is served at a stage: every routine is at infinitely many stages. -/
def served (stage : Nat) : RoutineId := ⟨stage.unpair.1⟩

/-- Lets turns pass until the routine of the stage makes a step, if it is ready. Then the next stage
begins. -/
def serve (code : P → Entry V → Code P V σ V) (x : Machine P V σ × Nat) : Machine P V σ × Nat :=
  if x.1.ready.head? = some (served x.2) then ((x.1.step code).getD x.1, x.2 + 1)
  else (x.1.passTurn, if served x.2 ∈ x.1.ready then x.2 else x.2 + 1)

/-- With each turn that passes, a routine comes nearer to its own. -/
theorem idxOf_passTurn (hi : i ∈ m.ready) (hhead : m.ready.head? ≠ some i) :
    i ∈ m.passTurn.ready ∧ m.passTurn.ready.idxOf i < m.ready.idxOf i := by
  cases hready : m.ready with
  | nil => rw [hready] at hi; cases hi
  | cons j ready =>
    have hpass : m.passTurn.ready = ready ++ [j] := by simp [passTurn, hready]
    rw [hready] at hi hhead
    have hne : j ≠ i := fun h => hhead (by rw [h]; rfl)
    have hmem : i ∈ ready := (List.mem_cons.1 hi).resolve_left (Ne.symm hne)
    rw [hpass]
    refine ⟨List.mem_append_left _ hmem, ?_⟩
    rw [List.idxOf_append_of_mem hmem, List.idxOf_cons_ne _ hne]
    exact Nat.lt_succ_self _

/-- Each stage comes to its end. If its routine is ready at the start, it makes a step. -/
theorem serve_stage (code : P → Entry V → Code P V σ V) (x : Machine P V σ × Nat) :
    ∃ k, ((serve code)^[k + 1] x).2 = x.2 + 1 ∧ (served x.2 ∈ x.1.ready →
      ((serve code)^[k] x).1.ready.head? = some (served x.2) ∧
        ((serve code)^[k] x).1.step code = some ((serve code)^[k + 1] x).1) := by
  by_cases hready : served x.2 ∈ x.1.ready
  case neg =>
    have hhead : x.1.ready.head? ≠ some (served x.2) := fun h => hready (List.mem_of_head? h)
    exact ⟨0, by simp [serve, hhead, hready], fun h => absurd h hready⟩
  obtain ⟨d, hd⟩ : ∃ d, x.1.ready.idxOf (served x.2) = d := ⟨_, rfl⟩
  induction d using Nat.strong_induction_on generalizing x with
  | _ d ih =>
    by_cases hhead : x.1.ready.head? = some (served x.2)
    · have hserve : serve code x = (x.1.stepOf code (served x.2), x.2 + 1) := by
        simp [serve, hhead, step_of_head hhead]
      refine ⟨0, by simp [hserve], fun _ => ⟨hhead, ?_⟩⟩
      simp only [Function.iterate_one, Function.iterate_zero, id, Nat.zero_add, hserve]
      exact step_of_head hhead
    · obtain ⟨hmem, hlt⟩ := idxOf_passTurn hready hhead
      have hserve : serve code x = (x.1.passTurn, x.2) := by simp [serve, hhead, hready]
      obtain ⟨k, hstage, hserved⟩ := ih _ (hd ▸ hlt) (x.1.passTurn, x.2) hmem rfl
      refine ⟨k + 1, ?_, fun _ => ?_⟩
      · rw [Function.iterate_succ_apply, hserve]
        exact hstage
      · rw [Function.iterate_succ_apply, Function.iterate_succ_apply _ (k + 1), hserve]
        exact hserved hmem

/-- Every stage is reached. -/
theorem exists_serve_stage (code : P → Entry V → Code P V σ V) (x : Machine P V σ × Nat) (d : Nat) :
    ∃ k, d ≤ k ∧ ((serve code)^[k] x).2 = x.2 + d := by
  induction d with
  | zero => exact ⟨0, le_rfl, rfl⟩
  | succ d ih =>
    obtain ⟨k, hdk, hk⟩ := ih
    obtain ⟨l, hl, -⟩ := serve_stage code ((serve code)^[k] x)
    refine ⟨l + 1 + k, by omega, ?_⟩
    rw [Function.iterate_add_apply, hl, hk]
    omega

/-- Every machine has a fair run. -/
theorem exists_isFairRun (code : P → Entry V → Code P V σ V) (m : Machine P V σ) :
    ∃ f, f 0 = m ∧ IsFairRun code f := by
  refine ⟨fun n => ((serve code)^[n] (m, 0)).1, rfl, fun n => ?_, fun n i hi => ?_⟩
  · rw [Function.iterate_succ_apply']
    generalize (serve code)^[n] (m, 0) = x
    by_cases hhead : x.1.ready.head? = some (served x.2)
    · exact .inl (by simp [serve, hhead, step_of_head hhead])
    · exact .inr (by simp [serve, hhead])
  · -- A later stage is that of the routine.
    generalize hx : (serve code)^[n] (m, 0) = x at *
    obtain ⟨k, hk⟩ : ∃ k, served (x.2 + k) = i := by
      refine ⟨Nat.pair i.val x.2 - x.2, ?_⟩
      have hle := Nat.right_le_pair i.val x.2
      rw [served, Nat.add_sub_cancel' hle, Nat.unpair_pair]
    obtain ⟨l, -, hl⟩ := exists_serve_stage code x k
    obtain ⟨t, -, hserved⟩ := serve_stage code ((serve code)^[l] x)
    have hat : ∀ u, (serve code)^[u + n] (m, 0) = (serve code)^[u] x := fun u => by
      rw [Function.iterate_add_apply, hx]
    rw [hl, hk] at hserved
    have hmem := hi (l + n) (by omega)
    rw [hat] at hmem
    obtain ⟨hhead, hstep⟩ := hserved hmem
    refine ⟨t + l + n, by omega, ?_, ?_⟩
    · rw [hat, Function.iterate_add_apply]
      exact hhead
    · rw [hat, show t + l + n + 1 = t + 1 + l + n by omega, hat, Function.iterate_add_apply,
        Function.iterate_add_apply]
      exact hstep

end Machine

end OneShot
