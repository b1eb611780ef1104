import Mathlib.Algebra.BigOperators.Group.Finset.Basic
import Mathlib.Algebra.GroupWithZero.Nat
import Mathlib.Algebra.Order.BigOperators.Group.Finset
import OneShot.Machine.Reach
import OneShot.Proofs.Shape

/-!
# Counting references to scopes

A scope is referred to by the frames that hold it, by continuations, and by the scope that its body
waits for. This module counts these references over a whole machine.

While a routine is *at work* on a step, what it was doing before says nothing any more. So all
counts are of the routines as they are `known` with one routine at work, or with none.

* `Machine.load` counts all references to a scope; each of them holds it.
* `Machine.tokens` counts those by which its body can be resumed.
* `Machine.entries` counts the calls whose entry stands in the registry of a context.
* `Machine.owners` counts the handler functions that own a place for continuations.
-/

namespace OneShot

variable {P V σ : Type}

/-- A way to resume the body of a scope: what the body waits for, and the scope. -/
structure Key where
  mark : Mark
  scope : RoutineId
deriving DecidableEq

/-- The ways to resume that a continuation consists of. -/
def Cont.keys : Cont → List Key
  | .direct s => [⟨.datum, s⟩]
  | .through s inner => ⟨.result, s⟩ :: inner.keys

/-- How many of the keys are for a scope. -/
def countKeys (s : RoutineId) (ks : List Key) : Nat := ks.countP (·.scope = s)

section countKeys

variable {s : RoutineId} {ks ls : List Key}

@[simp] theorem countKeys_nil : countKeys s [] = 0 := rfl

@[simp] theorem countKeys_cons (x : Key) :
    countKeys s (x :: ks) = countKeys s ks + if x.scope = s then 1 else 0 := by
  simp [countKeys, List.countP_cons]

@[simp] theorem countKeys_append : countKeys s (ks ++ ls) = countKeys s ks + countKeys s ls :=
  List.countP_append

theorem countKeys_eq (s : RoutineId) (ks : List Key) :
    countKeys s ks = ks.count ⟨.datum, s⟩ + ks.count ⟨.result, s⟩ := by
  induction ks with
  | nil => rfl
  | cons x ks ih =>
    obtain ⟨q, t⟩ := x
    cases q <;> by_cases h : t = s <;> simp [ih, h] <;> omega

theorem count_le_countKeys (y : Key) (ks : List Key) : ks.count y ≤ countKeys y.scope ks := by
  obtain ⟨q, t⟩ := y
  have h := countKeys_eq t ks
  cases q
  · exact h ▸ Nat.le_add_right _ _
  · exact h ▸ Nat.le_add_left _ _

end countKeys

namespace Frame

/-- How often a frame holds a scope. -/
def holds (s : RoutineId) : Frame P V σ → Nat
  | .holding t => if t = s then 1 else 0
  | _ => 0

/-- How often a frame owns a place for continuations. -/
def owns (k : ContId) : Frame P V σ → Nat
  | .owning l => if l = k then 1 else 0
  | _ => 0

end Frame

/-- The scope whose body a value answers. -/
def Finish.outer? : Finish P → Option RoutineId
  | .into outer => outer
  | _ => none

/-- What a body waits for that is suspended with the signal. -/
def Signal.need? : Signal V → Option Mark
  | .perform _ _ => some .datum
  | .forward _ _ _ => some .result
  | .done _ => none

/-- The ways to resume that come with a signal. -/
def Signal.keys : Signal V → List Key
  | .forward _ _ k => k.keys
  | _ => []

/-- The signal that is an outcome. -/
def Outcome.signal? : Outcome V (Parcel V) → Option (Signal V)
  | .value (.signal s) => some s
  | _ => none

namespace Control

/-- The ways to resume that a routine carries. -/
def keys : Control P V σ → List Key
  | .starting (.rejoin k _) _ => k.keys
  | .returning o => o.signal?.elim [] Signal.keys
  | _ => []

/-- What the body waits for whose signal has come. -/
def need? : Control P V σ → Option Mark
  | .returning o => o.signal?.bind Signal.need?
  | _ => none

/-- Whether an entry that was made for a resume is still there: the body has not been suspended. -/
def hasEntry : Control P V σ → Bool
  | .listening _ => true
  | .returning o => (o.signal?.bind Signal.need?).isNone
  | _ => false

/-- Whether a routine can make a step. -/
def isActive : Control P V σ → Bool
  | .starting _ _ | .running _ | .returning _ => true
  | _ => false

end Control

/-- The scope for whose signal the top of a stack waits. -/
def awaitedScope? : List (Frame P V σ) → Option RoutineId
  | .dispatch s :: _ => some s
  | .registered (.context _) s :: _ => some s
  | _ => none

namespace Routine

/-- The way to resume a scope whose signal has just come. -/
def pending? (r : Routine P V σ) : Option Key :=
  r.control.need?.bind fun q => (awaitedScope? r.stack).map fun s => ⟨q, s⟩

/-- The scope whose body waits for the value of this one. -/
def into? (r : Routine P V σ) : Option RoutineId :=
  r.scope.bind fun c =>
    if 0 < c.holders then c.finish.outer? else none

/-- The ways to resume that the routine has. -/
def keys (r : Routine P V σ) : List Key := r.control.keys ++ (r.into?.map (⟨.result, ·⟩)).toList

/-- The routine at work: nothing is known of what it is doing. -/
def atWork (r : Routine P V σ) : Routine P V σ := { r with control := .ended }

/-- How often the routine holds a scope. -/
def holds (s : RoutineId) (r : Routine P V σ) : Nat :=
  (r.stack.map (Frame.holds s)).sum + countKeys s r.keys

/-- How often the routine can use a way to resume. -/
def tokens (x : Key) (r : Routine P V σ) : Nat := r.pending?.toList.count x + r.keys.count x

/-- How often the routine waits with an entry of `s` in the registry of a context. -/
def entries (c : ContextId) (s : RoutineId) (r : Routine P V σ) : Nat :=
  match r.stack with
  | .registered (.context d) t :: _ => if d = c ∧ t = s ∧ r.control.hasEntry = true then 1 else 0
  | _ => 0

/-- How often a handler function of the routine owns a place for continuations. -/
def owns (k : ContId) (r : Routine P V σ) : Nat := (r.stack.map (Frame.owns k)).sum

end Routine

/-! ## Sums over routines -/

/-- The sum over the routines below a number. -/
def sumTo (n : Nat) (f : RoutineId → Nat) : Nat := ∑ j ∈ Finset.range n, f ⟨j⟩

theorem sumTo_congr {n : Nat} {f g : RoutineId → Nat} (h : ∀ j, j.val < n → f j = g j) :
    sumTo n f = sumTo n g :=
  Finset.sum_congr rfl fun j hj => h ⟨j⟩ (Finset.mem_range.1 hj)

/-- Sums of functions that differ at one routine only. -/
theorem sumTo_add {n : Nat} {f g : RoutineId → Nat} {i : RoutineId} (hi : i.val < n)
    (h : ∀ j, j ≠ i → f j = g j) : sumTo n f + g i = sumTo n g + f i := by
  have hmem : i.val ∈ Finset.range n := Finset.mem_range.2 hi
  have hrest : ∑ j ∈ (Finset.range n).erase i.val, f ⟨j⟩ =
      ∑ j ∈ (Finset.range n).erase i.val, g ⟨j⟩ := by
    refine Finset.sum_congr rfl fun j hj => h ⟨j⟩ ?_
    intro hji
    exact (Finset.mem_erase.1 hj).1 (congrArg RoutineId.val hji)
  have hf : f i + _ = sumTo n f := Finset.add_sum_erase (Finset.range n) (fun j => f ⟨j⟩) hmem
  have hg : g i + _ = sumTo n g := Finset.add_sum_erase (Finset.range n) (fun j => g ⟨j⟩) hmem
  omega

theorem le_sumTo {n : Nat} (f : RoutineId → Nat) {i : RoutineId} (hi : i.val < n) :
    f i ≤ sumTo n f :=
  Finset.single_le_sum (f := fun j => f ⟨j⟩) (fun _ _ => Nat.zero_le _) (Finset.mem_range.2 hi)

theorem sumTo_succ (n : Nat) (f : RoutineId → Nat) : sumTo (n + 1) f = sumTo n f + f ⟨n⟩ :=
  Finset.sum_range_succ _ _

/-- Only routines that count something are counted. -/
theorem exists_of_sumTo_pos {n : Nat} {f : RoutineId → Nat} (h : 0 < sumTo n f) :
    ∃ j : RoutineId, j.val < n ∧ 0 < f j := by
  obtain ⟨j, hj, hpos⟩ := Finset.exists_ne_zero_of_sum_ne_zero (Nat.pos_iff_ne_zero.1 h)
  exact ⟨⟨j⟩, Finset.mem_range.1 hj, Nat.pos_of_ne_zero hpos⟩

namespace Machine

/-- What is known of a routine while routine `w` is at work. -/
def known (m : Machine P V σ) (w : Option RoutineId) (j : RoutineId) : Routine P V σ :=
  if w = some j then (m.routine j).atWork else m.routine j

/-- The ways to resume that are kept in places. -/
def kept (m : Machine P V σ) : List Key := m.conts.toList.flatMap (·.elim [] Cont.keys)

/-- How many references to a scope there are. -/
def load (m : Machine P V σ) (w : Option RoutineId) (s : RoutineId) : Nat :=
  sumTo m.routines.size (fun j => (m.known w j).holds s) + countKeys s m.kept

/-- How often a way to resume can be used. -/
def tokens (m : Machine P V σ) (w : Option RoutineId) (x : Key) : Nat :=
  sumTo m.routines.size (fun j => (m.known w j).tokens x) + m.kept.count x

/-- How many calls there are with an entry of `s` in the registry of a context. -/
def entries (m : Machine P V σ) (w : Option RoutineId) (c : ContextId) (s : RoutineId) : Nat :=
  sumTo m.routines.size fun j => (m.known w j).entries c s

/-- How many handler functions own a place for continuations. -/
def owners (m : Machine P V σ) (k : ContId) : Nat :=
  sumTo m.routines.size fun j => (m.routine j).owns k

/-- How many hold a scope, as the scope itself has it. -/
def holders (m : Machine P V σ) (s : RoutineId) : Nat := (m.routine s).scope.elim 0 (·.holders)

end Machine

end OneShot
