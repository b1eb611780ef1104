import OneShot.Proofs.Permits

/-!
# Who uses the places of continuations

A handler function that is called with a continuation owns the place where it is kept. Steps leave places
alone but for the one that they may use (`MayUse`): code names a place to resume, move or drop the continuation
in it, and a handler function that ends empties the place that it owns.

`usesOwn` is the rule that code does not use a place that a handler function of another routine owns. Who
has only continuations that were handed to him follows it: to store a continuation is to move it to a place
of its own.
-/

namespace OneShot

variable {P V σ : Type}

namespace Machine

variable {m : Machine P V σ} {i j : RoutineId} {k : ContId}

/-- Whether a handler function of the routine owns the place. -/
def Owns (m : Machine P V σ) (i : RoutineId) (k : ContId) : Prop :=
  .owning k ∈ (m.routine i).stack

/-- The routine that makes the next step does not use a place that a handler function of another routine
owns. -/
def UsesOwn (m : Machine P V σ) : Prop :=
  ∀ i c k, m.ready.head? = some i → (m.routine i).control = .running c → c.place? = some k →
    ∀ j, m.Owns j k → j = i

theorem Owns.pos (h : m.Owns i k) : 0 < (m.routine i).owns k := by
  have hle := List.single_le_sum (l := (m.routine i).stack.map (Frame.owns k)) (by simp) _
    (List.mem_map_of_mem h)
  simp only [Frame.owns, if_true] at hle
  exact hle

theorem Owns.lt (h : m.Owns i k) : i.val < m.routines.size := by
  by_contra hge
  rw [Owns, routine_of_size_le (not_lt.1 hge)] at h
  cases h

/-- A place that is owned exists. -/
theorem Sound.lt_of_owns (h : m.Sound) (hk : m.Owns i k) : k.val < m.conts.size := by
  have hle := h.counted.owners k
  have hpos := Nat.lt_of_lt_of_le hk.pos (le_sumTo (fun j => (m.routine j).owns k) hk.lt)
  simp only [owners] at hle
  split at hle
  · assumption
  · omega

/-- Two routines do not own one place. -/
theorem Sound.owner_unique (h : m.Sound) (hi : m.Owns i k) (hj : m.Owns j k) : i = j := by
  by_contra hne
  have hle := h.counted.owners k
  have hadd := sumTo_add (f := fun l => (m.routine l).owns k)
    (g := fun l => if l = i then 0 else (m.routine l).owns k) hi.lt
    (fun l hl => by simp only [if_neg hl])
  have hrest := le_sumTo (fun l => if l = i then 0 else (m.routine l).owns k) hj.lt
  have hposi := hi.pos
  have hposj := hj.pos
  simp only [if_neg (Ne.symm hne), if_true, owners] at hle hadd hrest
  split at hle <;> omega

/-- A routine owns a place once only. -/
theorem Sound.notMem_of_owning (h : m.Sound) {st st' : List (Frame P V σ)}
    (hst : (m.routine i).stack = st ++ .owning k :: st') : .owning k ∉ st ∧ .owning k ∉ st' := by
  have hown : m.Owns i k := by
    rw [Owns, hst]
    exact List.mem_append_right _ List.mem_cons_self
  have hle := h.counted.owners k
  have hsum := le_sumTo (fun j => (m.routine j).owns k) hown.lt
  have hcount : ∀ l : List (Frame P V σ), .owning k ∈ l → 1 ≤ (l.map (Frame.owns k)).sum := by
    intro l hl
    have hone := List.single_le_sum (l := l.map (Frame.owns k)) (by simp) _ (List.mem_map_of_mem hl)
    simpa [Frame.owns] using hone
  have howns : (m.routine i).owns k = (st.map (Frame.owns k)).sum + (1 + (st'.map (Frame.owns k)).sum) := by
    simp [Routine.owns, hst, Frame.owns]
  simp only [owners] at hle
  constructor
  · intro hmem
    have hone := hcount st hmem
    split at hle <;> omega
  · intro hmem
    have hone := hcount st' hmem
    split at hle <;> omega

end Machine

end OneShot
