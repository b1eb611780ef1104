import OneShot.Proofs.Releasing

/-!
# Places for continuations

A continuation that is kept in a place holds its scopes there. A handler function owns the place of
its continuation, so that what is left of it when the function is left can be dropped.
-/

namespace OneShot.Machine

variable {P V σ : Type} {m : Machine P V σ} {i s : RoutineId} {hand : List Key}
  {loose due : List RoutineId} {c : Cont}

/-- The ways to resume that are kept at a place. -/
def keptAt (m : Machine P V σ) (k : ContId) : List Key := (m.conts.getD k.val none).elim [] Cont.keys

private theorem countP_flatMap_set (l : List (Option Cont)) (k : Nat) (p : Key → Bool) :
    (l.flatMap (·.elim [] Cont.keys)).countP p =
      ((l.set k none).flatMap (·.elim [] Cont.keys)).countP p +
        ((l[k]?.getD none).elim [] Cont.keys).countP p := by
  induction l generalizing k with
  | nil => simp
  | cons c l ih =>
    cases k with
    | zero => simp; omega
    | succ k =>
      have hl := ih k
      simp only [List.flatMap_cons, List.countP_append, List.set_cons_succ,
        List.getElem?_cons_succ]
      omega

theorem countP_kept_takeCont (m : Machine P V σ) (k : ContId) (p : Key → Bool) :
    m.kept.countP p = (m.takeCont k).2.kept.countP p + (m.keptAt k).countP p := by
  have h := countP_flatMap_set m.conts.toList k.val p
  simpa [kept, keptAt, takeCont, Array.getD_eq_getD_getElem?] using h

theorem kept_keepCont (m : Machine P V σ) (c : Cont) : (m.keepCont c).2.kept = m.kept ++ c.keys := by
  simp [kept, keepCont]

namespace AtWork

/-- What is kept at a place is taken in hand. -/
theorem takeCont (h : m.AtWork i hand loose due) (k : ContId) :
    (m.takeCont k).2.AtWork i (m.keptAt k ++ hand) loose due where
  linked := h.linked.congr (fun _ => rfl) le_rfl le_rfl fun _ _ => id
  counted := by
    have hkeys : ∀ s, countKeys s m.kept = countKeys s (m.takeCont k).2.kept +
        countKeys s (m.keptAt k) := fun s => countP_kept_takeCont m k _
    have hcount : ∀ y, m.kept.count y = (m.takeCont k).2.kept.count y + (m.keptAt k).count y :=
      fun y => countP_kept_takeCont m k _
    have hload : ∀ s, m.load (some i) s = (m.takeCont k).2.load (some i) s +
        countKeys s (m.keptAt k) := by
      intro s
      rw [load, hkeys, ← Nat.add_assoc]
      rfl
    have htokens : ∀ y, m.tokens (some i) y = (m.takeCont k).2.tokens (some i) y +
        (m.keptAt k).count y := by
      intro y
      rw [tokens, hcount, ← Nat.add_assoc]
      rfl
    constructor
    · intro s
      have hheld := h.counted.held s
      rw [hload] at hheld
      rw [countKeys_append, ← Nat.add_assoc, hheld]
      rfl
    · intro s
      have hsingle := h.counted.single s
      rw [htokens, htokens] at hsingle
      rw [countKeys_append, countKeys_eq s (m.keptAt k)]
      omega
    · intro y hy
      refine h.counted.waits y ?_
      rw [htokens]
      rw [List.count_append] at hy
      omega
    · exact h.counted.entries
    · intro l
      have hsize : (m.takeCont k).2.conts.size = m.conts.size := by simp [Machine.takeCont]
      rw [hsize]
      exact h.counted.owners l
  reclaimed := h.reclaimed

/-- A continuation in hand is kept in a new place. -/
theorem keepCont (h : m.AtWork i (c.keys ++ hand) loose due) :
    (m.keepCont c).2.AtWork i hand loose due where
  linked := h.linked.congr (fun _ => rfl) le_rfl le_rfl fun _ _ => id
  counted := by
    have hload : ∀ s, (m.keepCont c).2.load (some i) s = m.load (some i) s + countKeys s c.keys := by
      intro s
      rw [load, kept_keepCont, countKeys_append, ← Nat.add_assoc]
      rfl
    have htokens : ∀ y, (m.keepCont c).2.tokens (some i) y = m.tokens (some i) y +
        c.keys.count y := by
      intro y
      rw [tokens, kept_keepCont, List.count_append, ← Nat.add_assoc]
      rfl
    constructor
    · intro s
      have hheld := h.counted.held s
      rw [countKeys_append] at hheld
      rw [hload, Nat.add_assoc (m.load _ _), hheld]
      rfl
    · intro s
      have hsingle := h.counted.single s
      rw [countKeys_append, countKeys_eq s c.keys] at hsingle
      rw [htokens, htokens]
      omega
    · intro y hy
      refine h.counted.waits y ?_
      rw [htokens] at hy
      rw [List.count_append]
      omega
    · exact h.counted.entries
    · intro l
      have hsize : (m.keepCont c).2.conts.size = m.conts.size + 1 := by simp [Machine.keepCont]
      have hl := h.counted.owners l
      have hsame : (m.keepCont c).2.owners l = m.owners l := rfl
      rw [hsize, hsame]
      split at hl <;> split <;> omega
  reclaimed := h.reclaimed

/-- The place that is made next is not owned. -/
theorem owners_eq_zero (h : m.AtWork i hand loose due) {k : ContId} (hk : m.conts.size ≤ k.val) :
    m.owners k = 0 := by
  have hl := h.counted.owners k
  rw [if_neg (by omega)] at hl
  omega

/-- A handler function owns a place that nobody owned. -/
theorem pushOwning (h : m.AtWork i hand loose due) {k : ContId} (hk : k.val < m.conts.size)
    (hfree : m.owners k = 0) : (m.pushFrame i (.owning k)).AtWork i hand loose due := by
  refine h.update h.active rfl rfl rfl rfl rfl (fun s => by simp [Frame.holds]) (fun _ => le_rfl) ?_
  intro l
  have hr := routine_update_ite h.lt fun r => { r with stack := .owning k :: r.stack }
  have hadd := owners_add (fun j hj => by rw [hr, if_neg hj]) (size_update ..) h.lt l
  rw [hr, if_pos rfl] at hadd
  simp only [Routine.owns, List.map_cons, List.sum_cons, Frame.owns] at hadd
  by_cases hkl : k = l
  · subst hkl
    rw [if_pos rfl, hfree] at hadd
    rw [if_pos hk]
    omega
  · have hold := h.counted.owners l
    rw [if_neg hkl] at hadd
    omega

/-- A handler function is entered that owns the continuation in hand. -/
theorem enterOwning (h : m.AtWork i (c.keys ++ hand) loose due) :
    ((m.keepCont c).2.pushFrame i (.owning (m.keepCont c).1)).AtWork i hand loose due := by
  have hfree : (m.keepCont c).2.owners (m.keepCont c).1 = 0 :=
    h.owners_eq_zero (k := (m.keepCont c).1) le_rfl
  have hlt : (m.keepCont c).1.val < (m.keepCont c).2.conts.size := by simp [Machine.keepCont]
  exact h.keepCont.pushOwning hlt hfree

/-- A handler function is left, and its continuation is dropped if it is still there. -/
theorem releaseAt (h : m.AtWork i hand loose due) (k : ContId) :
    (m.releaseAt k).AtWork i hand loose due ∧ (m.takeCont k).2.Fades (m.releaseAt k) := by
  have htake := h.takeCont k
  unfold Machine.releaseAt
  unfold keptAt Machine.takeCont at *
  cases hk : m.conts.getD k.val none with
  | none =>
    rw [hk] at htake
    exact ⟨htake, .refl _⟩
  | some c =>
    rw [hk] at htake
    exact htake.release

end AtWork
end OneShot.Machine
