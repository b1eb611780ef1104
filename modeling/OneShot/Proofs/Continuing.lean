import OneShot.Proofs.Entering

/-!
# Resuming continuations

A continuation is used by entering its scope, or by opening a fresh scope in which a forwarded
continuation goes on. The value of the fresh scope is given to the body that forwarded: for this its
scope gives the way to resume that body away.
-/

namespace OneShot.Machine

open Control

variable {P V σ : Type} {m : Machine P V σ} {i s : RoutineId} {b : Boxed V} {hand hand' : List Key}
  {loose due : List RoutineId} {k : Cont}

namespace AtWork

/-- The order of what is in hand does not matter. -/
theorem perm (h : m.AtWork i hand loose due) (hp : hand.Perm hand') :
    m.AtWork i hand' loose due where
  linked := h.linked
  counted := by
    have hkeys : ∀ s, countKeys s hand' = countKeys s hand := fun s => (hp.countP_eq _).symm
    have hcount : ∀ y, hand'.count y = hand.count y := fun y => (hp.count_eq y).symm
    exact {
      held := fun s => hkeys s ▸ h.counted.held s
      single := fun s => hkeys s ▸ h.counted.single s
      waits := fun y hy => h.counted.waits y (hcount y ▸ hy)
      entries := h.counted.entries
      owners := h.counted.owners }
  reclaimed := h.reclaimed

/-- The holders of a scope whose way to resume is in hand. -/
theorem holders_pos (h : m.AtWork i hand loose due) {y : Key} (hy : y ∈ hand) :
    0 < m.holders y.scope := by
  have hheld := h.counted.held y.scope
  have hle := count_le_countKeys y hand
  have hpos : 0 < hand.count y := List.count_pos_iff.2 hy
  omega

/-- A scope gives its value away, and with it the way to resume that came with the scope. -/
theorem cutFinish (h : m.AtWork i hand loose due) {c : Scope P} {t : RoutineId}
    (hs : (m.routine s).scope = some c) (hfin : c.finish = .into (some t)) (hpos : 0 < c.holders) :
    (m.update s fun r => { r with scope := some { c with finish := .into none } }).AtWork i
      (⟨.result, t⟩ :: hand) loose due := by
  have hkeys : c.keysWith c.holders = [⟨.result, t⟩] := by
    rw [Scope.keysWith, if_pos hpos, hfin]
    rfl
  have hkeys' : ({ c with finish := .into none } : Scope P).keysWith c.holders = [] := by
    rw [Scope.keysWith, if_pos hpos]
    rfl
  refine h.rescope hs ⟨rfl, rfl, by simp [Scope.mark, hfin], by simp⟩ (fun u => ?_) (fun y => ?_)
    (fun _ => id) fun hz => absurd hz (Nat.pos_iff_ne_zero.1 hpos)
  · simp only [hkeys, hkeys', countKeys_cons, countKeys_nil]
    omega
  · simp only [hkeys, hkeys', List.count_cons, List.count_nil]
    omega

/-- A step ends with the resuming of a continuation. -/
theorem continueWith (h : m.AtWork i k.keys [] [])
    (hst : Settled (m.routine i).role (m.routine i).stack) (hb : b.mark? = some .datum) :
    (m.continueWith i k b).Sound := by
  cases k with
  | direct s => exact AtWork.enterScope h hst hb
  | through s inner =>
    have hmem : (⟨.result, s⟩ : Key) ∈ (Cont.through s inner).keys := by simp [Cont.keys]
    obtain ⟨scope, hscope, -, -, -, -, -, hne⟩ := h.suspended hmem
    simp only at hscope hne
    have hsome : (m.routine s).scope.isSome := by simp [hscope]
    have hhold := (h.hold hsome (h.holders_pos hmem)).pushHolding
    have hi : ∀ f : Routine P V σ → Routine P V σ, (((m.hold s).update i f).routine i) =
        f (m.routine i) := by
      intro f
      rw [routine_update_self (by simpa [Machine.hold] using h.lt), Machine.hold,
        routine_update_of_ne hne.symm]
    have hs : (((m.hold s).pushFrame i (.holding s)).routine s).scope =
        some { scope with holders := scope.holders + 1 } := by
      rw [Machine.pushFrame, routine_update_of_ne hne, Machine.hold, routine_update_self (lt_of_scope hsome)]
      simp [hscope]
    simp only [Machine.continueWith, hscope]
    have hperm : (Cont.through s inner).keys.Perm (inner.keys ++ [⟨.result, s⟩]) :=
      (List.perm_append_singleton _ _).symm
    have hopened := hhold.linked.opened s _ hs
    have hclauses := hhold.linked.clauses s _ hs
    refine (hhold.perm hperm).openScope rfl hopened hclauses ?_ rfl hb ?_ ?_
    · rintro t ht
      obtain rfl : s = t := by simpa [Scope.rejoining] using ht
      simpa [Machine.pushFrame, Machine.hold] using lt_of_scope hsome
    · rw [Machine.pushFrame, hi]
      simpa [Routine.role] using hst
    · rfl

end AtWork
end OneShot.Machine
