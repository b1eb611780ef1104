import OneShot.Proofs.Counted

/-!
# A routine at work

`AtWork` is the invariant in the middle of a step: one routine is at work, and some ways to resume
and some holds of scopes are in nobody's place. A step begins with `Sound.startWork` and ends when
the routine says what it does next. Between the two come the changes of this module and of the next
ones.
-/

namespace OneShot

open Machine

variable {P V σ : Type}

namespace Routine

variable (r : Routine P V σ)

@[simp] theorem holds_atWork (s : RoutineId) : r.atWork.holds s =
    (r.stack.map (Frame.holds s)).sum + countKeys s (r.into?.map (⟨.result, ·⟩)).toList := by
  simp [holds, keys, atWork, Control.keys, into?]

@[simp] theorem tokens_atWork (y : Key) :
    r.atWork.tokens y = (r.into?.map (⟨.result, ·⟩)).toList.count y := by
  simp [tokens, keys, pending?, atWork, Control.keys, Control.need?, into?]

@[simp] theorem entries_atWork (c : ContextId) (s : RoutineId) : r.atWork.entries c s = 0 := by
  unfold entries atWork
  split
  · simp [Control.hasEntry]
  · rfl

end Routine

namespace Machine
variable {m m' : Machine P V σ} {w : Option RoutineId} {i x s : RoutineId}
  {hand hand' : List Key} {loose loose' due : List RoutineId}

theorem known_self (m : Machine P V σ) (i : RoutineId) : m.known (some i) i = (m.routine i).atWork := by
  simp [known]

theorem known_of_ne {j : RoutineId} (h : w ≠ some j) : m.known w j = m.routine j := by
  simp [known, h]

theorem Linked.not_waits (h : m.Linked w) {y : Key}
    (hi : (m.routine y.scope).control.isActive = true) : ¬ m.Waits y := by
  rintro ⟨hs, hstatus, -⟩
  obtain ⟨-, -, hc, -⟩ := (h.phase _ hs).suspending hstatus
  rw [hc] at hi
  simp [Control.isActive] at hi

section Known

variable (hi : i.val < m.routines.size)
include hi

theorem load_known (s : RoutineId) :
    m.load none s = m.load (some i) s + countKeys s (m.routine i).control.keys := by
  have hsum := sumTo_add (f := fun j => (m.known none j).holds s)
    (g := fun j => (m.known (some i) j).holds s) hi fun j hj => by
      rw [known_of_ne (by simp), known_of_ne (by simpa using Ne.symm hj)]
  simp only [known_self, known_of_ne (w := none) (m := m) (j := i) (by simp),
    Routine.holds_atWork] at hsum
  simp only [load]
  simp only [Routine.holds, Routine.keys, countKeys_append] at hsum ⊢
  omega

theorem tokens_known (y : Key) :
    m.tokens none y = m.tokens (some i) y + ((m.routine i).pending?.toList.count y +
      (m.routine i).control.keys.count y) := by
  have hsum := sumTo_add (f := fun j => (m.known none j).tokens y)
    (g := fun j => (m.known (some i) j).tokens y) hi fun j hj => by
      rw [known_of_ne (by simp), known_of_ne (by simpa using Ne.symm hj)]
  simp only [known_self, known_of_ne (w := none) (m := m) (j := i) (by simp),
    Routine.tokens_atWork] at hsum
  simp only [tokens]
  simp only [Routine.tokens, Routine.keys, List.count_append] at hsum ⊢
  omega

theorem entries_known (c : ContextId) (s : RoutineId) :
    m.entries none c s = m.entries (some i) c s + (m.routine i).entries c s := by
  have hsum := sumTo_add (f := fun j => (m.known none j).entries c s)
    (g := fun j => (m.known (some i) j).entries c s) hi fun j hj => by
      rw [known_of_ne (by simp), known_of_ne (by simpa using Ne.symm hj)]
  simp only [known_self, known_of_ne (w := none) (m := m) (j := i) (by simp),
    Routine.entries_atWork] at hsum
  simp only [entries]
  omega

end Known

namespace Counted

/-- A routine takes up work. The ways to resume that it carries are in hand now; that of a signal
which has just come is not used yet. -/
theorem startWork (h : m.Counted none [] []) (hi : i.val < m.routines.size)
    (hentries : ∀ c s, (m.routine i).entries c s = 0) :
    m.Counted (some i) (m.routine i).control.keys [] where
  held s := by
    have hheld := h.held s
    rw [load_known hi] at hheld
    simpa using hheld
  single s := by
    have hsingle := h.single s
    rw [tokens_known hi, tokens_known hi] at hsingle
    rw [countKeys_eq]
    simp only [countKeys_nil] at hsingle
    omega
  waits y hy := by
    refine h.waits y ?_
    rw [tokens_known hi]
    omega
  entries c s := by
    rw [h.entries, entries_known hi, hentries, Nat.add_zero]
  owners := h.owners

/-- A routine has done its work, and carries some of what was in hand. A registry may have got the
entry with which it waits. -/
theorem finishWork (h : m.Counted (some i) hand []) (hi : i.val < m.routines.size)
    (hr : ∀ j, m'.routine j = m.routine j) (hsize : m'.routines.size = m.routines.size)
    (hconts : m'.conts = m.conts)
    (hheld : ∀ s, countKeys s (m.routine i).control.keys + countKeys s hand' = countKeys s hand)
    (htokens : ∀ y, (m.routine i).pending?.toList.count y + (m.routine i).control.keys.count y +
      hand'.count y ≤ hand.count y)
    (hentries : ∀ c s, (m'.registry (.context c)).items.count s =
      (m.registry (.context c)).items.count s + (m.routine i).entries c s) :
    m'.Counted none hand' [] where
  held s := by
    have hold := h.held s
    have hheld' := hheld s
    have hload := load_known hi s
    simp only [load, known, kept, holders, hr, hsize, hconts] at hload hold ⊢
    omega
  single s := by
    have hsingle := h.single s
    have hd := htokens ⟨.datum, s⟩
    have hq := htokens ⟨.result, s⟩
    have hd' := tokens_known hi ⟨.datum, s⟩
    have hq' := tokens_known hi ⟨.result, s⟩
    rw [countKeys_eq] at hsingle
    simp only [tokens, known, kept, hr, hsize, hconts] at hd' hq' hsingle ⊢
    rw [countKeys_eq]
    omega
  waits y hy := by
    have hle := htokens y
    have hy' := tokens_known hi y
    have hw : m.Waits y := by
      refine h.waits y ?_
      simp only [tokens, known, kept, hr, hsize, hconts] at hy hy' ⊢
      omega
    simpa only [Waits, hr] using hw
  entries c s := by
    have hold := h.entries c s
    have hadd := entries_known hi c s
    rw [hentries]
    simp only [Machine.entries, known, hr, hsize] at hold hadd ⊢
    omega
  owners k := by
    have hold := h.owners k
    simpa only [Machine.owners, hr, hsize, hconts] using hold

/-- The routine at work changes its stack. -/
theorem updateWorker (h : m.Counted (some i) hand loose) (hi : i.val < m.routines.size)
    (hwaits : ∀ y, y.scope = i → ¬ m.Waits y) {f : Routine P V σ → Routine P V σ}
    (hscope : (f (m.routine i)).scope = (m.routine i).scope)
    (hheld : ∀ s, ((f (m.routine i)).stack.map (Frame.holds s)).sum + countKeys s hand' +
        loose'.count s =
      ((m.routine i).stack.map (Frame.holds s)).sum + countKeys s hand + loose.count s)
    (htokens : ∀ y, hand'.count y ≤ hand.count y)
    (howners : ∀ k, (m.update i f).owners k ≤ if k.val < m.conts.size then 1 else 0) :
    (m.update i f).Counted (some i) hand' loose' := by
  have hr := routine_update_ite hi f
  have hself : (m.update i f).routine i = f (m.routine i) := routine_update_self hi f
  have hinto : (f (m.routine i)).into? = (m.routine i).into? := by simp only [Routine.into?, hscope]
  refine h.change hi (fun j hj => by rw [hr, if_neg hj]) (by simp) rfl ?_ ?_ ?_ ?_ howners
  · intro s
    have hs := hheld s
    have hholders : (m.update i f).holders s = m.holders s := by
      simp only [holders, hr]
      split
      · next hsi => rw [hsi, hscope]
      · rfl
    simp only [known_self, hself, Routine.holds_atWork, hinto, hholders]
    omega
  · intro y
    have hy := htokens y
    simp only [known_self, hself, Routine.tokens_atWork, hinto]
    omega
  · exact fun y hy _ hw => absurd hw (hwaits y hy)
  · simp [known_self]

end Counted
/-- Routine `i` is at work -/
structure AtWork (m : Machine P V σ) (i : RoutineId) (hand : List Key) (loose due : List RoutineId) : Prop where
  linked : m.Linked (some i)
  counted : m.Counted (some i) hand loose
  reclaimed : m.Reclaimed due

namespace AtWork

theorem active (h : m.AtWork i hand loose due) : (m.routine i).control.isActive = true :=
  h.linked.working i rfl

theorem lt (h : m.AtWork i hand loose due) : i.val < m.routines.size := lt_of_isActive h.active

theorem owners_update (h : m.AtWork i hand loose due) {f : Routine P V σ → Routine P V σ}
    (howns : ∀ k, (f (m.routine i)).owns k ≤ (m.routine i).owns k) (k : ContId) :
    (m.update i f).owners k ≤ if k.val < m.conts.size then 1 else 0 := by
  have hr := routine_update_ite h.lt f
  refine h.counted.owners_le h.lt (fun j hj => by rw [hr, if_neg hj]) (by simp) ?_ k
  simpa only [hr, if_true] using howns

theorem update (h : m.AtWork i hand loose due) {f : Routine P V σ → Routine P V σ}
    (hcontrol : (f (m.routine i)).control.isActive = true)
    (hstatus : (f (m.routine i)).status = (m.routine i).status)
    (hinbox : (f (m.routine i)).inbox = (m.routine i).inbox)
    (houtbox : (f (m.routine i)).outbox = (m.routine i).outbox)
    (hjoiners : (f (m.routine i)).joiners = (m.routine i).joiners)
    (hscope : (f (m.routine i)).scope = (m.routine i).scope)
    (hheld : ∀ s, ((f (m.routine i)).stack.map (Frame.holds s)).sum + countKeys s hand' +
        loose'.count s =
      ((m.routine i).stack.map (Frame.holds s)).sum + countKeys s hand + loose.count s)
    (htokens : ∀ y, hand'.count y ≤ hand.count y)
    (howners : ∀ k, (m.update i f).owners k ≤ if k.val < m.conts.size then 1 else 0) :
    (m.update i f).AtWork i hand' loose' due where
  linked := h.linked.updateWorker hcontrol hstatus hinbox houtbox hjoiners hscope
  counted := h.counted.updateWorker h.lt
    (fun y hy => h.linked.not_waits (hy ▸ h.active)) hscope hheld htokens howners
  reclaimed s scope hs := by
    rw [routine_update_ite h.lt] at hs ⊢
    split at hs
    · next hsi =>
      subst hsi
      rw [if_pos rfl, hstatus]
      exact h.reclaimed s scope (hscope ▸ hs)
    · next hsi =>
      rw [if_neg hsi]
      exact h.reclaimed s scope hs

/-- The routine says what it does next. -/
theorem setControl (h : m.AtWork i hand loose due) {c : Control P V σ} (hc : c.isActive = true) :
    (m.setControl i c).AtWork i hand loose due :=
  h.update hc rfl rfl rfl rfl rfl (fun _ => rfl) (fun _ => le_rfl) (h.owners_update fun _ => le_rfl)

theorem pushFrame (h : m.AtWork i hand loose due) {f : Frame P V σ} (hf : ∀ s, f.holds s = 0)
    (hf' : ∀ k, f.owns k = 0) : (m.pushFrame i f).AtWork i hand loose due :=
  h.update h.active rfl rfl rfl rfl rfl (fun s => by simp [hf s]) (fun _ => le_rfl)
    (h.owners_update fun k => by simp [Routine.owns, hf' k])

/-- A frame holds the scope that was held loosely. -/
theorem pushHolding (h : m.AtWork i hand (s :: loose) due) :
    (m.pushFrame i (.holding s)).AtWork i hand loose due :=
  h.update h.active rfl rfl rfl rfl rfl
    (fun t => by by_cases ht : s = t <;> simp [Frame.holds, ht]; omega) (fun _ => le_rfl)
    (h.owners_update fun k => by simp [Routine.owns, Frame.owns])

/-- The topmost frame is taken off that refers to nothing. -/
theorem popFrame (h : m.AtWork i hand loose due) {f : Frame P V σ} {st : List (Frame P V σ)}
    (hst : (m.routine i).stack = f :: st) (hf : ∀ s, f.holds s = 0) (hf' : ∀ k, f.owns k = 0) :
    (m.update i fun r => { r with stack := st }).AtWork i hand loose due :=
  h.update h.active rfl rfl rfl rfl rfl (fun s => by simp [hst, hf s]) (fun _ => le_rfl)
    (h.owners_update fun k => by simp [Routine.owns, hst, hf' k])

/-- The topmost frame is taken off, and leaves the scope that it holds. -/
theorem popHolding (h : m.AtWork i hand loose due) {st : List (Frame P V σ)}
    (hst : (m.routine i).stack = .holding s :: st) :
    (m.update i fun r => { r with stack := st }).AtWork i hand (s :: loose) due :=
  h.update h.active rfl rfl rfl rfl rfl
    (fun t => by by_cases ht : s = t <;> simp [Frame.holds, hst, ht]; omega) (fun _ => le_rfl)
    (h.owners_update fun k => by simp [Routine.owns, Frame.owns, hst])

/-- The topmost frame is taken off, and its place for continuations has no owner any more. -/
theorem popOwning (h : m.AtWork i hand loose due) {k : ContId} {st : List (Frame P V σ)}
    (hst : (m.routine i).stack = .owning k :: st) :
    (m.update i fun r => { r with stack := st }).AtWork i hand loose due :=
  h.update h.active rfl rfl rfl rfl rfl (fun s => by simp [hst, Frame.holds]) (fun _ => le_rfl)
    (h.owners_update fun k => by simp [Routine.owns, hst])

end AtWork
end Machine
end OneShot
