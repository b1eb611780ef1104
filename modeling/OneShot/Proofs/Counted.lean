import OneShot.Proofs.Linked

/-!
# How single changes keep the counts

Most changes of a machine are changes of one routine. `Counted.change` reduces them to what that
routine refers to before and after, and the lemmas after it are its cases: a routine at work that
changes its stack, a coroutine that code has made, and a scope whose number of holders changes.
-/

namespace OneShot

variable {P V σ : Type}

namespace Routine

variable {r r' : Routine P V σ}

/-- What a routine refers to depends on its stack, its scope and what it is doing. -/
theorem keys_congr (hkeys : r'.control.keys = r.control.keys) (hinto : r'.into? = r.into?) :
    r'.keys = r.keys := by
  rw [keys, keys, hinto, hkeys]

theorem holds_congr (hkeys : r'.control.keys = r.control.keys) (hstack : r'.stack = r.stack)
    (hinto : r'.into? = r.into?) (s : RoutineId) : r'.holds s = r.holds s := by
  rw [holds, holds, hstack, keys_congr hkeys hinto]

theorem tokens_congr (hkeys : r'.control.keys = r.control.keys)
    (hneed : r'.control.need? = r.control.need?) (hstack : r'.stack = r.stack)
    (hinto : r'.into? = r.into?) (y : Key) : r'.tokens y = r.tokens y := by
  rw [tokens, tokens, pending?, pending?, hstack, hneed, keys_congr hkeys hinto]

theorem entries_congr (hstack : r'.stack = r.stack)
    (hentry : r'.control.hasEntry = r.control.hasEntry) (c : ContextId) (s : RoutineId) :
    r'.entries c s = r.entries c s := by
  unfold entries
  rw [hstack]
  split
  · rw [hentry]
  · rfl

/-- A routine has an entry only under the frame of a resume that is registered on a context. -/
theorem entries_eq_zero (h : ∀ d t st, r.stack ≠ .registered (.context d) t :: st) (c : ContextId)
    (s : RoutineId) : r.entries c s = 0 := by
  unfold entries
  split
  · next heq => exact absurd heq (h _ _ _)
  · rfl

theorem entries_eq_zero_of_awaitedScope? (h : awaitedScope? r.stack = none) (c : ContextId)
    (s : RoutineId) : r.entries c s = 0 := by
  refine entries_eq_zero (fun d t st heq => ?_) c s
  rw [heq] at h
  cases h

/-- A body that waits to be resumed has no entry. -/
theorem entries_eq_zero_of_need? {q : Mark} (h : r.stack.head?.bind Frame.need? = some q)
    (c : ContextId) (s : RoutineId) : r.entries c s = 0 := by
  refine entries_eq_zero (fun d t st heq => ?_) c s
  rw [heq] at h
  cases h

end Routine

namespace Machine

variable {m m' : Machine P V σ} {w : Option RoutineId} {x s : RoutineId}
  {hand hand' : List Key} {loose loose' : List RoutineId}

/-- The holders of a scope are written in the scope. -/
theorem holders_congr (h : (m'.routine s).scope = (m.routine s).scope) :
    m'.holders s = m.holders s := by
  rw [holders, holders, h]

/-! ## What one routine adds to a count -/

section DiffersAt

variable (hr : ∀ j, j ≠ x → m'.routine j = m.routine j)
  (hsize : m'.routines.size = m.routines.size) (hx : x.val < m.routines.size)
include hr hsize hx

private theorem sumTo_known (g : Routine P V σ → Nat) :
    sumTo m'.routines.size (fun j => g (m'.known w j)) + g (m.known w x) =
      sumTo m.routines.size (fun j => g (m.known w j)) + g (m'.known w x) := by
  rw [hsize]
  exact sumTo_add (f := fun j => g (m'.known w j)) (g := fun j => g (m.known w j)) hx
    fun j hj => by simp only [known, hr j hj]

theorem load_add (hconts : m'.conts = m.conts) (s : RoutineId) :
    m'.load w s + (m.known w x).holds s = m.load w s + (m'.known w x).holds s := by
  have hsum := sumTo_known (w := w) hr hsize hx (Routine.holds s)
  simp only [load, kept, hconts]
  omega

theorem tokens_add (hconts : m'.conts = m.conts) (y : Key) :
    m'.tokens w y + (m.known w x).tokens y = m.tokens w y + (m'.known w x).tokens y := by
  have hsum := sumTo_known (w := w) hr hsize hx (Routine.tokens y)
  simp only [tokens, kept, hconts]
  omega

theorem entries_add (c : ContextId) (s : RoutineId) :
    m'.entries w c s + (m.known w x).entries c s = m.entries w c s + (m'.known w x).entries c s :=
  sumTo_known hr hsize hx (Routine.entries c s)

theorem owners_add (k : ContId) :
    m'.owners k + (m.routine x).owns k = m.owners k + (m'.routine x).owns k :=
  sumTo_known (w := none) hr hsize hx (Routine.owns k)

end DiffersAt

namespace Counted

/-- The counts are not about who is ready. -/
theorem setReady (h : m.Counted w hand loose) (l : List RoutineId) :
    { m with ready := l }.Counted w hand loose :=
  ⟨h.held, h.single, h.waits, h.entries, h.owners⟩

/-- One routine changes, and with it what is in hand and what is loose. -/
theorem change (h : m.Counted w hand loose) (hx : x.val < m.routines.size)
    (hr : ∀ j, j ≠ x → m'.routine j = m.routine j)
    (hsize : m'.routines.size = m.routines.size) (hconts : m'.conts = m.conts)
    (hheld : ∀ s, (m'.known w x).holds s + countKeys s hand' + loose'.count s + m.holders s =
      (m.known w x).holds s + countKeys s hand + loose.count s + m'.holders s)
    (htokens : ∀ y, (m'.known w x).tokens y + hand'.count y ≤
      (m.known w x).tokens y + hand.count y)
    (hwaits : ∀ y, y.scope = x → 0 < m.tokens w y + hand.count y → m.Waits y → m'.Waits y)
    (hentries : ∀ c s,
      (m'.registry (.context c)).items.count s + (m.known w x).entries c s =
        (m.registry (.context c)).items.count s + (m'.known w x).entries c s)
    (howners : ∀ k, m'.owners k ≤ if k.val < m.conts.size then 1 else 0) :
    m'.Counted w hand' loose' where
  held s := by
    have hload := load_add (w := w) hr hsize hx hconts s
    have hold := h.held s
    have hnew := hheld s
    omega
  single s := by
    have hold := h.single s
    have hd := tokens_add (w := w) hr hsize hx hconts ⟨.datum, s⟩
    have hq := tokens_add (w := w) hr hsize hx hconts ⟨.result, s⟩
    have hd' := htokens ⟨.datum, s⟩
    have hq' := htokens ⟨.result, s⟩
    rw [countKeys_eq] at hold ⊢
    omega
  waits y hy := by
    have hadd := tokens_add (w := w) hr hsize hx hconts y
    have hle := htokens y
    have hpos : 0 < m.tokens w y + hand.count y := by omega
    have hw := h.waits y hpos
    by_cases hyx : y.scope = x
    · exact hwaits y hyx hpos hw
    · simpa only [Waits, hr _ hyx] using hw
  entries c s := by
    have hadd := entries_add (w := w) hr hsize hx c s
    have hold := h.entries c s
    have heq := hentries c s
    omega
  owners k := by
    rw [hconts]
    exact howners k

theorem owners_le (h : m.Counted w hand loose) (hx : x.val < m.routines.size)
    (hr : ∀ j, j ≠ x → m'.routine j = m.routine j)
    (hsize : m'.routines.size = m.routines.size)
    (howns : ∀ k, (m'.routine x).owns k ≤ (m.routine x).owns k) (k : ContId) :
    m'.owners k ≤ if k.val < m.conts.size then 1 else 0 := by
  have hadd := owners_add hr hsize hx k
  have hold := h.owners k
  have hle := howns k
  omega

/-- A routine changes, but not what it refers to. -/
theorem sameRefs (h : m.Counted w hand loose) (hx : x.val < m.routines.size)
    {f : Routine P V σ → Routine P V σ} (hstack : (f (m.routine x)).stack = (m.routine x).stack)
    (hscope : (f (m.routine x)).scope = (m.routine x).scope)
    (hrefs : w ≠ some x → (f (m.routine x)).control.keys = (m.routine x).control.keys ∧
      (f (m.routine x)).control.need? = (m.routine x).control.need? ∧
      ∀ c s, (f (m.routine x)).entries c s = (m.routine x).entries c s)
    (hwaits : ∀ y, y.scope = x → 0 < m.tokens w y + hand.count y → m.Waits y →
      (m.update x f).Waits y) : (m.update x f).Counted w hand loose := by
  have hr : ∀ j, j ≠ x → (m.update x f).routine j = m.routine j := fun j hj =>
    routine_update_of_ne (Ne.symm hj) _
  have hself : (m.update x f).routine x = f (m.routine x) := routine_update_self hx _
  have hholders : ∀ s, (m.update x f).holders s = m.holders s := by
    intro s
    refine holders_congr ?_
    by_cases hs : s = x
    · rw [hs, hself, hscope]
    · rw [hr s hs]
  obtain ⟨hkeys, hneed, hstack', hscope', hentries⟩ :
      ((m.update x f).known w x).control.keys = (m.known w x).control.keys ∧
      ((m.update x f).known w x).control.need? = (m.known w x).control.need? ∧
      ((m.update x f).known w x).stack = (m.known w x).stack ∧
      ((m.update x f).known w x).scope = (m.known w x).scope ∧
      ∀ c s, ((m.update x f).known w x).entries c s = (m.known w x).entries c s := by
    unfold known
    rw [hself]
    split
    · exact ⟨rfl, rfl, hstack, hscope, Routine.entries_congr hstack rfl⟩
    · next hw =>
      obtain ⟨hkeys, hneed, hentries⟩ := hrefs hw
      exact ⟨hkeys, hneed, hstack, hscope, hentries⟩
  have hinto : ((m.update x f).known w x).into? = (m.known w x).into? := by
    simp only [Routine.into?, hscope']
  refine h.change hx hr (by simp) rfl ?_ ?_ hwaits ?_ (h.owners_le hx hr (by simp) fun k => ?_)
  · intro s
    rw [hholders, Routine.holds_congr hkeys hstack' hinto]
  · intro y
    rw [Routine.tokens_congr hkeys hneed hstack' hinto]
  · intro c s
    rw [hentries, registry_update]
  · rw [hself, Routine.owns, hstack]
    rfl

/-- A way to resume that is in hand becomes a scope that is held loosely. -/
theorem loosen {y : Key} (h : m.Counted w (y :: hand) loose) :
    m.Counted w hand (y.scope :: loose) where
  held s := by
    have hold := h.held s
    simp only [countKeys_cons, List.count_cons, beq_iff_eq] at hold ⊢
    omega
  single s := by
    have hold := h.single s
    simp only [countKeys_cons] at hold
    omega
  waits z hz := h.waits z (by rw [List.count_cons]; omega)
  entries := h.entries
  owners := h.owners

end Counted

end Machine

end OneShot
