import OneShot.Proofs.Passing

/-!
# Bodies that hand out through themselves

A yielder can be passed around, so code may hand out outputs through a coroutine whose body somebody
else runs. As long as nobody does so while the coroutine runs (`yieldsOwn`), what each coroutine is
doing fits its status: a suspended coroutine waits in a yield of its own body, one that runs or is
being unwound has a body that goes on or waits for another coroutine, and only a body that has ended
is `done` or `panicked`. `Orderly` is this invariant, and `Orderly.step` says that steps keep it.
-/

namespace OneShot

variable {P V σ : Type}

open Control

/-- What coroutine `c` is doing fits its status, and if it waits for an input, then for its own. -/
def Routine.InOrder (c : RoutineId) (r : Routine P V σ) : Prop :=
  match r.control with
  | .fresh _ => r.status = .notRunning
  | .reading d => d = c ∧ r.status = .suspending
  | .ended => r.status.isTerminal = true
  | _ => r.status = .running ∨ r.status = .canceled

namespace Machine

variable {code : P → Entry V → Code P V σ V} {m m₁ m₂ m' : Machine P V σ} {i j s c r l : RoutineId}
  {x : Input V} {o : Outcome V (Parcel V)} {R : RegistryId → Prop}

/-- The next routine does not hand out through a coroutine that runs, unless it is its body. -/
def yieldsOwn (m : Machine P V σ) : Bool :=
  match m.ready with
  | [] => true
  | i :: _ =>
    match (m.routine i).control with
    | .running (.act (.yield c _) _) => c == i || m.status c != .running
    | _ => true

/-- A tidy machine in which nobody reads what is meant for another one. -/
structure Orderly (m : Machine P V σ) : Prop where
  tidy : m.Tidy
  inOrder : ∀ c, (m.routine c).InOrder c

namespace Orderly

/-- What a resumable coroutine is doing. -/
theorem resumable (h : m.Orderly) (hc : (m.status c).isResumable = true) :
    (m.routine c).inbox = .awaited c ∧
      ((m.status c = .notRunning ∧ ∃ s, (m.routine c).control = .fresh s) ∨
        m.status c = .suspending ∧ (m.routine c).control = .reading c) := by
  have hpos := h.inOrder c
  have hread := h.tidy.reader c c
  unfold Routine.InOrder at hpos
  rw [status] at hc ⊢
  cases hcontrol : (m.routine c).control with
  | fresh s =>
    rw [hcontrol] at hpos hread
    exact ⟨hread.2 (.inr ⟨rfl, rfl⟩), .inl ⟨hpos, s, rfl⟩⟩
  | reading d =>
    rw [hcontrol] at hpos hread
    obtain ⟨rfl, hst⟩ := hpos
    exact ⟨hread.2 (.inl rfl), .inr ⟨hst, rfl⟩⟩
  | ended =>
    rw [hcontrol] at hpos
    dsimp only at hpos
    rw [Status.isResumable_eq, hpos] at hc
    cases hc
  | _ =>
    rw [hcontrol] at hpos
    rcases hpos with hst | hst <;> rw [hst] at hc <;> cases hc

/-- Only its own body waits for the input of a coroutine, and then the coroutine can be resumed. -/
theorem of_awaited (h : m.Orderly) (hin : (m.routine c).inbox = .awaited r) :
    r = c ∧ (m.status c).isResumable = true := by
  rcases (h.tidy.reader c r).1 hin with hr | ⟨rfl, hf⟩
  · have hpos := h.inOrder r
    unfold Routine.InOrder at hpos
    rw [hr] at hpos
    obtain ⟨rfl, hst⟩ := hpos
    exact ⟨rfl, by rw [status, hst]; rfl⟩
  · exact ⟨rfl, by rw [status, (h.tidy.slotted r).fresh.2 hf]; rfl⟩

/-- A routine that goes on, or waits for another one, runs or is being unwound. -/
theorem working (h : m.Orderly) (hi : (m.routine i).control.isActive = true) :
    (m.routine i).status = .running ∨ (m.routine i).status = .canceled := by
  have hpos := h.inOrder i
  unfold Routine.InOrder at hpos
  cases hc : (m.routine i).control <;> rw [hc] at hpos hi <;> simp_all [isActive]

/-! ### The operations keep a machine orderly -/

theorem handOver (h : m.Orderly) (hi : (m.routine i).control.isActive = true)
    (hc : (m.status c).isResumable = true) (hmain : c ≠ .main) {s : Status}
    (hs : s = if (m.routine i).isCanceling then .canceled else .running)
    (hx : x = .cancel → m.status c = .suspending) : (m.handOver i c s x).Orderly := by
  obtain ⟨hin, hdoing⟩ := h.resumable hc
  refine ⟨h.tidy.handOver hi hc hmain hs, fun j => ?_⟩
  have hst : s = .running ∨ s = .canceled := by
    rw [hs]
    split <;> simp
  have hpos := h.inOrder j
  rw [routine_handOver h.tidy hi hc hin]
  unfold handedOver Routine.InOrder at *
  by_cases hji : j = i
  · subst hji
    have hne : j ≠ c := fun hjc => h.tidy.ne_reader hi hin hjc.symm
    simpa [hne] using h.working hi
  · by_cases hjc : j = c
    · subst hjc
      rcases hdoing with ⟨hnew, s, hf⟩ | ⟨-, hr⟩
      · cases x with
        | parcel p => simpa [hji, hf, take] using hst
        | cancel => cases hnew.symm.trans (hx rfl)
      · cases x <;> simpa [hji, hr, take] using hst
    · simpa [hji, hjc] using hpos

theorem close (h : m.Orderly) (c : RoutineId) : (m.close c).2.Orderly := by
  refine ⟨h.tidy.close c, fun j => ?_⟩
  by_cases hin : ∀ r, (m.routine c).inbox ≠ .awaited r
  · rw [close_eq h.tidy hin]
    exact h.inOrder j
  · obtain ⟨r, hin⟩ : ∃ r, (m.routine c).inbox = .awaited r := by simpa using hin
    obtain ⟨rfl, hc⟩ := h.of_awaited hin
    have hpos := h.inOrder j
    rw [routine_close h.tidy hin]
    unfold closed Routine.InOrder at *
    by_cases hjr : j = r
    · subst hjr
      obtain ⟨-, ⟨-, s, hf⟩ | ⟨-, hr⟩⟩ := h.resumable hc
      · simp [hf, take, Status.isTerminal]
      · simp [hr, take]
    · simpa [hjr] using hpos

theorem inward (h : m.Orderly) (hi : (m.routine i).control.isActive = true) (hq : Inward i m m') :
    m'.Orderly := by
  refine ⟨h.tidy.inward hi hq, fun j => ?_⟩
  have hpos := h.inOrder j
  unfold Routine.InOrder at *
  rw [hq.control, hq.status]
  exact hpos

theorem grow (h : m.Orderly) {x : Routine P V σ} (hmain : 0 < m.routines.size)
    (hx : x.IsUnbegun m.next) : (m.grow x).Orderly := by
  refine ⟨h.tidy.grow hmain hx, fun j => ?_⟩
  rw [routine_grow]
  split
  · rcases hx with rfl | ⟨config, start, scope, rfl⟩ <;> rfl
  · exact h.inOrder j

theorem setControl (h : m.Orderly) (hi : (m.routine i).control.isActive = true)
    {d : Control P V σ} (hd : d.isActive = true) : (m.setControl i d).Orderly := by
  refine ⟨h.tidy.setControl hi hd, fun j => ?_⟩
  have hwork := h.working hi
  rw [Machine.setControl, routine_update_ite (lt_of_isActive hi)]
  split
  · unfold Routine.InOrder
    cases d <;> simp_all [isActive]
  · exact h.inOrder j

theorem join (h : m.Orderly) (hi : (m.routine i).control.isActive = true)
    (hc : (m.routine c).control ≠ .ended) (hstatus : m.status c = .canceled) (hmain : c ≠ .main)
    (answer : V) : (m.join i c answer).Orderly := by
  refine ⟨h.tidy.join hi hc hstatus hmain answer, fun j => ?_⟩
  have hpos := h.inOrder j
  rw [routine_join hi hc]
  unfold joined Routine.InOrder at *
  by_cases hji : j = i
  · subst hji
    simpa using h.working hi
  · simpa [hji] using hpos

theorem yield (h : m.Orderly) (hi : (m.routine i).control.isActive = true)
    (hc : m.status i = .running) (hmain : i ≠ .main) (p : Parcel V) :
    (m.yield i i p).Orderly := by
  refine ⟨h.tidy.yield hi hc hmain p, fun j => ?_⟩
  obtain ⟨l, hout⟩ := h.tidy.exists_listener hc hmain
  have hli := h.tidy.ne_listener hi hout
  have hpos := h.inOrder j
  rw [routine_yield h.tidy hi hc hout]
  unfold handedOut Routine.InOrder at *
  by_cases hji : j = i
  · simp [hji]
  · by_cases hjl : j = l
    · subst hjl
      rw [(h.tidy.listener i j).1 hout] at hpos
      simpa [hji] using hpos
    · simpa [hji, hjl] using hpos

theorem finish (h : m.Orderly) (hi : (m.routine i).control.isActive = true)
    (o : Outcome V (Parcel V)) : (m.finish i o).Orderly := by
  refine ⟨h.tidy.finish hi o, fun j => ?_⟩
  have hpos := h.inOrder j
  rw [routine_finish h.tidy hi]
  unfold finished Routine.InOrder at *
  by_cases hji : j = i
  · simpa [hji] using terminal_ending o (m.status i)
  · by_cases hjl : (m.routine i).outbox.reader? = some j
    · rw [(h.tidy.listener i j).1 (Slot.reader?_eq_some.1 hjl)] at hpos
      simpa [hji, hjl] using hpos
    · by_cases hjoin : j ∈ (m.routine i).joiners
      · obtain ⟨a, ha⟩ := (h.tidy.joiner i j).1 hjoin
        rw [ha] at hpos
        simpa [hji, hjl, hjoin, ha, awoken] using hpos
      · simpa [hji, hjl, hjoin] using hpos

end Orderly

/-! ## What arrangements do -/

/-- Routine `i` gave some coroutines up, and changed nothing else that concerns others. -/
structure Arranged (i : RoutineId) (m m' : Machine P V σ) : Prop where
  orderly : m'.Orderly
  own : (m'.routine i).control = (m.routine i).control
  size : m.routines.size ≤ m'.routines.size
  live : ∀ j, m'.status j = .running ∨ m'.status j = .suspending → m.status j = m'.status j
  kept : ∀ j, j.val < m.routines.size →
    m'.status j = m.status j ∧ (m'.routine j).control = (m.routine j).control ∨
    (m.status j).isResumable = true ∧ m'.status j = .canceled ∧
      (m'.routine j).control = (m.routine j).control.take .cancel

namespace Arranged

theorem inward (h : Arranged i m m₁) (hi : (m.routine i).control.isActive = true)
    (hq : Inward i m₁ m₂) : Arranged i m m₂ where
  orderly := h.orderly.inward (h.own ▸ hi) hq
  own := (hq.control i).trans h.own
  size := h.size.trans hq.size.ge
  live j := by
    rw [status, hq.status]
    exact h.live j
  kept j hj := by
    rw [status, hq.status, hq.control]
    exact h.kept j hj

theorem grow (h : Arranged i m m₁) (hi : (m.routine i).control.isActive = true)
    {x : Routine P V σ} (hx : x.IsUnbegun m₁.next) : Arranged i m (m₁.grow x) := by
  have hlt := lt_of_isActive hi
  have hsize := h.size
  have hold : ∀ j : RoutineId, j.val < m.routines.size →
      (m₁.grow x).routine j = m₁.routine j := fun j hj => routine_grow_of_lt (by omega)
  constructor
  case orderly => exact h.orderly.grow (by omega) hx
  case own => rw [hold i hlt, h.own]
  case size =>
    refine hsize.trans ?_
    simp [Machine.grow]
  case live =>
    intro j
    rw [status, routine_grow]
    split
    · rcases hx with rfl | ⟨config, start, scope, rfl⟩ <;> rintro (hj | hj) <;> cases hj
    · exact h.live j
  case kept =>
    intro j hj
    rw [status, hold j hj]
    exact h.kept j hj

theorem close (h : Arranged i m m₁) (hi : (m.routine i).control.isActive = true)
    (c : RoutineId) : Arranged i m (m₁.close c).2 := by
  by_cases hin : ∀ r, (m₁.routine c).inbox ≠ .awaited r
  · rw [close_eq h.orderly.tidy hin]
    exact h
  · obtain ⟨r, hin⟩ : ∃ r, (m₁.routine c).inbox = .awaited r := by simpa using hin
    obtain ⟨rfl, hc⟩ := h.orderly.of_awaited hin
    have hri := h.orderly.tidy.ne_reader (h.own ▸ hi) hin
    have hr := routine_close h.orderly.tidy hin
    have hother : ∀ j, j ≠ r → (m₁.close r).2.routine j = m₁.routine j := by
      intro j hj
      rw [hr]
      simp [closed, hj]
    constructor
    case orderly => exact h.orderly.close r
    case own => rw [hother i hri.symm, h.own]
    case size => exact h.size.trans (size_close m₁ r).ge
    case live =>
      intro j
      by_cases hjr : j = r
      · subst hjr
        rw [status, hr]
        simp [closed]
      · rw [status, hother j hjr]
        exact h.live j
    case kept =>
      intro j hj
      by_cases hjr : j = r
      · subst hjr
        rcases h.kept j hj with ⟨hst, hcontrol⟩ | ⟨-, hst, -⟩
        · refine .inr ⟨hst ▸ hc, ?_, ?_⟩
          · rw [status, hr]
            simp [closed]
          · rw [hr]
            simp [closed, hcontrol]
        · rw [hst] at hc
          cases hc
      · rw [status, hother j hjr]
        exact h.kept j hj

end Arranged

theorem Arranges.arranged (ha : Arranges R i m m₁) (h : m.Orderly)
    (hi : (m.routine i).control.isActive = true) : Arranged i m m₁ := by
  induction ha with
  | refl => exact ⟨h, rfl, le_rfl, fun _ _ => rfl, fun _ _ => .inl ⟨rfl, rfl⟩⟩
  | inward _ hq _ ih => exact ih.inward hi hq
  | grows _ hx ih => exact ih.grow hi hx
  | closes _ c ih => exact ih.close hi c

/-! ## Steps keep a machine orderly -/

/-- A routine whose body hands out does so through itself. -/
theorem Arranged.yields_own (h : Arranged i m m₁) (hown : m.yieldsOwn = true) {ready : List RoutineId}
    (hready : m.ready = i :: ready) (hc : m₁.status c = .running)
    (hyield : c = i ∨ ∃ v next, (m₁.routine i).control = .running (.act (.yield c v) next)) :
    c = i := by
  rcases hyield with rfl | ⟨v, next, hcontrol⟩
  · rfl
  · rw [h.own] at hcontrol
    have hrun := (h.live c (.inl hc)).trans hc
    simpa [yieldsOwn, hready, hcontrol, hrun] using hown

theorem Orderly.passes (h : m.Orderly) (hi : (m.routine i).control.isActive = true)
    (hown : m.yieldsOwn = true) {ready : List RoutineId} (hready : m.ready = i :: ready)
    (hp : m.Passes R i m') : m'.Orderly := by
  cases hp with
  | ends hc hst => exact h.finish hi _
  | @transfers m₁ _ ha htr =>
    have har := ha.arranged h hi
    have hi₁ : (m₁.routine i).control.isActive = true := har.own ▸ hi
    cases htr with
    | goes hd => exact har.orderly.setControl hi₁ hd
    | resumes p hc hmain hst =>
      exact har.orderly.handOver hi₁ hc hmain (by rw [hst]; rfl) (by simp)
    | cancels hc hmain hst =>
      exact har.orderly.handOver hi₁ (by rw [hc]; rfl) hmain (by rw [hst]; rfl) fun _ => hc
    | @disposes c r answer hin hmain hc =>
      have hcl := har.close hi c
      refine hcl.orderly.join (hcl.own ▸ hi) hc ?_ hmain answer
      rw [status, routine_close har.orderly.tidy hin]
      simp [closed]
    | yields p hc hmain hyield =>
      obtain rfl := har.yields_own hown hready hc hyield
      exact har.orderly.yield hi₁ hc hmain p

/-- Only what the routines show is concerned. -/
theorem Orderly.congr (h : m.Orderly) (hr : ∀ j, m'.routine j = m.routine j) : m'.Orderly :=
  ⟨h.tidy.congr hr, fun c => hr c ▸ h.inOrder c⟩

theorem Orderly.step (h : m.Orderly) (hown : m.yieldsOwn = true) (hs : m.step code = some m') :
    m'.Orderly := by
  obtain ⟨i, ready, hready, ⟨hi, hp, -⟩ | ⟨-, rfl⟩⟩ := h.tidy.step_cases hs
  · exact h.passes hi hown hready hp
  · exact h.congr fun _ => rfl

theorem Orderly.passTurn (h : m.Orderly) : m.passTurn.Orderly := h.congr (routine_passTurn m)

/-- The machine is orderly before its first step. -/
theorem orderly_initial (store : σ) (c : Code P V σ V) : (initial store c).Orderly := by
  refine ⟨tidy_initial store c, ?_⟩
  intro j
  rcases routine_initial store c j with ⟨-, rfl⟩ | habsent
  · exact .inl rfl
  · rw [habsent]
    rfl

theorem ReachesUnder.orderly {rule : Machine P V σ → Machine P V σ → Prop}
    (hrule : ∀ m m', rule m m' → m.yieldsOwn = true) (h : ReachesUnder code rule m m')
    (hm : m.Orderly) : m'.Orderly :=
  h.invariant (fun _ _ hm hr hs => hm.step (hrule _ _ hr) hs) (fun _ hm => hm.passTurn) hm

end Machine

end OneShot
