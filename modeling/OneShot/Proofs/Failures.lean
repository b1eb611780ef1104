import OneShot.Proofs.Chain
import OneShot.Proofs.Unwinding

/-!
# Where the failure of a handled body goes

A failure or panic with which a handled body ends belongs to the call that resumed the body last:
`Reaches.failure_comes_back`. As long as no effect of the body was forwarded, this is the `handle` call
that opened the scope.

A forwarded effect changes this. Whoever answers it resumes the body in a scope of its own, so the
failure comes back from there. The `handle` call still waits for the value of that scope, which never
comes, and is told that it was canceled: `exists_canceled_instead`.
-/

namespace OneShot

variable {P V σ : Type}

namespace Machine

variable {code : P → Entry V → Code P V σ V} {m m' : Machine P V σ} {i j s : RoutineId}
  {o : Outcome V (Parcel V)} {st : List (Frame P V σ)} {n : Nat}

/-- The outcome with which the body of scope `s` ends is on its way to the frames `st`, which stand in
routine `j` below the call that resumed the body. The routine given last has it next, and the number says
how many steps with it are still to come. -/
inductive ComesHome (m : Machine P V σ) (s j : RoutineId) (o : Outcome V (Parcel V))
    (st : List (Frame P V σ)) : RoutineId → Nat → Prop where
  /-- The body is about to end. -/
  | ends (fs : List (Frame P V σ)) (hfs : ∀ f ∈ fs, f.handsOn? o = some o) (hne : fs ≠ [])
    (scope : (m.routine s).scope.isSome) (control : (m.routine s).control = .returning o)
    (nil : (m.routine s).stack = []) (outbox : (m.routine s).outbox = .awaited j)
    (stack : (m.routine j).stack = fs ++ st) : ComesHome m s j o st s (fs.length + 1)
  /-- The call takes its frames off. -/
  | unwinds (fs : List (Frame P V σ)) (hfs : ∀ f ∈ fs, f.handsOn? o = some o) (hne : fs ≠ [])
    (control : (m.routine j).control = .returning o) (stack : (m.routine j).stack = fs ++ st) :
    ComesHome m s j o st j fs.length

namespace ComesHome

theorem isActive (h : m.ComesHome s j o st i n) : (m.routine i).control.isActive = true := by
  cases h with
  | ends fs _ _ _ hc _ _ _ => rw [hc]; rfl
  | unwinds fs _ _ hc _ => rw [hc]; rfl

theorem congr (hr : ∀ l, m'.routine l = m.routine l) (h : m.ComesHome s j o st i n) :
    m'.ComesHome s j o st i n := by
  cases h with
  | ends fs hfs hne scope control nil outbox stack =>
    exact .ends fs hfs hne (by rwa [hr]) (by rwa [hr]) (by rwa [hr]) (by rwa [hr]) (by rwa [hr])
  | unwinds fs hfs hne control stack => exact .unwinds fs hfs hne (by rwa [hr]) (by rwa [hr])

/-- The steps of other routines do not concern it. -/
theorem stay (hu : m.ComesHome s j o st i n) (h : m.Sound) (hstep : m.step code = some m')
    (hhead : m.ready.head? ≠ some i) : m'.ComesHome s j o st i n := by
  obtain ⟨x, ready, hready, ⟨hx, -, hf⟩ | ⟨-, rfl⟩⟩ := h.step_cases hstep
  case inr => exact hu.congr (routine_pause m x)
  have hix : i ≠ x := fun heq => hhead (by rw [hready, heq]; rfl)
  have hactive := hu.isActive
  obtain ⟨hcontrol, hstack⟩ := hf.routine_of_isActive h hix hactive
  cases hu with
  | ends fs hfs hne scope control nil outbox stack =>
    obtain ⟨c, hc⟩ := Option.isSome_iff_exists.1 scope
    have hresumes : m.Resumes c.ctx.id j i := ⟨⟨c, hc, rfl⟩, outbox⟩
    have hresumes' := (hf.resumes_iff h hix (lt_of_isActive hactive)
      (Control.ne_reading_of_isActive hactive i)).2 hresumes
    have hlistening := hresumes.listening h.linked
    -- Who listens does not make the step.
    have hjx : j ≠ x := by
      rintro rfl
      exact Control.ne_listening_of_isActive hx i hlistening
    refine .ends fs hfs hne (h.isSome_step hstep scope) (hcontrol.trans control)
      (hstack.trans nil) hresumes'.2 ?_
    rw [hf.influences.stack j hjx (lt_of_ne_ended (by rw [hlistening]; simp))]
    exact stack
  | unwinds fs hfs hne control stack =>
    exact .unwinds fs hfs hne (hcontrol.trans control) (hstack.trans stack)

/-- With a step of the routine that has it, the outcome comes nearer to the frames below the call, or has
come there. -/
theorem advance (hu : m.ComesHome s j o st i n) (h : m.Sound) (hstep : m.step code = some m')
    (hhead : m.ready.head? = some i) :
    (∃ i' n', n' < n ∧ m'.ComesHome s j o st i' n') ∨
      (m'.routine j).control = .returning o ∧ (m'.routine j).stack = st := by
  obtain rfl : m.stepOf code i = m' := stepOf_eq_of_step hhead hstep
  have hactive := hu.isActive
  cases hu with
  | ends fs hfs hne scope control nil outbox stack =>
    -- The listener hears of the end.
    have hfinish : m.stepOf code i = m.finish i o :=
      stepOf_ending control nil
    have hlistening := h.linked.outbox i j outbox
    have hij : i ≠ j := by
      rintro rfl
      exact Control.ne_listening_of_isActive hactive i hlistening
    have hr : (m.stepOf code i).routine j = (m.routine j).told o := by
      rw [hfinish, routine_finish_awaited (h.linked.phase i scope).alone outbox hij
        (lt_of_isActive hactive) (lt_of_ne_ended (by rw [hlistening]; simp)), if_neg hij.symm,
        if_pos rfl]
    refine .inl ⟨j, fs.length, Nat.lt_succ_self _, .unwinds fs hfs hne ?_ ?_⟩
    · rw [hr]
      rfl
    · rw [hr]
      exact stack
  | unwinds fs hfs hne control stack =>
    cases fs with
    | nil => exact absurd rfl hne
    | cons f fs =>
      have hands : m.HandsOn (m.stepOf code i) i f o (fs ++ st) :=
        h.handsOn control stack (hfs f List.mem_cons_self)
      cases fs with
      | nil => exact .inr ⟨hands.control, hands.stack⟩
      | cons g fs =>
        exact .inl ⟨i, _, Nat.lt_succ_self _, .unwinds (g :: fs)
          (fun f hf => hfs f (List.mem_cons_of_mem _ hf)) (by simp) hands.control hands.stack⟩

/-- In every run the outcome is still on its way, or it has come to the frames below the call. -/
theorem of_reaches (hu : m.ComesHome s j o st i n) (h : m.Sound) (hr : Reaches code m m') :
    (∃ i n, m'.ComesHome s j o st i n) ∨ ∃ m₁, Reaches code m m₁ ∧ Reaches code m₁ m' ∧
      (m₁.routine j).control = .returning o ∧ (m₁.routine j).stack = st := by
  induction hr generalizing i n with
  | refl m => exact .inl ⟨i, n, hu⟩
  | @step m m₁ m' hstep hrest ih =>
    have hlater : ∀ i' n', m₁.ComesHome s j o st i' n' →
        (∃ i n, m'.ComesHome s j o st i n) ∨ ∃ m₂, Reaches code m m₂ ∧ Reaches code m₂ m' ∧
          (m₂.routine j).control = .returning o ∧ (m₂.routine j).stack = st := by
      intro i' n' hu'
      rcases ih hu' (h.step hstep) with hon | ⟨m₂, hr₁, hr₂⟩
      · exact .inl hon
      · exact .inr ⟨m₂, .step hstep hr₁, hr₂⟩
    by_cases hhead : m.ready.head? = some i
    · rcases hu.advance h hstep hhead with ⟨i', n', -, hu'⟩ | hhome
      · exact hlater i' n' hu'
      · exact .inr ⟨m₁, .step hstep (.refl _), hrest, hhome⟩
    · exact hlater i n (hu.stay h hstep hhead)
  | @turn m m' _ ih =>
    rcases ih (hu.congr (routine_passTurn m)) h.passTurn with hon | ⟨m₁, hr₁, hr₂⟩
    · exact .inl hon
    · exact .inr ⟨m₁, .turn hr₁, hr₂⟩

/-- In every fair run the outcome comes to the frames below the call. -/
theorem of_isFairRun {f : Nat → Machine P V σ} (hu : (f 0).ComesHome s j o st i n)
    (h : (f 0).Sound) (hf : IsFairRun code f) :
    ∃ k, ((f k).routine j).control = .returning o ∧ ((f k).routine j).stack = st := by
  obtain ⟨k, -, -, hhome⟩ := hf.leadsTo Nat.lt_wfRel.wf (n := 0) (j := i) (a := n)
    (Q := fun n i m => m.Sound ∧ m.ComesHome s j o st i n)
    (G := fun _ m' => (m'.routine j).control = .returning o ∧ (m'.routine j).stack = st)
    (fun n i m hq => hq.1.linked.ready i hq.2.isActive)
    (fun n i m hq => ⟨hq.1.passTurn, hq.2.congr (routine_passTurn m)⟩)
    (fun n i m m' hq hstep hhead => ⟨hq.1.step hstep, hq.2.stay hq.1 hstep hhead⟩)
    (by
      intro n i m m' hq hstep hhead
      rcases hq.2.advance hq.1 hstep hhead with ⟨i', n', hlt, hu'⟩ | hhome
      · exact .inl ⟨n', i', hlt, hq.1.step hstep, hu'⟩
      · exact .inr hhome)
    ⟨h, hu⟩
  exact ⟨k + 1, hhome⟩

end ComesHome

/-- A failure or panic with which a handled body ends, before it was given up, belongs to the call that
resumed the body last. The routine of that call listens. In every run the outcome is on its way to the
frames below the call, or has come there; and in every fair run it comes there. -/
theorem Reaches.failure_comes_back {store : σ} {start : Code P V σ V}
    (h₀ : Reaches code (initial store start) m) (hs : (m.routine s).scope.isSome)
    (hrunning : (m.routine s).status = .running) (hc : (m.routine s).control = .returning o)
    (ho : o.isAbrupt = true) (hst : (m.routine s).stack = []) :
    ∃ j p d t st, (m.routine j).control = .listening s ∧
      (m.routine j).stack = .registered p s :: .dispatch s :: .nested d t :: .holding s :: st ∧
      (∀ m', Reaches code m m' → (∃ i n, m'.ComesHome s j o st i n) ∨
        ∃ m₁, Reaches code m m₁ ∧ Reaches code m₁ m' ∧
          (m₁.routine j).control = .returning o ∧ (m₁.routine j).stack = st) ∧
      ∀ f, IsFairRun code f → f 0 = m → ∃ n, ((f n).routine j).control = .returning o ∧
        ((f n).routine j).stack = st := by
  have h := h₀.sound
  obtain ⟨scope, hscope⟩ := Option.isSome_iff_exists.1 hs
  obtain ⟨j, hout, hlistening⟩ := h.linked.exists_listener hs hrunning
  obtain ⟨-, st₀, hstack, hentered⟩ := h.linked.takesSignals hscope hlistening
  obtain ⟨d, t, st, rfl, -⟩ := hentered.exists_eq
  -- The frames of the call hand the outcome on.
  obtain ⟨hregistered, hdispatch, hnested, hholding⟩ :=
    handsOn?_of_isAbrupt (P := P) (σ := σ) ho (d := d) (t := t)
  have hhome : m.ComesHome s j o st s 5 := by
    refine .ends [.registered scope.ctx.place s, .dispatch s, .nested d t, .holding s] ?_ (by simp) hs hc
      hst hout hstack
    intro f hf
    simp only [List.mem_cons, List.not_mem_nil, or_false] at hf
    rcases hf with rfl | rfl | rfl | rfl
    · exact hregistered _ _
    · exact hdispatch _
    · exact hnested
    · exact hholding _
  refine ⟨j, scope.ctx.place, d, t, st, hlistening, hstack, fun m' hr => hhome.of_reaches h hr, ?_⟩
  rintro f hf rfl
  exact hhome.of_isFairRun h hf

/-! ### A failure that is caught -/

namespace Caught

/-- The procedures of a small program. -/
inductive Proc where
  | outer (n : Nat)
  | inner (n : Nat)
  | answer

def ctx : Context := ⟨⟨0⟩, .standard⟩

/-- The failure of the inner body. -/
def failure : Failure := .body (.plain .other "x")

/-- Performs an effect so many times, and fails then. -/
def performs : Nat → Code Proc Unit (Option (Outcome Unit Unit)) Unit
  | 0 => .fail failure
  | n + 1 => do
    .perform (.perform ctx ⟨1⟩ ())
    performs n

/-- The inner body performs some effects, which the outermost handler answers, and then fails. The outer
body notes how the call ends that runs the inner one. -/
def procedures : Proc → Entry Unit → Code Proc Unit (Option (Outcome Unit Unit)) Unit
  | .outer n, _ => do
    let o ← .outcomeOf (.handle ctx .identity (.inner n))
    .modify fun _ => some o
  | .inner n, _ => performs n
  | .answer, .performed _ k => .perform (.continueWith k ())
  | _, _ => .pure ()

def start (n : Nat) : Machine Proc Unit (Option (Outcome Unit Unit)) :=
  initial none do
    let _ ← .query (.openContext .standard)
    .perform (.handle ctx ⟨[(⟨1⟩, .answer)], none⟩ (.outer n))

end Caught

/-- The failure of a body that has performed nothing comes back to the call that runs it. -/
theorem failure_comes_back_caught :
    ∃ m : Machine Caught.Proc Unit (Option (Outcome Unit Unit)),
      Reaches Caught.procedures (Caught.start 0) m ∧
      ∃ j p d t st, (m.routine j).control = .listening ⟨2⟩ ∧
        (m.routine j).stack = .registered p ⟨2⟩ :: .dispatch ⟨2⟩ :: .nested d t :: .holding ⟨2⟩ :: st ∧
        (∀ m', Reaches Caught.procedures m m' →
          (∃ i n, m'.ComesHome ⟨2⟩ j (.failure Caught.failure) st i n) ∨
          ∃ m₁, Reaches Caught.procedures m m₁ ∧ Reaches Caught.procedures m₁ m' ∧
            (m₁.routine j).control = .returning (.failure Caught.failure) ∧
            (m₁.routine j).stack = st) ∧
        ∀ f, IsFairRun Caught.procedures f → f 0 = m →
          ∃ n, ((f n).routine j).control = .returning (.failure Caught.failure) ∧
            ((f n).routine j).stack = st := by
  have hreached : Reaches Caught.procedures (Caught.start 0)
      ((Caught.start 0).run Caught.procedures 7) := reaches_run _ _
  exact ⟨_, hreached, Reaches.failure_comes_back (s := ⟨2⟩) hreached rfl rfl rfl rfl rfl⟩

/-- After an effect of the body was answered, the call that runs the body does not hear of its failure: it
is told that it was canceled, and what its caller does about that has no bearing on the outermost
call, which has the failure. Without the effect, the caller has the failure, and the outermost call
has the value that the caller ends with. -/
theorem exists_canceled_instead :
    (∃ m, Reaches Caught.procedures (Caught.start 1) m ∧ m.step Caught.procedures = none ∧
      m.store = some (.failure .canceled) ∧
      (m.routine .main).outbox = .full (.failure Caught.failure)) ∧
    ∃ m, Reaches Caught.procedures (Caught.start 0) m ∧ m.step Caught.procedures = none ∧
      m.store = some (.failure Caught.failure) ∧
      (m.routine .main).outbox = .full (.value (.plain ())) :=
  ⟨⟨(Caught.start 1).run Caught.procedures 100, reaches_run _ _, rfl, rfl, rfl⟩,
    (Caught.start 0).run Caught.procedures 100, reaches_run _ _, rfl, rfl, rfl⟩

end Machine

end OneShot
