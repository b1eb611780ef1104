import OneShot.Proofs.Answering

/-!
# Continuations can always be used

A continuation that is kept somewhere can be resumed: each body that it resumes is suspended, and waits for
just that. The body at its inner end waits in the perform that the continuation was made for, and that
perform returns what the continuation is resumed with. A forwarded continuation has a value once, and this
value answers the body that forwarded.

So a machine comes up with no *fault* by itself: no continuation is used twice, no value has the wrong form,
and no resume of a scope is refused. `Usable` collects all of this, and `Reaches.usable` says it of every
machine that is reached.
-/

namespace OneShot

variable {P V σ : Type}

/-- The body that performed the effect for which the continuation was made. -/
def Cont.performer : Cont → RoutineId
  | .direct s => s
  | .through _ inner => inner.performer

theorem Cont.mem_keys_performer (k : Cont) : ⟨.datum, k.performer⟩ ∈ k.keys := by
  induction k with
  | direct s => exact List.mem_cons_self
  | through s inner ih => exact List.mem_cons_of_mem _ ih

namespace Machine

open Control

variable {code : P → Entry V → Code P V σ V} {m m' : Machine P V σ} {i j s : RoutineId} {f : Failure}

/-- The body that can be resumed so is suspended, and its topmost frame waits for what the mark says. -/
structure Blocked (m : Machine P V σ) (y : Key) : Prop where
  scope : (m.routine y.scope).scope.isSome
  status : m.status y.scope = .suspending
  control : (m.routine y.scope).control = .reading y.scope
  stack : ∃ f st, (m.routine y.scope).stack = f :: st ∧ f.need? = some y.mark

/-- A routine has the failure to hand on, or has ended with it. -/
def Reports (m : Machine P V σ) (f : Failure) : Prop :=
  ∃ j, (m.routine j).control = .returning (.failure f) ∨ (m.routine j).outbox = .full (.failure f)

/-- What is true of the continuations and the values in machine `m`, which machine `m₀` has come to. -/
structure Usable (code : P → Entry V → Code P V σ V) (m₀ m : Machine P V σ) : Prop where
  /-- The bodies that a continuation resumes wait for it. -/
  waits : ∀ (p : ContId) (k : Cont), m.conts.getD p.val none = some k → ∀ y ∈ k.keys, m.Blocked y
  /-- No other continuation resumes them. -/
  alone : ∀ (p p' : ContId) (k k' : Cont),
    m.conts.getD p.val none = some k → m.conts.getD p'.val none = some k' →
      ∀ y ∈ k.keys, ∀ y' ∈ k'.keys, y.scope = y'.scope → p = p'
  /-- The perform for which a continuation was made is the last one of its body, and the body has not been
  resumed since. -/
  created : ∀ (p : ContId) (k : Cont), m.conts.getD p.val none = some k →
    ∃ m₁ next, Reaches code m₀ m₁ ∧ m₁.WaitsSince code m k.performer next
  /-- When code resumes a continuation with a value, this value comes to the code that waits for the
  perform, and to no other. -/
  answered : ∀ (j : RoutineId) (p : ContId) (v : V) (next : Outcome V V → Code P V σ V) (k : Cont)
    (n : Outcome V V → Code P V σ V) (st : List (Frame P V σ)), m.ready.head? = some j →
    (m.routine j).control = .running (.act (.continueWith p v) next) →
    m.conts.getD p.val none = some k →
    (m.routine k.performer).stack = .performing :: .next n :: st →
      (∀ m', Reaches code (m.stepOf code j) m' →
        (∃ d l, m'.Answering v k.performer n st d l) ∨
          ∃ m₁ m₂, Reaches code (m.stepOf code j) m₁ ∧ m₁.step code = some m₂ ∧ Reaches code m₂ m' ∧
            m₂.Answered v k.performer n st) ∧
      ∀ g : Nat → Machine P V σ, IsFairRun code g → g 0 = m.stepOf code j →
        ∃ l, (g l).Answered v k.performer n st
  /-- The value of a body goes where its scope says, and goes there once. -/
  concluded : ∀ (i s : RoutineId) (b : Boxed V) (st : List (Frame P V σ)),
    (m.routine i).control = .returning (.value (.signal (.done b))) →
    (m.routine i).stack = .dispatch s :: st → Gives code m (m.stepOf code i) i s st ∧
      (m.ready.head? = some i → ∀ m', Reaches code (m.stepOf code i) m' → ∀ j, ¬ m'.Brings j s)
  /-- A fault is only there if code has come up with it. -/
  faults : ∀ f : Failure, f.isFault = true → m.Reports f → ∃ m₁ i,
    ReachesUnder code (fun m _ => ¬ m.Reports f) m₀ m₁ ∧ ¬ m₁.Reports f ∧
      m₁.ready.head? = some i ∧ m₁.Provokes f i ∧ Reaches code m₁ m
  /-- Code sees the outcomes of its operations as they are. -/
  seen : ∀ (i : RoutineId) (o : Outcome V (Parcel V)) (k : Outcome V V → Code P V σ V)
    (st : List (Frame P V σ)), (m.routine i).control = .returning o →
    (m.routine i).stack = .next k :: st → o = (seen o).map .plain

/-- A body that can be resumed waits. -/
theorem Linked.blocked {w : Option RoutineId} (h : m.Linked w) {y : Key} (hy : m.Waits y) :
    m.Blocked y := by
  obtain ⟨hs, hstatus, hneed⟩ := hy
  obtain ⟨-, -, hcontrol, f, st, hst, -⟩ := (h.phase _ hs).suspending hstatus
  refine ⟨hs, hstatus, hcontrol, f, st, hst, ?_⟩
  rw [hst] at hneed
  exact hneed

theorem Sound.blocked_of_kept (h : m.Sound) {p : ContId} {k : Cont}
    (hp : m.conts.getD p.val none = some k) {y : Key} (hy : y ∈ k.keys) : m.Blocked y := by
  refine h.linked.blocked (h.counted.waits y ?_)
  have hpos : 0 < m.kept.count y := List.count_pos_iff.2 (mem_kept hp hy)
  simp only [tokens]
  omega

/-- A continuation is the only one that resumes its bodies. -/
theorem Counted.alone {w : Option RoutineId} {hand : List Key} {loose : List RoutineId}
    (h : m.Counted w hand loose) {p p' : ContId} {k k' : Cont}
    (hp : m.conts.getD p.val none = some k) (hp' : m.conts.getD p'.val none = some k') {y y' : Key}
    (hy : y ∈ k.keys) (hy' : y' ∈ k'.keys) (hs : y.scope = y'.scope) : p = p' := by
  by_contra hne
  have hpos : 0 < countKeys y.scope (m.keptAt p) := by
    rw [keptAt, hp]
    exact List.countP_pos_iff.2 ⟨y, hy, by simp⟩
  -- With the first one taken out, the second one is still there.
  have hpos' : 0 < countKeys y.scope (m.takeCont p).2.kept := by
    have hkept : (m.takeCont p).2.conts.getD p'.val none = some k' := by
      rw [conts_takeCont_of_ne hne]
      exact hp'
    exact List.countP_pos_iff.2 ⟨y', mem_kept hkept hy', by simp [hs]⟩
  have hsplit := countP_kept_takeCont m p (fun y' => y'.scope = y.scope)
  have hsingle := h.single y.scope
  have heq := countKeys_eq y.scope m.kept
  simp only [tokens] at hsingle
  simp only [countKeys] at hpos hpos' heq
  omega

/-- A failure that nobody reports is not reported after a step, unless it is one of those that code can bring
about, and code does. -/
theorem Proper.reports_step (h : m.Proper) (hf : f.isFault = true) (hno : ¬ m.Reports f)
    (hstep : m.step code = some m')
    (hprovokes : ∀ i, m.ready.head? = some i → ¬ m.Provokes f i) : ¬ m'.Reports f := by
  have hclear : m.Clear (· = f) fun _ => False := by
    refine fun j => ⟨?_, ?_, (h.clear j).input, fun hw => hw.elim⟩
    · rintro _ rfl hc
      exact hno ⟨j, .inl hc⟩
    · rintro _ rfl hc
      exact hno ⟨j, .inr hc⟩
  have hclear' := h.sound.clear_step (by rintro _ rfl; exact hf) hstep hclear
    (by rintro i _ hhead rfl; exact hprovokes i hhead) ?_
  · rintro ⟨j, hc | hc⟩
    · exact (hclear' j).control f rfl hc
    · exact (hclear' j).outbox f rfl hc
  · rintro i s - ⟨b, st, hc, hst⟩
    refine ⟨id, fun scope hscope hfin => ?_⟩
    exact absurd ⟨b, hc, by rw [hst]; rfl⟩ ((h.once.spent s scope hscope hfin).unbrought i)

/-- The first report of a fault comes after code has brought it about. -/
theorem Reaches.provoked {m₀ : Machine P V σ} (hm : m₀.Proper) (h : Reaches code m₀ m)
    (hno : ¬ m₀.Reports f) (hf : f.isFault = true) (hr : m.Reports f) :
    ∃ m₁ i, ReachesUnder code (fun m _ => ¬ m.Reports f) m₀ m₁ ∧ ¬ m₁.Reports f ∧
      m₁.ready.head? = some i ∧ m₁.Provokes f i ∧ Reaches code m₁ m := by
  induction h with
  | refl m => exact absurd hr hno
  | @step m m₁ m' hstep hrest ih =>
    by_cases hprovokes : ∃ i, m.ready.head? = some i ∧ m.Provokes f i
    · obtain ⟨i, hhead, hi⟩ := hprovokes
      exact ⟨m, i, .refl m, hno, hhead, hi, .step hstep hrest⟩
    · have hno₁ := hm.reports_step hf hno hstep fun i hhead hi => hprovokes ⟨i, hhead, hi⟩
      obtain ⟨m₂, i, hunder, hi⟩ := ih (hm.step hstep) hno₁ hr
      exact ⟨m₂, i, .step hno hstep hunder, hi⟩
  | @turn m m' _ ih =>
    have hno₁ : ¬ m.passTurn.Reports f := by
      rintro ⟨j, hj⟩
      rw [routine_passTurn] at hj
      exact hno ⟨j, hj⟩
    obtain ⟨m₂, i, hunder, hi⟩ := ih hm.passTurn hno₁ hr
    exact ⟨m₂, i, .turn hunder, hi⟩

theorem not_reports_initial (store : σ) (c : Code P V σ V) (f : Failure) :
    ¬ (initial store c).Reports f := by
  rintro ⟨⟨_ | j⟩, hc⟩
  · rcases hc with hc | hc <;> cases hc
  · rw [routine_of_size_le (by simp [initial])] at hc
    rcases hc with hc | hc <;> cases hc

/-- Whatever a program does with its continuations, they can be used: whoever is resumed waits in the perform
for which the continuation was made, and has the value with which it is resumed. Values go where they are
expected, and no fault comes up that code has not come up with. -/
theorem Reaches.usable {store : σ} {start : Code P V σ V} (h : Reaches code (initial store start) m) :
    Usable code (initial store start) m where
  waits p k hp y hy := h.sound.blocked_of_kept hp hy
  alone p p' k k' hp hp' y hy y' hy' hs := h.sound.counted.alone hp hp' hy hy' hs
  created p k hp := by
    obtain ⟨hs, hstatus, -, f, st, hst, hneed⟩ := h.sound.blocked_of_kept hp k.mem_keys_performer
    obtain rfl : f = .performing := by
      cases f with
      | performing => rfl
      | _ => cases hneed
    exact h.keepsOrigins k.performer st hs hstatus hst
  answered j p v next k n st hhead hc hp hst := by
    obtain ⟨d, l, hon⟩ := h.sound.answering hc hp k.mem_keys_performer hst
    have hstep : m.step code = some (m.stepOf code j) := step_of_head hhead
    have hsound := h.sound.step hstep
    refine ⟨fun m' hr => ?_, fun g hg hg0 => ?_⟩
    · rcases (answering_nears code v k.performer n st).of_reaches ⟨hsound, hon⟩ hr with
        ⟨d', l', -, hon'⟩ | hdone
      · exact .inl ⟨d', l', hon'⟩
      · exact .inr hdone
    · obtain ⟨l', -, -, hdone⟩ := (answering_nears code v k.performer n st).of_isFairRun hg
        (n := 0) (by rw [hg0]; exact ⟨hsound, hon⟩)
      exact ⟨_, hdone⟩
  concluded i s b st hc hst := by
    refine ⟨h.proper.sound.gives h.proper.once hc hst, fun hhead m' hr j => ?_⟩
    have hstep : m.step code = some (m.stepOf code i) := step_of_head hhead
    have hconcluded := h.proper.once.concluded_step h.sound h.proper.tidy hstep hhead ⟨b, st, hc, hst⟩
    exact (hr.concluded (h.proper.step hstep) hconcluded).unbrought j
  faults f hf hr := h.provoked (proper_initial store start) (not_reports_initial store start f) hf hr
  seen i o k st hc hst := by
    have hposture := h.sound.linked.posture i (by simp)
    simp only [Routine.Posture, hc, hst, Fits] at hposture
    obtain ⟨v, rfl⟩ | ⟨f, rfl⟩ | ⟨p, rfl⟩ := hposture.1.cases <;> rfl

namespace Bumped

/-- The procedures of a small program. -/
inductive Proc where
  | outer
  | inner
  | bump

def ctx : Context := ⟨⟨0⟩, .standard⟩

/-- A handler function that answers the effect of a body through a scope that forwards it. -/
def procedures (p : Proc) (entry : Entry Nat) : Code Proc Nat Unit Nat :=
  match p with
  | .outer => .perform (.handle ctx .identity .inner)
  | .inner => .perform (.perform ctx ⟨1⟩ 3)
  | .bump =>
    match entry with
    | .performed v k => .perform (.continueWith k (v + 1))
    | _ => .fail .detached

def start : Machine Proc Nat Unit :=
  initial () do
    let _ ← .query (.openContext .standard)
    .perform (.handle ctx (Handler.identity.on ⟨1⟩ .bump) .outer)

end Bumped

/-- The forwarded continuation of the inner body, with which its handler function is about to resume it. -/
theorem usable_bumped :
    ∃ m, Reaches Bumped.procedures Bumped.start m ∧
      m.conts.getD 0 none = some (.through ⟨1⟩ (.direct ⟨2⟩)) ∧
      (∃ next, (m.routine .main).control = .running (.act (.continueWith ⟨0⟩ 4) next)) ∧
      Usable Bumped.procedures Bumped.start m :=
  have hreached : Reaches Bumped.procedures Bumped.start
      (Bumped.start.run Bumped.procedures 10) := reaches_run _ _
  ⟨_, hreached, rfl, ⟨_, rfl⟩, Reaches.usable hreached⟩

end Machine

end OneShot
