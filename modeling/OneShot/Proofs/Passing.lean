import OneShot.Proofs.Waiting

/-!
# What a step can do

In a step a routine ends, or the step has two parts. First the routine makes arrangements: it changes
things of its own, makes routines, and gives coroutines up. Then it goes on, or passes control: it
hands an input to a coroutine and listens, waits for the end of a coroutine, or hands an output out.

`Tidy.stepOf` says that each step of a routine that can go on is of this form, and `Tidy.step` that
machines stay tidy. What one step does to a status, to the line of those who wait, and to a registry,
is read off from there; `usedRegistry` says which registry of the program a step may change.
-/

namespace OneShot

variable {P V σ : Type}

/-- The registry of the program whose entry a frame withdraws. -/
def Frame.usedRegistry : Frame P V σ → Option RegistryId
  | .registered (.registry r) _ => some r
  | _ => none

/-- The registry of the program that an operation uses. -/
def Act.usedRegistry : Act P V → Option RegistryId
  | .resumeOn r _ _ => some r
  | .suspend r _ => some r
  | _ => none

/-- The registry that a query changes. -/
def Query.usedRegistry : Query P → Option RegistryId
  | .register r _ => some r
  | _ => none

namespace Machine

open Control

variable {code : P → Entry V → Code P V σ V} {m m₁ m₂ m' : Machine P V σ} {i j s c r l : RoutineId}
  {x : Input V} {o : Outcome V (Parcel V)} {R : RegistryId → Prop}

/-- The registry of the program that a step of routine `i` may change. -/
def usedRegistry (m : Machine P V σ) (i : RoutineId) : Option RegistryId :=
  match (m.routine i).control with
  | .running (.act a _) => a.usedRegistry
  | .running (.ask q _) => q.usedRegistry
  | .returning _ => (m.routine i).stack.head?.bind Frame.usedRegistry
  | _ => none

theorem registry_setRegistry_of_ne {p q : Place} (h : p ≠ q) (g : Registry RoutineId) :
    (m.setRegistry p g).registry q = m.registry q := by
  by_cases hp : m.hasPlace p
  · rw [registry_setRegistry hp, if_neg h]
  · rw [setRegistry_of_not_hasPlace hp]

/-- The registry of a context is not one of the program. -/
theorem ofContext (ctx : Context) (r : RegistryId) (h : ctx.place = .registry r) : R r :=
  by cases h

/-- A new registry is empty. -/
theorem registry_push_empty (m : Machine P V σ) (r : RegistryId) :
    { m with registries := m.registries.push .empty }.registry (.registry r) =
      m.registry (.registry r) := by
  simp only [registry, Array.getD, Array.size_push]
  by_cases hr : r.val < m.registries.size
  · simp [hr, Nat.lt_succ_of_lt hr, Array.getElem_push_lt]
  · by_cases heq : r.val = m.registries.size
    · simp [heq]
    · simp [hr, show ¬ r.val < m.registries.size + 1 by omega]

/-- Only registries in `R` change, and routine `i` begins no resume that is registered in another
one. -/
structure Spares (R : RegistryId → Prop) (i : RoutineId) (m m' : Machine P V σ) : Prop where
  registry : ∀ r, ¬ R r → m'.registry (.registry r) = m.registry (.registry r)
  frames : ∀ r c, ¬ R r → .registered (.registry r) c ∈ (m'.routine i).stack →
    .registered (.registry r) c ∈ (m.routine i).stack

/-- Routine `i` has made arrangements, but nobody has passed control. -/
inductive Arranges (R : RegistryId → Prop) (i : RoutineId) (m : Machine P V σ) :
    Machine P V σ → Prop where
  | refl : Arranges R i m m
  | inward {m₁ m₂ : Machine P V σ} (h : Arranges R i m m₁) (hq : Inward i m₁ m₂)
    (hspares : Spares R i m₁ m₂) : Arranges R i m m₂
  | grows {m₁ : Machine P V σ} (h : Arranges R i m m₁) {x : Routine P V σ}
    (hx : x.IsUnbegun m₁.next) : Arranges R i m (m₁.grow x)
  | closes {m₁ : Machine P V σ} (h : Arranges R i m m₁) (c : RoutineId) :
    Arranges R i m (m₁.close c).2

/-- Routine `i` goes on, or passes control, but does not end. -/
inductive Transfers (m : Machine P V σ) (i : RoutineId) : Machine P V σ → Prop where
  | goes {d : Control P V σ} (hd : d.isActive = true) : Transfers m i (m.setControl i d)
  | resumes {c : RoutineId} (p : Parcel V) (hc : (m.status c).isResumable = true) (hmain : c ≠ .main)
    (hst : (m.routine i).isCanceling = false) :
    Transfers m i (m.handOver i c .running (.parcel p))
  | cancels {c : RoutineId} (hc : m.status c = .suspending) (hmain : c ≠ .main)
    (hst : (m.routine i).isCanceling = true) : Transfers m i (m.handOver i c .canceled .cancel)
  | disposes {c r : RoutineId} (answer : V) (hin : (m.routine c).inbox = .awaited r)
    (hmain : c ≠ .main) (hc : ((m.close c).2.routine c).control ≠ .ended) :
    Transfers m i ((m.close c).2.join i c answer)
  /-- A body hands out through itself; code may do so through any coroutine. -/
  | yields {c : RoutineId} (p : Parcel V) (hc : m.status c = .running) (hmain : c ≠ .main)
    (hown : c = i ∨ ∃ v next, (m.routine i).control = .running (.act (.yield c v) next)) :
    Transfers m i (m.yield i c p)

/-- A step of routine `i` that concerns only registries in `R`. -/
inductive Passes (m : Machine P V σ) (R : RegistryId → Prop) (i : RoutineId) :
    Machine P V σ → Prop where
  | transfers {m₁ m' : Machine P V σ} (h : Arranges R i m m₁) (htr : m₁.Transfers i m') :
    Passes m R i m'
  | ends {o : Outcome V (Parcel V)} (hc : (m.routine i).control = .returning o)
    (hst : (m.routine i).stack = []) : Passes m R i (m.finish i o)

namespace Inward

theorem of_routines (h : m'.routines = m.routines) : Inward i m m' := by
  have hr : ∀ j, m'.routine j = m.routine j := fun j => by rw [routine, h, routine]
  constructor <;> simp [hr, h]

/-- A routine changes in a way that does not concern its dealings with others. -/
theorem update {f : Routine P V σ → Routine P V σ}
    (hstatus : (f (m.routine j)).status = (m.routine j).status)
    (hinbox : (f (m.routine j)).inbox = (m.routine j).inbox)
    (houtbox : (f (m.routine j)).outbox = (m.routine j).outbox)
    (hjoiners : (f (m.routine j)).joiners = (m.routine j).joiners)
    (hcontrol : (f (m.routine j)).control = (m.routine j).control)
    (hstack : j = i ∨ (f (m.routine j)).stack = (m.routine j).stack)
    (hscope : (f (m.routine j)).scope.isSome = (m.routine j).scope.isSome) :
    Inward i m (m.update j f) := by
  constructor
  case size => exact size_update m j f
  case stack =>
    intro k hk
    rw [routine_update]
    split
    · next hjk =>
      obtain ⟨rfl, -⟩ := hjk
      exact hstack.resolve_left hk
    · rfl
  all_goals
    intro k
    rw [routine_update]
    split
    · next hjk =>
      obtain ⟨rfl, -⟩ := hjk
      assumption
    · rfl

/-- A routine changes its stack, or where it runs. -/
theorem own {f : Routine P V σ → Routine P V σ}
    (hf : ∀ r, ∃ stack depth thread, f r = { r with stack, depth, thread }) :
    Inward i m (m.update i f) := by
  obtain ⟨stack, depth, thread, heq⟩ := hf (m.routine i)
  refine update ?_ ?_ ?_ ?_ ?_ (.inl rfl) ?_ <;> rw [heq]

/-- A scope changes. -/
theorem setScope {g : Option (Scope P)} (hg : g.isSome = (m.routine j).scope.isSome) :
    Inward i m (m.update j fun r => { r with scope := g }) :=
  update rfl rfl rfl rfl rfl (.inr rfl) hg

end Inward

theorem size_close (m : Machine P V σ) (c : RoutineId) :
    (m.close c).2.routines.size = m.routines.size := by
  unfold close
  split
  · dsimp only
    rw [deliver_eq]
    exact (size_update ..).trans (size_update ..)
  · dsimp only
    split
    · exact size_update ..
    · rfl

theorem stack_close (m : Machine P V σ) (c j : RoutineId) :
    ((m.close c).2.routine j).stack = (m.routine j).stack := by
  unfold close
  split
  · dsimp only
    rw [routine_wake, deliver_eq, setControl, routine_update, routine_update]
    split_ifs <;> rfl
  · dsimp only
    split
    · rw [setStatus, routine_update]
      split <;> rfl
    · rfl

theorem registries_close (m : Machine P V σ) (c : RoutineId) :
    (m.close c).2.registries = m.registries := by
  unfold close
  split
  · dsimp only
    rw [deliver_eq]
    rfl
  · dsimp only
    split <;> rfl

namespace Arranges

variable (h : Arranges R i m m₁)
include h

theorem routines (hr : m₂.routines = m₁.routines)
    (hreg : ∀ r, ¬ R r → m₂.registry (.registry r) = m₁.registry (.registry r)) :
    Arranges R i m m₂ :=
  h.inward (.of_routines hr) ⟨hreg, fun r c _ hmem => by rwa [routine, hr] at hmem⟩

theorem setRegistry (p : Place) (hp : ∀ r, p = .registry r → R r) (g : Registry RoutineId) :
    Arranges R i m (m₁.setRegistry p g) :=
  h.routines (by cases p <;> rfl) fun r hr =>
    registry_setRegistry_of_ne (fun heq => hr (hp r heq)) g

/-- The routine changes its stack, or where it runs, and does not begin a registered resume. -/
theorem own {f : Routine P V σ → Routine P V σ}
    (hf : ∀ r, ∃ stack depth thread, f r = { r with stack, depth, thread })
    (hframes : ∀ r c, ¬ R r → .registered (.registry r) c ∈ (f (m₁.routine i)).stack →
      .registered (.registry r) c ∈ (m₁.routine i).stack) :
    Arranges R i m (m₁.update i f) :=
  h.inward (.own hf) ⟨fun _ _ => registry_update .., fun r c hr hmem => by
    rw [routine_update] at hmem
    split at hmem
    · exact hframes r c hr hmem
    · exact hmem⟩

theorem pushFrame (f : Frame P V σ) (hf : ∀ r, f.usedRegistry = some r → R r) :
    Arranges R i m (m₁.pushFrame i f) :=
  h.own (fun _ => ⟨_, _, _, rfl⟩) fun r _ hr hmem =>
    (List.mem_cons.1 hmem).resolve_left fun heq => hr (hf r (heq ▸ rfl))

theorem enter (config : Config) : Arranges R i m (m₁.enter i config) := by
  refine h.own (fun r => ?_) fun r c _ hmem => ?_
  · dsimp only
    split <;> exact ⟨_, _, _, rfl⟩
  · dsimp only at hmem
    split at hmem <;> simpa using hmem

/-- A scope changes. -/
theorem setScope {g : Option (Scope P)} (hg : g.isSome = (m₁.routine j).scope.isSome) :
    Arranges R i m (m₁.update j fun r => { r with scope := g }) :=
  h.inward (.setScope hg) ⟨fun _ _ => registry_update .., fun r c _ hmem => by
    rw [routine_update] at hmem
    split at hmem <;> exact hmem⟩

theorem hold (s : RoutineId) : Arranges R i m (m₁.hold s) := by
  unfold Machine.hold
  rw [update_congr (g := fun r => { r with scope := (m₁.routine s).scope.map fun c =>
    { c with holders := c.holders + 1 } }) rfl]
  exact h.setScope (by simp)

theorem spawn (config : Config) (start : Start P V) (scope : Option (Scope P)) :
    Arranges R i m (m₁.spawn config start scope).2 :=
  h.grows (.inr ⟨config, start, scope, rfl⟩)

theorem letGoWithin (n : Nat) (s : RoutineId) : Arranges R i m (m₁.letGoWithin n s) := by
  induction n generalizing m₁ s with
  | zero => exact h
  | succ n ih =>
    unfold Machine.letGoWithin
    split
    · exact h
    · next scope hscope =>
      have hless : Arranges R i m (m₁.update s fun r =>
          { r with scope := some { scope with holders := scope.holders - 1 } }) :=
        h.setScope (by rw [hscope]; rfl)
      dsimp only
      split
      · split
        · exact (ih hless _).closes s
        · exact hless.closes s
      · exact hless

theorem letGo (s : RoutineId) : Arranges R i m (m₁.letGo s) := h.letGoWithin _ s

theorem release (k : Cont) : Arranges R i m (m₁.release k) := by
  induction k generalizing m₁ with
  | direct s => exact h.letGo s
  | through s inner ih => exact ih (h.letGo s)

theorem releaseParcel (p : Parcel V) : Arranges R i m (m₁.releaseParcel p) := by
  unfold Machine.releaseParcel
  split
  · exact h.release _
  · exact h

theorem takeCont (k : ContId) : Arranges R i m (m₁.takeCont k).2 := h.routines rfl fun _ _ => rfl

theorem releaseAt (k : ContId) : Arranges R i m (m₁.releaseAt k) := by
  have htake := h.takeCont k
  unfold Machine.releaseAt
  split
  · next c m₂ heq =>
    rw [heq] at htake
    exact htake.release c
  · next m₂ heq =>
    rw [heq] at htake
    exact htake

/-- A step ends with the control of the routine. -/
theorem goes {d : Control P V σ} (hd : d.isActive = true) : m.Passes R i (m₁.setControl i d) :=
  .transfers h (.goes hd)

theorem reply (o : Outcome V (Parcel V)) : m.Passes R i (m₁.reply i o) := h.goes rfl

theorem fail (f : Failure) : m.Passes R i (m₁.fail i f) := h.goes rfl

theorem run (c : Code P V σ V) : m.Passes R i (m₁.setControl i (.running c)) := h.goes rfl

theorem resume (hmain : c ≠ .main) (hst : (m₁.routine i).isCanceling = false) (p : Parcel V) :
    m.Passes R i (m₁.resume i c p) := by
  unfold Machine.resume
  split
  · next hc => exact .transfers h (.resumes p hc hmain hst)
  · exact h.fail _

theorem resumeOn (hmain : c ≠ .main) (hi : i.val < m₁.routines.size) {place : Place}
    (hplace : ∀ r, place = .registry r → R r) (p : Parcel V) :
    m.Passes R i (m₁.resumeOn i place c p) := by
  have hframe : ∀ r, (.registered place c : Frame P V σ).usedRegistry = some r → R r := by
    intro r hr
    cases place with
    | registry r' => exact hplace r (congrArg Place.registry (Option.some.inj hr))
    | context d => cases hr
  refine ((h.setRegistry place hplace _).pushFrame (.registered place c) hframe).resume hmain ?_ p
  rw [Machine.pushFrame, routine_update_self (by simpa using hi)]
  rfl

theorem yield (hmain : c ≠ .main) (p : Parcel V)
    (hown : c = i ∨ ∃ v next, (m₁.routine i).control = .running (.act (.yield c v) next)) :
    m.Passes R i (m₁.yield i c p) := by
  cases hc : m₁.status c with
  | running => exact .transfers h (.yields p hc hmain hown)
  | canceled => simpa [Machine.yield, hc] using (h.releaseParcel p).fail _
  | _ => simpa [Machine.yield, hc] using (h.releaseParcel p).fail _

theorem suspend {place : Place} (hplace : ∀ r, place = .registry r → R r) (p : Parcel V) :
    m.Passes R i (m₁.suspend i place p) := by
  unfold Machine.suspend
  split
  · exact (h.releaseParcel p).fail _
  · next hmain =>
    split
    · next c g heq =>
      obtain rfl : c = i := by
        have hfind : (m₁.registry place).items.find? (· == i) = some c := congrArg Prod.fst heq
        simpa using List.find?_some hfind
      exact (h.setRegistry place hplace _).yield hmain p (.inl rfl)
    · exact (h.releaseParcel p).fail _

theorem cancel (hmain : c ≠ .main) (hi : i.val < m₁.routines.size) (answer : V) :
    m.Passes R i (m₁.cancel i c answer) := by
  unfold Machine.cancel
  split
  · next hc =>
    have heq : (m₁.setStatus c .canceled).pushFrame i (.canceling answer) =
        (m₁.pushFrame i (.canceling answer)).setStatus c .canceled := by
      by_cases hic : i = c
      · subst hic
        simp only [setStatus, Machine.pushFrame, update_update]
      · exact (update_comm hic _ _).symm
    have hself : (m₁.pushFrame i (.canceling answer)).routine i =
        { m₁.routine i with stack := .canceling answer :: (m₁.routine i).stack } :=
      routine_update_self hi _
    have hstatus : (m₁.pushFrame i (.canceling answer)).status c = .suspending := by
      rw [status, Machine.pushFrame, routine_update_ite hi]
      split
      · next hci => exact hci ▸ hc
      · exact hc
    rw [heq]
    exact .transfers (h.pushFrame (.canceling answer) (fun _ hr => by cases hr))
      (.cancels hstatus hmain (by rw [hself]; rfl))
  · exact h.fail _

theorem dispose (hmain : c ≠ .main) (answer : V) : m.Passes R i (m₁.dispose i c answer) := by
  unfold Machine.dispose
  split
  · exact h.fail _
  · split
    · next m₂ heq =>
      obtain ⟨r, hin⟩ : ∃ r, (m₁.routine c).inbox = .awaited r := by
        unfold close at heq
        split at heq
        · next r hr => exact ⟨r, hr⟩
        · cases heq
      obtain rfl : (m₁.close c).2 = m₂ := congrArg Prod.snd heq
      by_cases hended : ((m₁.close c).2.routine c).control = .ended
      · have hjoin : (m₁.close c).2.join i c answer =
            (m₁.close c).2.reply i (.value (.plain answer)) := by
          unfold join
          rw [hended]
        rw [hjoin]
        exact (h.closes c).reply _
      · exact .transfers h (.disposes answer hin hmain hended)
    · next m₂ heq =>
      obtain rfl : (m₁.close c).2 = m₂ := congrArg Prod.snd heq
      exact (h.closes c).reply _

/-- The size of a machine and what routine `i` is doing are as they were. -/
theorem own_eq (ht : m.Tidy) (hi : (m.routine i).control.isActive = true) :
    m₁.Tidy ∧ (m₁.routine i).control = (m.routine i).control ∧
      m.routines.size ≤ m₁.routines.size := by
  have hlt := lt_of_isActive hi
  induction h with
  | refl => exact ⟨ht, rfl, le_rfl⟩
  | inward _ hq _ ih =>
    obtain ⟨ht₁, hc, hsize⟩ := ih
    exact ⟨ht₁.inward (hc ▸ hi) hq, (hq.control i).trans hc, hsize.trans hq.size.ge⟩
  | @grows m₁ _ x hx ih =>
    obtain ⟨ht₁, hc, hsize⟩ := ih
    refine ⟨ht₁.grow (by omega) hx, ?_, hsize.trans ?_⟩
    · rw [routine_grow_of_lt (by omega), hc]
    · simp [grow]
  | @closes m₁ _ c ih =>
    obtain ⟨ht₁, hc, hsize⟩ := ih
    refine ⟨ht₁.close c, ?_, hsize.trans ?_⟩
    · by_cases hin : ∀ r, (m₁.routine c).inbox ≠ .awaited r
      · rw [close_eq ht₁ hin, hc]
      · obtain ⟨r, hin⟩ : ∃ r, (m₁.routine c).inbox = .awaited r := by simpa using hin
        have hri := ht₁.ne_reader (hc ▸ hi) hin
        rw [routine_close ht₁ hin]
        simp only [closed, if_neg hri.symm, hc]
    · rw [size_close]

/-- Nobody begins to listen. -/
theorem listening (ht : m.Tidy) (hi : (m.routine i).control.isActive = true) {d : RoutineId}
    (hj : (m₁.routine j).control = .listening d) : (m.routine j).control = .listening d := by
  induction h with
  | refl => exact hj
  | inward _ hq _ ih => exact ih (hq.control j ▸ hj)
  | grows _ hx ih =>
    rw [routine_grow] at hj
    split at hj
    · rcases hx with rfl | ⟨config, start, scope, rfl⟩ <;> cases hj
    · exact ih hj
  | @closes m₁ ha c ih =>
    have ht₁ := (ha.own_eq ht hi).1
    by_cases hin : ∀ r, (m₁.routine c).inbox ≠ .awaited r
    · rw [close_eq ht₁ hin] at hj
      exact ih hj
    · obtain ⟨r, hin⟩ : ∃ r, (m₁.routine c).inbox = .awaited r := by simpa using hin
      rw [routine_close ht₁ hin] at hj
      simp only [closed] at hj
      split at hj
      · exact absurd hj (take_ne _ _ d).1
      · exact ih hj

/-- The stacks of the others stay as they are. -/
theorem stack (hj : j ≠ i) :
    (m₁.routine j).stack = (m.routine j).stack := by
  induction h with
  | refl => rfl
  | inward _ hq _ ih => exact (hq.stack j hj).trans ih
  | @grows m₁ _ x hx ih =>
    rw [routine_grow]
    split
    · next hnext =>
      rw [← ih, hnext, routine_next]
      rcases hx with rfl | ⟨config, start, scope, rfl⟩ <;> rfl
    · exact ih
  | @closes m₁ ha c ih =>
    rw [stack_close]
    exact ih

/-- Registries that may not change stay as they are. -/
theorem spares (ht : m.Tidy) (hi : (m.routine i).control.isActive = true) : Spares R i m m₁ := by
  induction h with
  | refl => exact ⟨fun _ _ => rfl, fun _ _ _ => id⟩
  | inward _ _ hs ih =>
    exact ⟨fun r hr => (hs.registry r hr).trans (ih.registry r hr),
      fun r c hr => ih.frames r c hr ∘ hs.frames r c hr⟩
  | @grows m₁ ha x hx ih =>
    have hsize := (ha.own_eq ht hi).2.2
    have hlt := lt_of_isActive hi
    refine ⟨ih.registry, fun r c hr hmem => ih.frames r c hr ?_⟩
    rwa [routine_grow_of_lt (by omega)] at hmem
  | @closes m₁ ha c ih =>
    refine ⟨fun r hr => ?_, fun r d hr hmem => ih.frames r d hr ?_⟩
    · rw [registry, registries_close]
      exact ih.registry r hr
    · rwa [stack_close] at hmem

end Arranges

/-! ## The operations of a step -/

namespace Arranges

variable (h : Arranges R i m m₁) (ht : m.Tidy) (hi : (m.routine i).control.isActive = true)
include h ht hi

theorem lt : i.val < m₁.routines.size := by
  obtain ⟨-, hc, -⟩ := h.own_eq ht hi
  exact lt_of_isActive (hc ▸ hi)

/-- A routine with a scope is not the main line. -/
theorem ne_main {scope : Scope P} (hs : (m₁.routine s).scope = some scope) : s ≠ .main := by
  rintro rfl
  have hnone := (h.own_eq ht hi).1.main.1
  rw [hs] at hnone
  cases hnone

theorem enterScope (s : RoutineId) (b : Boxed V) : m.Passes R i (m₁.enterScope i s b) := by
  unfold Machine.enterScope
  split
  · next scope hscope =>
    have harranged := ((h.pushFrame (.holding s) (fun _ hr => by cases hr)).enter scope.ctx.config).pushFrame
      (.dispatch s) (fun _ hr => by cases hr)
    have hlt := harranged.lt ht hi
    dsimp only
    exact harranged.resumeOn (h.ne_main ht hi hscope) hlt (ofContext scope.ctx) _
  · exact h.fail _

theorem openScope (scope : Scope P) (start : Start P V) :
    m.Passes R i (m₁.openScope i scope start) :=
  ((h.spawn scope.ctx.config start (some scope)).hold _).enterScope ht hi _ _

theorem continueWith (k : Cont) (b : Boxed V) : m.Passes R i (m₁.continueWith i k b) := by
  cases k with
  | direct s => exact h.enterScope ht hi s b
  | through s inner =>
    simp only [Machine.continueWith]
    split
    · next scope hscope =>
      exact ((h.hold s).pushFrame (.holding s) (fun _ hr => by cases hr)).openScope ht hi
        (scope.rejoining s) (.rejoin inner b)
    · exact h.fail _

theorem onContext (scope : Scope P) (body : P) : m.Passes R i (m₁.onContext i scope body) := by
  unfold Machine.onContext
  split
  · exact h.openScope ht hi _ _
  · exact h.fail _

omit ht hi in
theorem callOwning (k : Cont) (c : ContId → Code P V σ V) :
    m.Passes R i (m₁.callOwning i k c) := by
  have hkeep : Arranges R i m (m₁.keepCont k).2 := h.routines rfl fun _ _ => rfl
  exact (hkeep.pushFrame (.owning (m₁.keepCont k).1) (fun _ hr => by cases hr)).run _

omit ht hi in
theorem claim (scope : Scope P) (e : Effect) (b : Boxed V) (k : Cont) :
    m.Passes R i (m₁.claim code i scope e b k) := by
  unfold Machine.claim
  split
  · exact h.callOwning k _
  · exact h.callOwning k _
  · exact (h.release k).fail _
  · exact (h.pushFrame (.forwarding e) (fun _ hr => by cases hr)).suspend (ofContext scope.ctx) _

theorem conclude (hs : (m₁.routine s).scope.isSome) (scope : Scope P) (b : Boxed V) :
    m.Passes R i (m₁.conclude code i s scope b) := by
  unfold Machine.conclude
  split
  · exact h.reply _
  · exact h.run _
  · exact (h.setScope (by rw [hs]; rfl)).enterScope ht hi _ _
  · exact h.fail _
  · exact h.fail _

theorem dispatch (s : RoutineId) (signal : Signal V) :
    m.Passes R i (m₁.dispatch code i s signal) := by
  unfold Machine.dispatch
  split
  · exact (h.hold s).claim _ _ _ _
  · exact (h.hold s).claim _ _ _ _
  · next hscope => exact h.conclude ht hi (by rw [hscope]; rfl) _ _
  · exact h.fail _

omit ht hi in
theorem onCoroutine {f : Machine P V σ → Machine P V σ}
    (hop : c ≠ .main → m.Passes R i (f m₁)) : m.Passes R i (m₁.onCoroutine i c f) := by
  unfold Machine.onCoroutine
  split
  · next hc =>
    simp only [isCoroutine, Bool.and_eq_true, bne_iff_ne] at hc
    exact hop hc.1
  · exact h.fail _

/-- A step ends with the beginning of an operation. -/
theorem begin {a : Act P V} (ha : ∀ r, a.usedRegistry = some r → R r)
    {next : Outcome V V → Code P V σ V}
    (hc : (m₁.routine i).control = .running (.act a next))
    (hst : (m₁.routine i).isCanceling = false) : m.Passes R i (m₁.begin code i a) := by
  have hlt := h.lt ht hi
  cases a with
  | call p entry => exact h.run _
  | resume c v =>
    exact h.onCoroutine (f := (·.resume i c (.plain v))) fun hmain => h.resume hmain hst _
  | resumeOn r c v =>
    exact h.onCoroutine (f := (·.resumeOn i (.registry r) c (.plain v))) fun hmain =>
      h.resumeOn hmain hlt (fun r' heq => ha r' (congrArg some (Place.registry.inj heq))) _
  | cancel c answer =>
    exact h.onCoroutine (f := (·.cancel i c answer)) fun hmain => h.cancel hmain hlt answer
  | dispose c answer =>
    exact h.onCoroutine (f := (·.dispose i c answer)) fun hmain => h.dispose hmain answer
  | yield c v =>
    exact h.onCoroutine (f := (·.yield i c (.plain v))) fun hmain =>
      h.yield hmain _ (.inr ⟨v, next, hc⟩)
  | suspend r v =>
    unfold Machine.begin
    dsimp only
    split
    · exact h.suspend (fun r' heq => ha r' (congrArg some (Place.registry.inj heq))) _
    · exact h.fail _
  | perform ctx e v => exact (h.pushFrame .performing (fun _ hr => by cases hr)).suspend (ofContext ctx) _
  | raise ctx cause => exact (h.pushFrame .performing (fun _ hr => by cases hr)).suspend (ofContext ctx) _
  | handle ctx hd body => exact h.onContext ht hi _ _
  | tryWith ctx arms body => exact h.onContext ht hi _ _
  | continueWith k v =>
    have htake := h.takeCont k
    unfold Machine.begin
    dsimp only
    split
    · next c m₂ heq =>
      rw [heq] at htake
      exact htake.continueWith ht hi _ _
    · next m₂ heq =>
      rw [heq] at htake
      exact htake.fail _

omit ht hi in
/-- A step ends with the answer to a question. -/
theorem ask (q : Query P) (hq : ∀ r, q.usedRegistry = some r → R r)
    (c : q.Reply → Code P V σ V) :
    m.Passes R i ((m₁.answer i q).2.setControl i (.running (c (m₁.answer i q).1))) := by
  have hsame : ∀ (m₂ : Machine P V σ) (_ : m₂.routines = m₁.routines)
      (_ : m₂.registries = m₁.registries) (d : Code P V σ V),
      m.Passes R i (m₂.setControl i (.running d)) := fun m₂ hm₂ hreg d =>
    (h.routines hm₂ fun r _ => by rw [registry, registry, hreg]).run d
  cases q with
  | spawn config body => exact (h.spawn config (.body body) none).run _
  | skip => exact (h.grows (x := .absent) (.inl rfl)).run _
  | status c => exact h.run _
  | busy c => exact h.run _
  | abandon d =>
    unfold answer
    dsimp only
    split
    · exact (h.closes d).run _
    · exact h.run _
  | openRegistry =>
    have hopen : Arranges R i m (m₁.answer i .openRegistry).2 :=
      h.routines rfl fun r _ => registry_push_empty m₁ r
    exact hopen.run _
  | registered r => exact h.run _
  | register r op =>
    have hset := h.setRegistry (.registry r) (fun r' heq => hq r' (congrArg some (Place.registry.inj heq)))
      ((m₁.registry (.registry r)).apply op).2
    exact hset.run _
  | openContext config => exact hsame (m₁.answer i (.openContext config)).2 rfl rfl _
  | pending ctx => exact h.run _
  | holds k => exact h.run _
  | keep k =>
    have htake : (m₁.takeCont k).2.routines = m₁.routines ∧
        (m₁.takeCont k).2.registries = m₁.registries := ⟨rfl, rfl⟩
    have hkept : (m₁.answer i (.keep k)).2.routines = m₁.routines ∧
        (m₁.answer i (.keep k)).2.registries = m₁.registries := by
      unfold answer
      dsimp only
      split <;> (next heq => rw [heq] at htake; exact htake)
    exact hsame _ hkept.1 hkept.2 _
  | discard k => exact (h.releaseAt k).run _
  | thread => exact h.run _
  | declare => exact hsame (m₁.answer i .declare).2 rfl rfl _

/-- A step gives an outcome to a frame that was taken off the stack. -/
theorem unwind (o : Outcome V (Parcel V)) (f : Frame P V σ)
    (hf : ∀ r, f.usedRegistry = some r → R r) :
    m.Passes R i (m₁.unwind code i o f) := by
  cases f with
  | next k => exact h.run _
  | registered p c => exact (h.setRegistry p (fun r heq => hf r (by rw [heq]; rfl)) _).reply o
  | nested d t =>
    have hown : Arranges R i m (m₁.update i fun r => { r with depth := d, thread := t }) :=
      h.own (fun _ => ⟨_, _, _, rfl⟩) fun _ _ _ => id
    exact hown.reply o
  | holding s => exact (h.letGo s).reply o
  | owning k => exact (h.releaseAt k).reply o
  | dispatch s =>
    unfold Machine.unwind
    dsimp only
    split
    · exact h.dispatch ht hi _ _
    · exact h.fail _
    · exact h.reply _
  | performing =>
    unfold Machine.unwind
    dsimp only
    split
    · exact h.reply _
    · exact h.fail _
    · exact h.reply _
  | forwarding e =>
    unfold Machine.unwind
    dsimp only
    split
    · exact h.reply _
    · exact h.fail _
    · exact h.fail _
    · exact h.reply _
  | canceling a =>
    unfold Machine.unwind
    dsimp only
    split
    · exact (h.releaseParcel _).reply _
    · exact h.reply _
    · exact h.reply _
  | handledBody =>
    unfold Machine.unwind
    dsimp only
    split
    · exact h.reply _
    · exact h.fail _
    · exact h.reply _
  | rejoining =>
    unfold Machine.unwind
    dsimp only
    split
    · exact h.reply _
    · exact h.fail _
    · exact h.reply _

end Arranges

/-- What a step of a routine that can go on is. -/
theorem Tidy.stepOf (ht : m.Tidy) (hi : (m.routine i).control.isActive = true)
    (hR : ∀ r, m.usedRegistry i = some r → R r) : m.Passes R i (m.stepOf code i) := by
  have h : Arranges R i m m := .refl
  have hlt := lt_of_isActive hi
  unfold Machine.stepOf
  split
  · next s p hc =>
    unfold Machine.start
    split
    · exact h.run _
    · exact h.fail _
    · exact (h.pushFrame .handledBody (fun _ hr => by cases hr)).run _
    · exact (h.pushFrame .rejoining (fun _ hr => by cases hr)).continueWith ht hi _ _
  · next c hc =>
    unfold Machine.exec
    split
    · exact h.reply _
    · exact h.fail _
    · exact h.reply _
    · next a next =>
      have hself : (m.pushFrame i (.next next)).routine i =
          { m.routine i with stack := .next next :: (m.routine i).stack } :=
        routine_update_self hlt _
      refine (h.pushFrame (.next next) (fun _ hr => by cases hr)).begin ht hi (fun r hr => hR r ?_)
        (by rw [hself]; exact hc) (by rw [hself]; rfl)
      rw [usedRegistry, hc]
      exact hr
    · exact h.ask _ (fun r hr => hR r (by rw [usedRegistry, hc]; exact hr)) _
    · next change next =>
      have hstored : Arranges R i m { m with store := change m.store } := h.routines rfl fun _ _ => rfl
      exact hstored.run _
  · next o hc =>
    split
    · next hst => exact .ends hc hst
    · next f st hst =>
      have hpop : Arranges R i m (m.update i fun r => { r with stack := st }) := by
        refine h.own (fun _ => ⟨_, _, _, rfl⟩) fun r c _ hmem => ?_
        rw [hst]
        exact List.mem_cons_of_mem _ hmem
      refine hpop.unwind ht hi o f fun r hr => hR r ?_
      rw [usedRegistry, hc, hst]
      exact hr
  · next hne₁ hne₂ hne₃ =>
    cases hc : (m.routine i).control with
    | starting s p => exact absurd hc (hne₁ s p)
    | running c => exact absurd hc (hne₂ c)
    | returning o => exact absurd hc (hne₃ o)
    | _ => rw [hc] at hi; cases hi

@[simp] theorem status_pushFrame (f : Frame P V σ) :
    (m.pushFrame i f).status c = m.status c := by
  rw [status, pushFrame, routine_update]
  split <;> rfl

@[simp] theorem control_pushFrame (f : Frame P V σ) :
    ((m.pushFrame i f).routine c).control = (m.routine c).control := by
  rw [pushFrame, routine_update]
  split <;> rfl

@[simp] theorem inbox_pushFrame (f : Frame P V σ) :
    ((m.pushFrame i f).routine c).inbox = (m.routine c).inbox := by
  rw [pushFrame, routine_update]
  split <;> rfl

@[simp] theorem outbox_pushFrame (f : Frame P V σ) :
    ((m.pushFrame i f).routine c).outbox = (m.routine c).outbox := by
  rw [pushFrame, routine_update]
  split <;> rfl

@[simp] theorem isBusy_pushFrame (f : Frame P V σ) : (m.pushFrame i f).isBusy c = m.isBusy c := by
  rw [isBusy, outbox_pushFrame, isBusy]

@[simp] theorem isCoroutine_pushFrame (f : Frame P V σ) :
    (m.pushFrame i f).isCoroutine c = m.isCoroutine c := by
  unfold isCoroutine
  rw [pushFrame, routine_update]
  split <;> rfl

/-! ## Machines stay tidy -/

theorem registries_sendInput (m : Machine P V σ) (c : RoutineId) (x : Input V) :
    (m.sendInput c x).registries = m.registries := by
  unfold sendInput
  split
  · rw [deliver_eq]
    rfl
  all_goals rfl

theorem registries_hear (m : Machine P V σ) (i c : RoutineId) (o : Outcome V (Parcel V)) :
    (m.hear i c o).registries = m.registries := by
  unfold hear
  split <;> rfl

theorem registries_sendOutput (m : Machine P V σ) (c : RoutineId) (o : Outcome V (Parcel V)) :
    (m.sendOutput c o).registries = m.registries := by
  unfold sendOutput
  split
  · exact registries_hear ..
  all_goals rfl

theorem registries_listen (m : Machine P V σ) (i c : RoutineId) :
    (m.listen i c).registries = m.registries := by
  unfold listen
  split
  · exact registries_hear ..
  all_goals rfl

theorem registries_read (m : Machine P V σ) (i c : RoutineId) :
    (m.read i c).registries = m.registries := by
  unfold read
  split
  · rw [deliver_eq]
    rfl
  all_goals rfl

theorem registries_finish (m : Machine P V σ) (i : RoutineId) (o : Outcome V (Parcel V)) :
    (m.finish i o).registries = m.registries := by
  have hjoin : ∀ (is : List RoutineId) (m : Machine P V σ),
      (is.foldl wakeJoiner m).registries = m.registries := by
    intro is
    induction is with
    | nil => exact fun _ => rfl
    | cons i is ih =>
      intro m
      rw [List.foldl_cons, ih]
      unfold wakeJoiner
      split <;> rfl
  rw [finish_eq, hjoin, registries_sendOutput]
  rfl

/-- Who passes control changes no registry. -/
theorem Transfers.registries (h : m.Transfers i m') : m'.registries = m.registries := by
  cases h with
  | goes hd => rfl
  | resumes p hc hmain hst =>
    exact (registries_listen ..).trans (registries_sendInput ..)
  | cancels hc hmain hst => exact (registries_listen ..).trans (registries_sendInput ..)
  | disposes answer hin hmain hc =>
    unfold join
    split <;> exact registries_close m _
  | yields p hc hmain hown =>
    unfold Machine.yield
    rw [hc]
    exact (registries_read ..).trans (registries_sendOutput ..)

/-- Who passes control changes no stack. -/
theorem Transfers.stack (h : m.Transfers i m') (ht : m.Tidy)
    (hi : (m.routine i).control.isActive = true) (j : RoutineId) :
    (m'.routine j).stack = (m.routine j).stack := by
  cases h with
  | goes hd =>
    rw [setControl, routine_update]
    split <;> rfl
  | resumes p hc hmain hst =>
    obtain ⟨r, hin⟩ := ht.exists_reader hc
    rw [routine_handOver ht hi hc hin]
    rfl
  | @cancels c hc hmain hst =>
    have hres : (m.status c).isResumable = true := by rw [hc]; rfl
    obtain ⟨r, hin⟩ := ht.exists_reader hres
    rw [routine_handOver ht hi hres hin]
    rfl
  | @disposes c r answer hin hmain hc =>
    rw [routine_join (ht.isActive_close hi hin) hc]
    exact stack_close m c j
  | yields p hc hmain hown =>
    obtain ⟨l, hout⟩ := ht.exists_listener hc hmain
    rw [routine_yield ht hi hc hout]
    rfl

/-- Nobody but routine `i` begins to listen. -/
theorem Transfers.listening (h : m.Transfers i m') (ht : m.Tidy)
    (hi : (m.routine i).control.isActive = true) (hji : j ≠ i) {d : RoutineId}
    (hj : (m'.routine j).control = .listening d) : (m.routine j).control = .listening d := by
  have hover : ∀ {c : RoutineId} {s : Status} {x : Input V}, (m.status c).isResumable = true →
      ((m.handOver i c s x).routine j).control = .listening d →
        (m.routine j).control = .listening d := by
    intro c s x hc hj
    obtain ⟨r, hin⟩ := ht.exists_reader hc
    rw [routine_handOver ht hi hc hin] at hj
    simp only [handedOver, if_neg hji] at hj
    split at hj
    · exact absurd hj (take_ne _ _ d).1
    · exact hj
  cases h with
  | goes hd =>
    rw [setControl, routine_update] at hj
    split at hj
    · next heq => exact absurd heq.1.symm hji
    · exact hj
  | resumes p hc hmain hst => exact hover hc hj
  | cancels hc hmain hst => exact hover (by rw [hc]; rfl) hj
  | @disposes c r answer hin hmain hc =>
    rw [routine_join (ht.isActive_close hi hin) hc] at hj
    simp only [joined, if_neg hji, routine_close ht hin, closed] at hj
    split at hj
    · exact absurd hj (take_ne _ _ d).1
    · exact hj
  | yields p hc hmain hown =>
    obtain ⟨l, hout⟩ := ht.exists_listener hc hmain
    rw [routine_yield ht hi hc hout] at hj
    simp only [handedOut, if_neg hji] at hj
    split at hj
    · cases hj
    · exact hj

theorem Transfers.tidy (h : m.Transfers i m') (ht : m.Tidy)
    (hi : (m.routine i).control.isActive = true) : m'.Tidy := by
  cases h with
  | goes hd => exact ht.setControl hi hd
  | resumes p hc hmain hst => exact ht.handOver hi hc hmain (by rw [hst]; rfl)
  | cancels hc hmain hst =>
    exact ht.handOver hi (by rw [hc]; rfl) hmain (by rw [hst]; rfl)
  | @disposes c r answer hin hmain hc =>
    refine (ht.close c).join (ht.isActive_close hi hin) hc ?_ hmain answer
    rw [status, routine_close ht hin]
    simp [closed]
  | yields p hc hmain _ => exact ht.yield hi hc hmain p

theorem Passes.tidy (h : m.Passes R i m') (ht : m.Tidy)
    (hi : (m.routine i).control.isActive = true) : m'.Tidy := by
  cases h with
  | transfers ha htr =>
    obtain ⟨ht₁, hc, -⟩ := ha.own_eq ht hi
    exact htr.tidy ht₁ (hc ▸ hi)
  | ends hc hst => exact ht.finish hi _

/-- A step is a step of a routine that can go on, or takes one that cannot out of those that are
ready. -/
theorem Tidy.step_cases (ht : m.Tidy) (hs : m.step code = some m') :
    ∃ i ready, m.ready = i :: ready ∧ ((m.routine i).control.isActive = true ∧
      m.Passes (fun r => m.usedRegistry i = some r) i m' ∧ m' = m.stepOf code i ∨
        (m.routine i).control.isActive = false ∧ m' = m.pause i) := by
  obtain ⟨i, ready, hready, ⟨hi, rfl⟩ | hidle⟩ := exists_of_step hs
  · exact ⟨i, ready, hready, .inl ⟨hi, ht.stepOf hi fun _ => id, rfl⟩⟩
  · exact ⟨i, ready, hready, .inr hidle⟩

/-- Only what the routines show is concerned. -/
theorem Tidy.congr (ht : m.Tidy) (h : ∀ j, m'.routine j = m.routine j) : m'.Tidy := by
  constructor
  case slotted => exact fun c => h c ▸ ht.slotted c
  case listener => exact fun c j => by rw [h, h]; exact ht.listener c j
  case reader => exact fun c r => by rw [h, h]; exact ht.reader c r
  case joiner => exact fun c j => by rw [h, h]; exact ht.joiner c j
  case heard => exact fun c j => by rw [status, h, h]; exact ht.heard c j
  case main => exact ⟨by rw [h]; exact ht.main.1, fun j => by rw [h]; exact ht.main.2 j⟩

theorem Tidy.step (ht : m.Tidy) (hs : m.step code = some m') : m'.Tidy := by
  obtain ⟨i, -, -, ⟨hi, hp, -⟩ | ⟨-, rfl⟩⟩ := ht.step_cases hs
  · exact hp.tidy ht hi
  · exact ht.congr fun _ => rfl

theorem Tidy.passTurn (ht : m.Tidy) : m.passTurn.Tidy := ht.congr (routine_passTurn m)

/-- The machine is tidy before its first step. -/
theorem tidy_initial (store : σ) (c : Code P V σ V) : (initial store c).Tidy := by
  have hidle := routine_initial store c
  have hcontrol : ∀ j d : RoutineId,
      ((initial store c : Machine P V σ).routine j).control ≠ .listening d ∧
      ((initial store c : Machine P V σ).routine j).control ≠ .reading d ∧
      (∀ a, ((initial store c : Machine P V σ).routine j).control ≠ .joining d a) ∧
      ((initial store c : Machine P V σ).routine j).control.isFresh = false := by
    intro j d
    rcases hidle j with ⟨h, -⟩ | h <;> rw [h] <;> simp [Routine.main, Routine.absent, isFresh]
  constructor
  case slotted =>
    intro d
    rcases hidle d with ⟨h, rfl⟩ | h <;> rw [h] <;> constructor <;>
      simp [Routine.main, Routine.absent, Status.isResumable, Control.isFresh]
  case listener =>
    intro d j
    refine iff_of_false ?_ (hcontrol j d).1
    rcases hidle d with ⟨h, -⟩ | h <;> rw [h] <;> simp [Routine.main, Routine.absent]
  case reader =>
    intro d r
    refine iff_of_false ?_ ?_
    · rcases hidle d with ⟨h, -⟩ | h <;> rw [h] <;> simp [Routine.main, Routine.absent]
    · rintro (h | ⟨-, h⟩)
      · exact (hcontrol r d).2.1 h
      · rw [(hcontrol d d).2.2.2] at h
        cases h
  case joiner =>
    intro d j
    refine iff_of_false ?_ fun hj => hj.elim (hcontrol j d).2.2.1
    rcases hidle d with ⟨h, -⟩ | h <;> rw [h] <;> simp [Routine.main, Routine.absent]
  case heard => exact fun d j h => absurd h (hcontrol j d).1
  case main =>
    exact ⟨rfl, fun j => ⟨(hcontrol j _).1, (hcontrol j _).2.1, (hcontrol j _).2.2.1⟩⟩

end Machine

end OneShot
