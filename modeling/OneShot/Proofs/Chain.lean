import Mathlib.Data.Fintype.EquivFin
import OneShot.Proofs.Lifecycle

/-!
# The scopes around a routine

A handled body is resumed by a routine that listens to it, and this routine may be a handled body
itself. So around a routine there is a chain of scopes: its own, that of the routine which resumes
it, and so on, as long as they are on one context. An effect that the routine performs on that context
goes along this chain.

`Linked.exists_chain` says that the chain ends, `Sound.mem_registry_iff` that the registry of the
context tells whether it goes on, and `Follows.chain` that a step leaves the chains of the other
routines alone.
-/

namespace OneShot

variable {P V σ : Type}

namespace Machine

open Control

variable {code : P → Entry V → Code P V σ V} {m m' : Machine P V σ} {i j s x : RoutineId}
  {c : ContextId} {l : List RoutineId} {hand : List Key} {loose due : List RoutineId}

/-- Routine `j` resumes the handled body `s`, whose scope is on context `c`. -/
def Resumes (m : Machine P V σ) (c : ContextId) (j s : RoutineId) : Prop :=
  (∃ scope, (m.routine s).scope = some scope ∧ scope.ctx.id = c) ∧ (m.routine s).outbox = .awaited j

/-- The scopes on context `c` around routine `i`, the innermost first. A scope is named by its body:
the chain goes on from a body to the routine that resumes it, and stops at a routine that is not a
handled body which is resumed on the context. -/
inductive Chain (m : Machine P V σ) (c : ContextId) : RoutineId → List RoutineId → Prop where
  | stop {i : RoutineId} (h : ∀ j, ¬ m.Resumes c j i) : Chain m c i []
  | scope {i j : RoutineId} {l : List RoutineId} (h : m.Resumes c j i) (rest : Chain m c j l) :
    Chain m c i (i :: l)

/-- Who resumes a body listens to it. -/
theorem Resumes.listening (h : m.Resumes c j s) {w : Option RoutineId} (hl : m.Linked w) :
    (m.routine j).control = .listening s :=
  hl.outbox s j h.2

/-- A body that is resumed runs. -/
theorem Resumes.running (h : m.Resumes c j s) {w : Option RoutineId} (hl : m.Linked w) :
    (m.routine s).status = .running := by
  obtain ⟨⟨scope, hscope, -⟩, hout⟩ := h
  exact (hl.phase s (by rw [hscope]; rfl)).running_of_awaited (by rw [hout]; rfl)

/-! ## The chain ends -/

/-- Who listens, listens to one routine only. So if everyone of a kind is listened to by someone of that kind,
all of them listen. -/
theorem exists_listening {Q : RoutineId → Prop}
    (hQ : ∀ x, Q x → ∃ y, Q y ∧ (m.routine y).control = .listening x) (hi : Q i) :
    ∃ s, (m.routine i).control = .listening s := by
  by_contra hnone
  -- Without a first listener, the line of those who listen would go on for ever.
  have hnext : ∀ x : {x // Q x}, ∃ y : {x // Q x}, (m.routine y.1).control = .listening x.1 := by
    rintro ⟨x, hx⟩
    obtain ⟨y, hy, hlistens⟩ := hQ x hx
    exact ⟨⟨y, hy⟩, hlistens⟩
  choose next hlistens using hnext
  let walk : Nat → {x // Q x} := fun n => next^[n] ⟨i, hi⟩
  have hwalk : ∀ n, (m.routine (walk (n + 1)).1).control = .listening (walk n).1 := by
    intro n
    show (m.routine (next^[n + 1] ⟨i, hi⟩).1).control = _
    rw [Function.iterate_succ_apply']
    exact hlistens _
  have hinj : ∀ a b, (walk a).1 = (walk b).1 → a = b := by
    intro a
    induction a with
    | zero =>
      intro b hab
      cases b with
      | zero => rfl
      | succ b =>
        have hb := hwalk b
        rw [← hab] at hb
        exact absurd ⟨_, hb⟩ hnone
    | succ a ih =>
      intro b hab
      have ha := hwalk a
      cases b with
      | zero =>
        rw [hab] at ha
        exact absurd ⟨_, ha⟩ hnone
      | succ b =>
        rw [hab, hwalk b] at ha
        rw [ih b (Control.listening.inj ha).symm]
  have hlt : ∀ n, (walk (n + 1)).1.val < m.routines.size := fun n =>
    lt_of_ne_ended fun hc => by cases (hwalk n).symm.trans hc
  refine not_injective_infinite_finite
    (fun n => (⟨(walk (n + 1)).1.val, hlt n⟩ : Fin m.routines.size)) fun a b hab => ?_
  have hval : (walk (a + 1)).1 = (walk (b + 1)).1 := congrArg RoutineId.mk (congrArg Fin.val hab)
  have hsucc := hinj _ _ hval
  omega

/-- Around a routine that does not listen itself there is a chain of scopes. -/
theorem Linked.exists_chain {w : Option RoutineId} (h : m.Linked w)
    (hi : ∀ s, (m.routine i).control ≠ .listening s) (c : ContextId) : ∃ l, m.Chain c i l := by
  by_contra hnone
  have hnext : ∀ x, (¬ ∃ l, m.Chain c x l) →
      ∃ y, (¬ ∃ l, m.Chain c y l) ∧ (m.routine y).control = .listening x := by
    intro x hx
    by_contra hno
    refine hx ⟨[], .stop fun j hj => hno ⟨j, ?_, hj.listening h⟩⟩
    rintro ⟨l, hl⟩
    exact hx ⟨x :: l, .scope hj hl⟩
  obtain ⟨s, hs⟩ := exists_listening hnext hnone
  exact hi s hs

/-! ## The chain and the registry -/

/-- The registry of a context has an entry for the routine at work if somebody resumes it there. -/
theorem AtWork.mem_registry (h : m.AtWork i hand loose due) (hr : m.Resumes c j i) :
    i ∈ (m.registry (.context c)).items := by
  have hlistening := hr.listening h.linked
  obtain ⟨⟨scope, hscope, rfl⟩, -⟩ := hr
  obtain ⟨-, st, hst, -⟩ := h.linked.takesSignals hscope hlistening
  have hne : i ≠ j := by
    rintro rfl
    exact Control.ne_listening_of_isActive h.active i hlistening
  have hj : j.val < m.routines.size := lt_of_ne_ended (by rw [hlistening]; simp)
  -- Its listener waits with the entry.
  have hone : (m.known (some i) j).entries scope.ctx.id i = 1 := by
    rw [known_of_ne (by simpa using hne)]
    simp [Routine.entries, hst, Context.place, hlistening, hasEntry]
  have hle := le_sumTo (fun l => (m.known (some i) l).entries scope.ctx.id i) hj
  have hcount := h.counted.entries scope.ctx.id i
  unfold entries at hcount
  apply List.count_pos_iff.1
  rw [hcount]
  omega

/-- Whether there is an entry for a routine in the registry of a context tells whether the chain of
scopes goes on there. -/
theorem Sound.mem_registry_iff (h : m.Sound) (hi : (m.routine i).control.isActive = true)
    (hentries : ∀ c s, (m.routine i).entries c s = 0) :
    i ∈ (m.registry (.context c)).items ↔ ∃ j, m.Resumes c j i := by
  have hwork := h.startWork hi hentries
  constructor
  · intro hmem
    have hlistened := @AtWork.listened _ _ _ _ _ _ _ _ hwork ⟨c, .standard⟩ hmem
    obtain ⟨scope, j, hscope, hplace, -, -, hout, -⟩ := hlistened
    exact ⟨j, ⟨scope, hscope, (Place.context.inj hplace).symm⟩, hout⟩
  · rintro ⟨j, hj⟩
    exact hwork.mem_registry hj

/-! ## Steps of other routines -/

/-- Who resumes a body is not changed by the step of another routine, unless the body waits to be
resumed. -/
theorem Follows.resumes_iff (hf : m.Follows i m') (h : m.Sound) (hx : x ≠ i)
    (hlt : x.val < m.routines.size) (hcontrol : (m.routine x).control ≠ .reading x) :
    m'.Resumes c j x ↔ m.Resumes c j x := by
  have habides := hf.influences.abides x hx hlt
  have hscope : (∃ scope, (m'.routine x).scope = some scope ∧ scope.ctx.id = c) ↔
      ∃ scope, (m.routine x).scope = some scope ∧ scope.ctx.id = c := by
    constructor
    · rintro ⟨scope', hscope', hid⟩
      cases hscope : (m.routine x).scope with
      | none => cases (habides.eq_none hscope).symm.trans hscope'
      | some scope => exact ⟨scope, rfl, (habides.ages _ _ hscope hscope').ctx ▸ hid⟩
    · rintro ⟨scope, hscope, hid⟩
      obtain ⟨scope', hscope', hages⟩ := habides.exists_scope hscope
      exact ⟨scope', hscope', hages.ctx ▸ hid⟩
  unfold Resumes
  rw [hscope]
  apply and_congr_right
  rintro ⟨scope, hs, -⟩
  have hsome : (m.routine x).scope.isSome := by rw [hs]; rfl
  have hslots : (m'.routine x).slots = (m.routine x).slots := by
    have hnot : (m.routine x).status ≠ .suspending := fun hst =>
      hcontrol ((h.linked.phase x hsome).suspending hst).2.2.1
    cases hf.influences.touches x hx hlt with
    | rests hrests =>
      cases hrests with
      | spared hslots _ => exact hslots
      | closed _ hstatus => exact absurd hstatus hnot
    | resumed b _ _ hstatus => exact absurd hstatus hnot
    | told o _ _ hslots _ => exact hslots
    | eased hslots _ => exact hslots hsome
  rw [show (m'.routine x).outbox = (m.routine x).outbox from congrArg (fun r => r.2.2) hslots]

/-- A step leaves the chain of a routine alone that goes on or listens, and does not make the step. -/
theorem Follows.chain (hf : m.Follows i m') (h : m.Sound)
    (hi : (m.routine i).control.isActive = true) (hc : m.Chain c x l) (hx : x ≠ i)
    (hlt : x.val < m.routines.size) (hcontrol : (m.routine x).control ≠ .reading x) :
    m'.Chain c x l := by
  induction hc with
  | stop hstop =>
    refine .stop fun j hj => hstop j ?_
    exact (hf.resumes_iff h hx hlt hcontrol).1 hj
  | @scope x j l hr rest ih =>
    have hlistening := hr.listening h.linked
    refine .scope ((hf.resumes_iff h hx hlt hcontrol).2 hr) (ih ?_ ?_ ?_)
    · rintro rfl
      exact Control.ne_listening_of_isActive hi x hlistening
    · exact lt_of_ne_ended (by rw [hlistening]; simp)
    · rw [hlistening]
      simp

/-- A step that leaves the slots of its routine alone leaves the chain of the routine alone. -/
theorem Follows.chain_self (hf : m.Follows i m') (h : m.Sound)
    (hi : (m.routine i).control.isActive = true)
    (hslots : (m'.routine i).slots = (m.routine i).slots) (hc : m.Chain c i l) :
    m'.Chain c i l := by
  have hown := hf.influences.own
  have hout : (m'.routine i).outbox = (m.routine i).outbox := congrArg (fun r => r.2.2) hslots
  cases hc with
  | stop hstop =>
    refine .stop fun j hj => hstop j ?_
    obtain ⟨⟨scope', hscope', hid⟩, hj⟩ := hj
    refine ⟨?_, hout.symm.trans hj⟩
    cases hscope : (m.routine i).scope with
    | none => cases (hown.eq_none hscope).symm.trans hscope'
    | some scope => exact ⟨scope, rfl, (hown.ages _ _ hscope hscope').ctx ▸ hid⟩
  | @scope _ j l hr rest =>
    have hlistening := hr.listening h.linked
    obtain ⟨⟨scope, hscope, hid⟩, hj⟩ := hr
    obtain ⟨scope', hscope', hages⟩ := hown.exists_scope hscope
    refine .scope ⟨⟨scope', hscope', hages.ctx ▸ hid⟩, hout.trans hj⟩ (hf.chain h hi rest ?_ ?_ ?_)
    · rintro rfl
      exact Control.ne_listening_of_isActive hi j hlistening
    · exact lt_of_ne_ended (by rw [hlistening]; simp)
    · rw [hlistening]
      simp

end Machine

end OneShot
