import OneShot.Proofs.Accounts
import OneShot.Proofs.Concluding

/-!
# What a registered resume leaves behind

A registered resume adds an entry as the newest one, and withdraws the *oldest* entry of the same
coroutine when it comes back; a suspension takes the *newest* one. If no entry of the coroutine was
there before, both find the entry of the resume, and the registry is left as it was. Otherwise they
may find different ones: entries of others stay where they are, but those of the coroutine move, and
one is missing for every suspension.

`Registry.GivesBack.of_push` says this of registries, and `Reaches.givesBack` of the calls of a program.
-/

namespace OneShot

namespace Registry

variable {α : Type} [BEq α] [LawfulBEq α]

/-- The registry after the newest `x` was taken `k` times. -/
def without (g : Registry α) (x : α) (k : Nat) : Registry α := ⟨(List.erase · x)^[k] g.items⟩

omit [LawfulBEq α] in
theorem without_succ (g : Registry α) (x : α) (k : Nat) :
    g.without x (k + 1) = (⟨g.items.erase x⟩ : Registry α).without x k := rfl

theorem without_of_notMem {g : Registry α} {x : α} (h : x ∉ g.items) (k : Nat) :
    g.without x k = g := by
  induction k with
  | zero => rfl
  | succ k ih => rw [without_succ, List.erase_of_not_mem h]; exact ih

theorem without_push_succ (g : Registry α) (x : α) (k : Nat) :
    (g.push x).without x (k + 1) = g.without x k := by
  rw [without_succ, items_push, List.erase_cons_head]

/-- Taking items leaves those that differ from them where they are. -/
theorem filter_ne_without (g : Registry α) (x : α) (k : Nat) :
    (g.without x k).items.filter (· != x) = g.items.filter (· != x) := by
  induction k generalizing g with
  | zero => rfl
  | succ k ih => rw [without_succ, ih, filter_ne_erase]

theorem count_without (g : Registry α) (x : α) (k : Nat) :
    (g.without x k).items.count x = g.items.count x - k := by
  induction k generalizing g with
  | zero => rfl
  | succ k ih =>
    rw [without_succ, ih, List.count_erase_self]
    omega

theorem count_items_erase (g : Registry α) (x : α) :
    (g.erase x).items.count x = g.items.count x - 1 := by
  simp [erase]

/-- Without another `x`, the one that is withdrawn is the one that was added. -/
theorem erase_push_of_notMem {g : Registry α} {x : α} (h : x ∉ g.items) : (g.push x).erase x = g := by
  have hrev : x ∉ g.items.reverse := by simpa using h
  simp [erase, push, List.erase_append_right _ hrev]

/-- Otherwise an older one is withdrawn. -/
theorem erase_push_of_mem {g : Registry α} {x : α} (h : x ∈ g.items) :
    (g.push x).erase x = (g.erase x).push x := by
  have hrev : x ∈ g.items.reverse := by simpa using h
  simp [erase, push, List.erase_append_left _ hrev]

/-- What is left of registry `l` when an entry for `x` was added, the newest one was taken `k` times, and
the oldest one was withdrawn: registry `l'`. -/
structure GivesBack (l l' : Registry α) (x : α) (k : Nat) : Prop where
  /-- Without another entry for `x` the registry is given back as it was. -/
  exact : x ∉ l.items → l' = l
  /-- Otherwise, if none was taken, the oldest entry for `x` has become the newest one. -/
  moved : k = 0 → x ∈ l.items → l' = (l.erase x).push x
  /-- If one was taken, one is withdrawn that was there before. -/
  used : ∀ n, k = n + 1 → l' = (l.without x n).erase x
  /-- What differs from `x` stays where it is. -/
  others : l'.items.filter (· != x) = l.items.filter (· != x)
  /-- For each entry that was taken, one is missing. -/
  count : l'.items.count x = l.items.count x - k

/-- A registry without an entry for `x` that stays as it is. -/
theorem GivesBack.of_notMem {l : Registry α} {x : α} (h : x ∉ l.items) (k : Nat) :
    GivesBack l l x k := by
  constructor
  case exact => exact fun _ => rfl
  case moved => exact fun _ hmem => absurd hmem h
  case used => exact fun n _ => by rw [without_of_notMem h, erase_of_notMem h]
  case others => rfl
  case count => rw [List.count_eq_zero.2 h]; omega

theorem GivesBack.of_push (l : Registry α) (x : α) (k : Nat) :
    GivesBack l (((l.push x).without x k).erase x) x k := by
  constructor
  case exact =>
    intro h
    cases k with
    | zero => exact erase_push_of_notMem h
    | succ k => rw [without_push_succ, without_of_notMem h, erase_of_notMem h]
  case moved =>
    rintro rfl h
    exact erase_push_of_mem h
  case used =>
    rintro n rfl
    rw [without_push_succ]
  case others => rw [filter_ne_items_erase, filter_ne_without, items_push, List.filter_cons]; simp
  case count =>
    rw [count_items_erase, count_without, items_push, List.count_cons_self]
    omega

end Registry

namespace Machine

open Control

variable {P V σ : Type} {code : P → Entry V → Code P V σ V} {m m₁ m₂ m₃ m' : Machine P V σ}
  {i c : RoutineId} {r : RegistryId} {k : Nat} {v : V} {next : Outcome V V → Code P V σ V}
  {st : List (Frame P V σ)} {o : Outcome V (Parcel V)}

/-! ## During the call -/

/-- During a registered resume of coroutine `c` by routine `i`, registry `r` is only used by `k`
suspensions of the body of `c`, and by what itself leaves it as it was. -/
inductive Uses (code : P → Entry V → Code P V σ V) (r : RegistryId) (i c : RoutineId) :
    Nat → Machine P V σ → Machine P V σ → Prop where
  | refl (m : Machine P V σ) : Uses code r i c 0 m m
  /-- Part of the run, in which the call does not come back, gives the registry back. -/
  | restores {k : Nat} {m m' m'' : Machine P V σ}
    (hrun : ReachesUnder code (fun m _ => m.ready.head? ≠ some i) m m')
    (hsame : m'.registry (.registry r) = m.registry (.registry r))
    (rest : Uses code r i c k m' m'') : Uses code r i c k m m''
  /-- The body of the coroutine is suspended through the registry. -/
  | suspends {k : Nat} {m m' m'' : Machine P V σ} {v : V} {next : Outcome V V → Code P V σ V}
    (hhead : m.ready.head? = some c)
    (hc : (m.routine c).control = .running (.act (.suspend r v) next))
    (hs : m.step code = some m') (rest : Uses code r i c k m' m'') : Uses code r i c (k + 1) m m''

/-- Routine `i` is in a call for coroutine `c`, with stack `st`. -/
structure InCall (m : Machine P V σ) (i c : RoutineId) (st : List (Frame P V σ)) : Prop where
  proper : m.Proper
  stack : (m.routine i).stack = st
  made : c.val < m.routines.size
  coroutine : m.isCoroutine c = true

/-- A step of another routine leaves the call alone. -/
theorem InCall.step (h : m.InCall i c st) (hs : m.step code = some m')
    (hne : m.ready.head? ≠ some i) : m'.InCall i c st where
  proper := h.proper.step hs
  stack := by
    obtain ⟨j, ready, hready, ⟨hj, hp, -⟩ | ⟨-, rfl⟩⟩ := h.proper.tidy.step_cases hs
    · have hij : i ≠ j := by
        rintro rfl
        exact hne (by rw [hready]; rfl)
      rw [hp.stack h.proper.tidy hj hij, h.stack]
    · exact h.stack
  made := h.made.trans_le (h.proper.sound.size_step hs)
  coroutine := by rw [h.proper.sound.isCoroutine_step hs h.made, h.coroutine]

theorem InCall.passTurn (h : m.InCall i c st) : m.passTurn.InCall i c st where
  proper := h.proper.passTurn
  stack := by rw [routine_passTurn]; exact h.stack
  made := by rw [size_passTurn]; exact h.made
  coroutine := by
    rw [isCoroutine, routine_passTurn]
    exact h.coroutine

theorem InCall.run (h : m.InCall i c st)
    (hr : ReachesUnder code (fun m _ => m.ready.head? ≠ some i) m m') : m'.InCall i c st :=
  hr.invariant (fun m _ (hm : m.InCall i c st) hne hs => hm.step hs hne) (fun _ hm => hm.passTurn) h

/-- Whether a yield is accepted or not, no registry of the program changes. -/
theorem registries_yield_plain (m : Machine P V σ) (i c : RoutineId) (v : V) :
    (m.yield i c (.plain v)).registries = m.registries := by
  unfold yield
  split
  · exact (registries_read ..).trans (registries_sendOutput ..)
  · rfl
  · rfl

/-- A suspension takes the newest entry, if there is one. -/
theorem registry_stepOf_suspend (hc : (m.routine c).control = .running (.act (.suspend r v) next))
    (hco : m.isCoroutine c = true) :
    (m.stepOf code c).registry (.registry r) = ⟨(m.registry (.registry r)).items.erase c⟩ := by
  have hmain : c ≠ .main := by
    simp only [isCoroutine, Bool.and_eq_true, bne_iff_ne] at hco
    exact hco.1
  have hreg : (m.pushFrame c (.next next)).registry (.registry r) = m.registry (.registry r) := by
    rw [pushFrame, registry_update]
  rw [stepOf_act hc, begin, isCoroutine_pushFrame, if_pos hco]
  by_cases hmem : c ∈ (m.registry (.registry r)).items
  · have hopen : (m.pushFrame c (.next next)).hasPlace (.registry r) := by
      by_contra hno
      rw [← hreg, registry_of_not_hasPlace hno] at hmem
      cases hmem
    rw [suspend, if_neg hmain, hreg, popWhere_eq hmem]
    dsimp only
    rw [registry, registries_yield_plain, ← registry, registry_setRegistry hopen, if_pos rfl]
  · rw [suspend_of_notMem (by rwa [hreg]), List.erase_of_not_mem hmem]
    exact hreg

/-- During the call the registry changes by the suspensions alone. -/
theorem Uses.registry_eq (hu : Uses code r i c k m m')
    (h : m.InCall i c (.registered (.registry r) c :: st)) :
    m'.InCall i c (.registered (.registry r) c :: st) ∧
      m'.registry (.registry r) = (m.registry (.registry r)).without c k := by
  induction hu with
  | refl => exact ⟨h, rfl⟩
  | restores hrun hsame _ ih =>
    obtain ⟨hin, hreg⟩ := ih (h.run hrun)
    exact ⟨hin, by rw [hreg, hsame]⟩
  | @suspends k m m' _ v next hhead hc hs _ ih =>
    have hstep : m.stepOf code c = m' := stepOf_eq_of_step hhead hs
    -- Who is in a call runs no code.
    have hne : m.ready.head? ≠ some i := by
      rw [hhead]
      rintro heq
      obtain rfl := Option.some.inj heq
      have hcall : (m.routine c).call? (.registry r) = some c := by
        rw [Routine.call?, h.stack]
        exact if_pos rfl
      rcases h.proper.sound.control_of_call? hcall with ⟨d, hd⟩ | ⟨o, ho⟩
      · cases hc.symm.trans hd
      · cases hc.symm.trans ho
    obtain ⟨hin, hreg⟩ := ih (h.step hs hne)
    refine ⟨hin, ?_⟩
    rw [hreg, ← hstep, registry_stepOf_suspend hc h.coroutine, Registry.without_succ]

/-! ## The whole call -/

/-- Withdrawing an entry from a registry that is not there changes nothing. -/
theorem registry_setRegistry_erase (m : Machine P V σ) (p : Place) (c : RoutineId) :
    (m.setRegistry p ((m.registry p).erase c)).registry p = (m.registry p).erase c := by
  by_cases hp : m.hasPlace p
  · rw [registry_setRegistry hp, if_pos rfl]
  · rw [setRegistry_of_not_hasPlace hp, registry_of_not_hasPlace hp]
    rfl

/-- The call begins with its entry, if the registry is there. -/
theorem Proper.begins_call (h : m.Proper)
    (hc : (m.routine i).control = .running (.act (.resumeOn r c v) next))
    (hco : m.isCoroutine c = true) (hmade : c.val < m.routines.size)
    (hs : m.step code = some (m.stepOf code i)) :
    (m.stepOf code i).InCall i c
        (.registered (.registry r) c :: .next next :: (m.routine i).stack) ∧
      (m.stepOf code i).registry (.registry r) =
        (m.setRegistry (.registry r) ((m.registry (.registry r)).push c)).registry (.registry r) := by
  have hi : (m.routine i).control.isActive = true := by rw [hc]; rfl
  have hlt := lt_of_isActive hi
  have heq : m.stepOf code i = (m.calling i r c next).resume i c (.plain v) := stepOf_resumeOn hc hco
  obtain ⟨ht₁, hcontrol₁, -⟩ :=
    (show Arranges (· = r) i m (m.calling i r c next) from arranges_calling).own_eq h.tidy hi
  have htr : (m.calling i r c next).Transfers i ((m.calling i r c next).resume i c (.plain v)) :=
    transfers_calling hlt hco _
  have hstack : ((m.stepOf code i).routine i).stack =
      .registered (.registry r) c :: .next next :: (m.routine i).stack := by
    rw [heq, htr.stack ht₁ (hcontrol₁ ▸ hi), routine_calling hlt, if_pos rfl]
  have hreg : (m.stepOf code i).registry (.registry r) =
      (m.calling i r c next).registry (.registry r) := by
    rw [heq, registry, htr.registries]
    rfl
  refine ⟨⟨h.step hs, hstack, ?_, ?_⟩, hreg.trans (registry_calling _)⟩
  · exact hmade.trans_le (h.sound.size_step hs)
  · rw [h.sound.isCoroutine_step hs hmade, hco]

/-- A registered resume, however it ends, leaves the registry behind as `GivesBack` says: as it was, if
there was no entry of the coroutine. This concerns every resume, be it refused or accepted, and every
outcome that comes back. -/
theorem Reaches.givesBack {store : σ} {c₀ : Code P V σ V}
    (h : Reaches code (initial store c₀) m) (hhead : m.ready.head? = some i)
    (hc : (m.routine i).control = .running (.act (.resumeOn r c v) next))
    (hco : m.isCoroutine c = true) (hmade : c.val < m.routines.size)
    (hs : m.step code = some m₁) (hu : Uses code r i c k m₁ m₂)
    (hhead₂ : m₂.ready.head? = some i) (hret : (m₂.routine i).control = .returning o)
    (hs₂ : m₂.step code = some m₃) :
    (m₃.routine i).control = .returning o ∧
      (m₃.routine i).stack = .next next :: (m.routine i).stack ∧
      Registry.GivesBack (m.registry (.registry r)) (m₃.registry (.registry r)) c k := by
  obtain rfl : m.stepOf code i = m₁ := stepOf_eq_of_step hhead hs
  obtain rfl : m₂.stepOf code i = m₃ := stepOf_eq_of_step hhead₂ hs₂
  obtain ⟨hcall, hreg⟩ := h.proper.begins_call hc hco hmade hs
  obtain ⟨hcall₂, hreg₂⟩ := hu.registry_eq hcall
  -- The last step takes the frame of the call off.
  have hlt₂ : i.val < m₂.routines.size := lt_of_ne_ended (by simp [hret])
  have hlast : m₂.stepOf code i =
      ((m₂.update i fun r => { r with stack := .next next :: (m.routine i).stack }).setRegistry
        (.registry r) ((m₂.registry (.registry r)).erase c)).reply i o := by
    rw [stepOf_returning hret hcall₂.stack]
    simp only [unwind, registry_update]
  have hr₃ : (m₂.stepOf code i).routine i =
      { m₂.routine i with stack := .next next :: (m.routine i).stack, control := .returning o } := by
    rw [hlast, reply, setControl, setRegistry_eq_update_comm, update_update,
      routine_update_self (by simpa using hlt₂), routine_setRegistry]
  have hreg₃ : (m₂.stepOf code i).registry (.registry r) =
      (m₂.registry (.registry r)).erase c := by
    rw [hlast, reply, setControl, registry_update, setRegistry_eq_update_comm, registry_update,
      registry_setRegistry_erase]
  refine ⟨by rw [hr₃], by rw [hr₃], ?_⟩
  rw [hreg₃, hreg₂, hreg]
  by_cases hopen : m.hasPlace (.registry r)
  · rw [registry_setRegistry hopen, if_pos rfl]
    exact Registry.GivesBack.of_push _ c k
  · -- A registry that is not there has no entries.
    rw [setRegistry_of_not_hasPlace hopen, registry_of_not_hasPlace hopen]
    have hnot : c ∉ (Registry.empty : Registry RoutineId).items := List.not_mem_nil
    rw [Registry.without_of_notMem hnot, Registry.erase_of_notMem hnot]
    exact .of_notMem hnot k

/-! ## Two coroutines on one registry -/

namespace Nested

/-- The first body resumes the second one on the same registry, and the second one is suspended there. -/
def suspends : Bool → Entry Nat → Code Bool Nat Unit Nat
  | false, .start v _ => .perform (.resumeOn ⟨0⟩ ⟨2⟩ v)
  | true, .start v _ => .perform (.suspend ⟨0⟩ v)
  | _, _ => .pure 0

/-- The same, but the second body tries to resume the first one. -/
def resumesBack : Bool → Entry Nat → Code Bool Nat Unit Nat
  | false, .start v _ => .perform (.resumeOn ⟨0⟩ ⟨2⟩ v)
  | true, .start v _ => .perform (.resumeOn ⟨0⟩ ⟨1⟩ v)
  | _, _ => .pure 0

/-- Makes a registry and two coroutines, and resumes the first one. -/
def start : Machine Bool Nat Unit :=
  initial () <| .ask .openRegistry fun r => .ask (.spawn .standard false) fun c =>
    .ask (.spawn .standard true) fun _ => .perform (.resumeOn r c 5)

end Nested

theorem givesBack_nested :
    ∃ m m₁ m₂ m₃ next, Reaches Nested.suspends Nested.start m ∧
      (m.routine ⟨1⟩).control = .running (.act (.resumeOn ⟨0⟩ ⟨2⟩ 5) next) ∧
      (m.registry (.registry ⟨0⟩)).items = [⟨1⟩] ∧ m.step Nested.suspends = some m₁ ∧
      Uses Nested.suspends ⟨0⟩ ⟨1⟩ ⟨2⟩ 1 m₁ m₂ ∧
      (m₂.routine ⟨1⟩).control = .returning (.value (.plain 5)) ∧
      m₂.step Nested.suspends = some m₃ ∧
      Registry.GivesBack (m.registry (.registry ⟨0⟩)) (m₃.registry (.registry ⟨0⟩)) ⟨2⟩ 1 := by
  -- The second body starts, is suspended, and the call comes back.
  have hs : (Nested.start.run Nested.suspends 5).step Nested.suspends =
      some ((Nested.start.run Nested.suspends 5).stepOf Nested.suspends ⟨1⟩) := step_of_head rfl
  have hhead : ((Nested.start.run Nested.suspends 5).stepOf Nested.suspends ⟨1⟩).ready.head? =
      some ⟨2⟩ := rfl
  have hreg : ((Nested.start.run Nested.suspends 5).stepOf Nested.suspends ⟨1⟩).registry
      (.registry ⟨0⟩) = ⟨[⟨2⟩, ⟨1⟩]⟩ := rfl
  have hreg' : (((Nested.start.run Nested.suspends 5).stepOf Nested.suspends ⟨1⟩).stepOf
      Nested.suspends ⟨2⟩).registry (.registry ⟨0⟩) = ⟨[⟨2⟩, ⟨1⟩]⟩ := rfl
  have huses : Uses Nested.suspends ⟨0⟩ ⟨1⟩ ⟨2⟩ 1
      ((Nested.start.run Nested.suspends 5).stepOf Nested.suspends ⟨1⟩) _ :=
    .restores (.step (by simp [hhead]) (step_of_head hhead) (.refl _)) (hreg'.trans hreg.symm)
      (.suspends rfl rfl (step_of_head rfl) (.refl _))
  have hsize : (Nested.start.run Nested.suspends 5).routines.size = 3 := rfl
  have hgives := (show Reaches Nested.suspends Nested.start _ from reaches_run _ 5).givesBack (i := ⟨1⟩) rfl rfl rfl
    (by rw [hsize]; decide) hs huses rfl rfl (step_of_head rfl)
  exact ⟨_, _, _, _, _, reaches_run _ 5, rfl, rfl, hs, huses, rfl, step_of_head rfl, hgives.2.2⟩

/-- A refused resume of a coroutine that is registered already, and runs, puts its entry in front of that
of another one. -/
theorem exists_refused_moved :
    ∃ m m₁ m₃ next, Reaches Nested.resumesBack Nested.start m ∧ m.ready.head? = some ⟨2⟩ ∧
      (m.routine ⟨2⟩).control = .running (.act (.resumeOn ⟨0⟩ ⟨1⟩ 5) next) ∧
      m.status ⟨1⟩ = .running ∧ m.step Nested.resumesBack = some m₁ ∧
      (m₁.routine ⟨2⟩).control = .returning (.failure (.cannotResume .running)) ∧
      Uses Nested.resumesBack ⟨0⟩ ⟨2⟩ ⟨1⟩ 0 m₁ m₁ ∧ m₁.step Nested.resumesBack = some m₃ ∧
      (m.registry (.registry ⟨0⟩)).items = [⟨2⟩, ⟨1⟩] ∧
      (m₃.registry (.registry ⟨0⟩)).items = [⟨1⟩, ⟨2⟩] :=
  ⟨_, _, _, _, reaches_run _ 7, rfl, rfl, rfl, rfl, rfl, .refl _, rfl, rfl, rfl⟩

end Machine

end OneShot
