import OneShot.Proofs.Accounts
import OneShot.Proofs.Chain
import OneShot.Proofs.Concluding
import OneShot.Proofs.StatusChanges

/-!
# What a canceled body can still hand out

A body that was canceled runs on until it ends. If it hands out explicitly, its status is looked at
first, and the yield fails with `canceled`. If it hands out through a registry or a context, an entry
is looked for first. Nobody resumes a canceled body, so as a rule there is none: the operation fails
with `noResumePoint` instead, and changes nothing. Only a coroutine for which code itself has left an
entry gets to hear `canceled`, and uses this entry up. The entries of others stay as they are.
-/

namespace OneShot

variable {P V σ : Type}

/-- Where an operation looks for the entry of the body that runs it. -/
def Act.through? : Act P V → Option Place
  | .suspend r _ => some (.registry r)
  | .perform ctx _ _ => some ctx.place
  | .raise ctx _ => some ctx.place
  | _ => none

namespace Machine

variable {code : P → Entry V → Code P V σ V} {m m' : Machine P V σ} {i c : RoutineId} {p : Place}
  {a : Act P V} {next : Outcome V V → Code P V σ V}

/-- There is an entry for coroutine `c`. Handled bodies are never looked for in the registries of the
program. -/
def FindsEntry (m : Machine P V σ) (c : RoutineId) (p : Place) : Prop :=
  m.isCoroutine c = true ∧ c ∈ (m.registry p).items

theorem FindsEntry.ne_main (h : m.FindsEntry c p) : c ≠ .main := by
  rintro rfl
  have hco := h.1
  simp [isCoroutine] at hco

/-- A failure passes the frame of a performed effect. -/
theorem stepOf_fail_performing (hlt : i.val < m.routines.size) (f : Failure) :
    ((m.pushFrame i .performing).fail i f).stepOf code i = m.fail i f := by
  have hr : ((m.pushFrame i .performing).fail i f).routine i =
      { m.routine i with
        stack := .performing :: (m.routine i).stack, control := .returning (.failure f) } := by
    rw [fail, reply, setControl, pushFrame, update_update, routine_update_self hlt]
  rw [stepOf_returning (by rw [hr]) (by rw [hr])]
  simp only [unwind]
  unfold fail reply pushFrame setControl
  simp only [update_update]
  exact update_congr rfl

/-- Nobody resumes a canceled body on a context. -/
theorem Sound.notMem_context (h : m.Sound) {x : Code P V σ V} (hst : m.status c = .canceled)
    (hc : (m.routine c).control = .running x) (ctx : ContextId) :
    c ∉ (m.registry (.context ctx)).items := by
  have hactive : (m.routine c).control.isActive = true := by rw [hc]; rfl
  have hentries : ∀ d s, (m.routine c).entries d s = 0 := by
    intro d s
    rw [Routine.entries_eq, if_neg]
    rintro ⟨-, hentry⟩
    simp [hc, Control.hasEntry] at hentry
  rw [h.mem_registry_iff hactive hentries]
  rintro ⟨j, hj⟩
  cases hst.symm.trans (hj.running h.linked)

/-- Without an entry, a performed effect fails, and nothing else happens. -/
theorem iterate_perform_of_notMem {ctx : Context} {e : Effect} {b : Boxed V}
    (hc : (m.routine c).control = .running (.act a next))
    (hbegin : ∀ m : Machine P V σ, m.begin code c a = m.perform c ctx e b)
    (hentry : c ∉ (m.registry ctx.place).items) :
    (fun m : Machine P V σ => m.stepOf code c)^[3] m =
      m.setControl c (.running (next (.failure .noResumePoint))) := by
  have hlt : c.val < m.routines.size := lt_of_ne_ended (by simp [hc])
  have hfirst : m.stepOf code c =
      ((m.pushFrame c (.next next)).pushFrame c .performing).fail c .noResumePoint := by
    have hentry' : c ∉ (((m.pushFrame c (.next next)).pushFrame c .performing).registry
        ctx.place).items := by
      rw [pushFrame, pushFrame, registry_update, registry_update]
      exact hentry
    rw [stepOf_act hc, hbegin, perform, suspend_of_notMem hentry']
    rfl
  show ((m.stepOf code c).stepOf code c).stepOf code c = _
  rw [hfirst, stepOf_fail_performing (by simpa [pushFrame] using hlt), stepOf_fail_next hlt]

section Suspend

variable {r : RegistryId} {v : V} (hc : (m.routine c).control = .running (.act (.suspend r v) next))
include hc

/-- A body that finds an entry uses it up, and hands out. -/
theorem stepOf_suspend_of_findsEntry (hfind : m.FindsEntry c (.registry r)) :
    m.stepOf code c = ((m.setRegistry (.registry r)
      ⟨(m.registry (.registry r)).items.erase c⟩).pushFrame c (.next next)).yield c c (.plain v) := by
  have hpop : ((m.pushFrame c (.next next)).registry (.registry r)).popWhere (· == c) =
      (some c, ⟨(m.registry (.registry r)).items.erase c⟩) := by
    rw [pushFrame, registry_update]
    exact popWhere_eq hfind.2
  rw [stepOf_act hc, begin, isCoroutine_pushFrame, if_pos hfind.1, suspend, if_neg hfind.ne_main, hpop,
    pushFrame, pushFrame, ← setRegistry_eq_update_comm]

/-- Without an entry the suspension fails, and nothing else happens. -/
theorem stepOf_suspend_of_not_findsEntry (hfind : ¬ m.FindsEntry c (.registry r)) :
    m.stepOf code c = (m.pushFrame c (.next next)).fail c .noResumePoint := by
  rw [stepOf_act hc, begin, isCoroutine_pushFrame]
  split
  · next hco =>
    rw [suspend_of_notMem]
    · rfl
    · rw [pushFrame, registry_update]
      exact fun hmem => hfind ⟨hco, hmem⟩
  · rfl

end Suspend

/-- A body without an entry cannot be suspended through a registry, and nothing else happens. -/
theorem iterate_suspend_of_not_findsEntry {r : RegistryId} {v : V}
    (hc : (m.routine c).control = .running (.act (.suspend r v) next))
    (hentry : ¬ m.FindsEntry c (.registry r)) :
    (fun m : Machine P V σ => m.stepOf code c)^[2] m =
      m.setControl c (.running (next (.failure .noResumePoint))) := by
  have hlt : c.val < m.routines.size := lt_of_ne_ended (by simp [hc])
  show (m.stepOf code c).stepOf code c = _
  rw [stepOf_suspend_of_not_findsEntry hc hentry, stepOf_fail_next hlt]

/-- A canceled body uses an entry up that it finds, and learns that it was canceled. -/
theorem iterate_suspend_of_findsEntry {r : RegistryId} {v : V}
    (hc : (m.routine c).control = .running (.act (.suspend r v) next))
    (hst : m.status c = .canceled) (hentry : m.FindsEntry c (.registry r)) :
    (fun m : Machine P V σ => m.stepOf code c)^[2] m =
      (m.setRegistry (.registry r) ⟨(m.registry (.registry r)).items.erase c⟩).setControl c
        (.running (next (.failure .canceled))) := by
  have hlt : c.val < m.routines.size := lt_of_ne_ended (by simp [hc])
  set m₁ := m.setRegistry (.registry r) ⟨(m.registry (.registry r)).items.erase c⟩ with hm₁
  have hst₁ : (m₁.pushFrame c (.next next)).status c = .canceled := by
    rw [status_pushFrame, status, hm₁, routine_setRegistry]
    exact hst
  have hyield : (m₁.pushFrame c (.next next)).yield c c (.plain v) =
      (m₁.pushFrame c (.next next)).fail c .canceled := by
    simp only [yield, hst₁, releaseParcel]
  show (m.stepOf code c).stepOf code c = _
  rw [stepOf_suspend_of_findsEntry hc hentry, hyield, stepOf_fail_next (by simpa [hm₁] using hlt)]

/-- Using up an entry of one coroutine leaves the entries of all others where they are. -/
theorem filter_setRegistry_erase (m : Machine P V σ) (c : RoutineId) (p q : Place) :
    ((m.setRegistry p ⟨(m.registry p).items.erase c⟩).registry q).items.filter (· != c) =
      (m.registry q).items.filter (· != c) := by
  by_cases hp : m.hasPlace p
  · rw [registry_setRegistry hp]
    split
    · next hpq =>
      subst hpq
      exact Registry.filter_ne_erase _ c
    · rfl
  · rw [setRegistry_of_not_hasPlace hp]

/-- What becomes of an operation with which the canceled body `c` hands out through place `p`, in machine
`m` which machine `m₀` has come to. -/
structure LateYield (code : P → Entry V → Code P V σ V) (m₀ m : Machine P V σ) (c : RoutineId)
    (p : Place) (next : Outcome V V → Code P V σ V) : Prop where
  /-- An entry that the body finds is used up, and it learns that it was canceled. -/
  found : m.FindsEntry c p → ∃ n ≤ 3, (fun m : Machine P V σ => m.stepOf code c)^[n] m =
    (m.setRegistry p ⟨(m.registry p).items.erase c⟩).setControl c
      (.running (next (.failure .canceled)))
  /-- Otherwise nothing changes, and the body does not learn that it was canceled. -/
  lost : ¬ m.FindsEntry c p → ∃ n ≤ 3, (fun m : Machine P V σ => m.stepOf code c)^[n] m =
    m.setControl c (.running (next (.failure .noResumePoint)))
  /-- In either case the entries of others stay where they are. -/
  others : ∀ q, ((m.setRegistry p ⟨(m.registry p).items.erase c⟩).registry q).items.filter (· != c) =
    (m.registry q).items.filter (· != c)
  /-- There is no entry in the registry of a context. -/
  context : ∀ ctx, p = .context ctx → ¬ m.FindsEntry c p
  /-- Nor is there one in a registry that is used through registered resumes and suspensions alone, in
  a single line of control. -/
  registry : ∀ r, p = .registry r → ReachesUnder code
      (fun m m' => (m.yieldsOwn && m.waitsForDropped m' && m.usesRegistry r) = true) m₀ m →
    ¬ m.FindsEntry c p

/-- However a coroutine came to be canceled: when its body hands out through a registry or a context, it
does not wait. It learns that it was canceled only if code has left an entry for it, and fails with
`noResumePoint` otherwise. -/
theorem Reaches.lateYield {store : σ} {c₀ : Code P V σ V} (h : Reaches code (initial store c₀) m)
    (hst : m.status c = .canceled) (hc : (m.routine c).control = .running (.act a next))
    (hp : a.through? = some p) : LateYield code (initial store c₀) m c p next := by
  have hcontext : ∀ ctx, p = .context ctx → ¬ m.FindsEntry c p := by
    rintro ctx rfl ⟨-, hmem⟩
    exact h.sound.notMem_context hst hc ctx hmem
  constructor
  case context => exact hcontext
  case others => exact filter_setRegistry_erase m c p
  case registry =>
    rintro r rfl hrun ⟨-, hmem⟩
    -- Whose resume waits, runs.
    have hwait := (hrun.perm_waitingOn hc).mem_iff.1 hmem
    obtain ⟨j, hj⟩ := mem_waitingOn.1 hwait
    cases hst.symm.trans (h.proper.tidy.status_of_waitsOn hj)
  case found =>
    intro hentry
    cases a with
    | suspend r v =>
      obtain rfl := Option.some.inj hp
      exact ⟨2, by omega, iterate_suspend_of_findsEntry hc hst hentry⟩
    | perform ctx e v =>
      obtain rfl := Option.some.inj hp
      exact absurd hentry (hcontext ctx.id rfl)
    | raise ctx cause =>
      obtain rfl := Option.some.inj hp
      exact absurd hentry (hcontext ctx.id rfl)
    | _ => cases hp
  case lost =>
    intro hentry
    cases a with
    | suspend r v =>
      obtain rfl := Option.some.inj hp
      exact ⟨2, by omega, iterate_suspend_of_not_findsEntry hc hentry⟩
    | perform ctx e v =>
      exact ⟨3, by omega,
        iterate_perform_of_notMem hc (fun _ => rfl) (h.sound.notMem_context hst hc ctx.id)⟩
    | raise ctx cause =>
      exact ⟨3, by omega,
        iterate_perform_of_notMem hc (fun _ => rfl) (h.sound.notMem_context hst hc ctx.id)⟩
    | _ => cases hp

/-! A body that is canceled in its first suspension, and then hands out once more. -/

namespace Late

/-- Hands out through the registry twice, and notes whether the second failure says that the body was
canceled. -/
def suspendsTwice : Unit → Entry Nat → Code Unit Nat (Option Bool) Nat
  | _, .start v _ => .act (.suspend ⟨0⟩ v) fun _ => .act (.suspend ⟨0⟩ v) fun o =>
      .access (fun _ => match o with
        | .failure f => some f.isCanceled
        | _ => none) fun _ => .pure 0
  | _, _ => .pure 0

/-- Makes a coroutine, resumes it and cancels it. -/
def start : Machine Unit Nat (Option Bool) :=
  initial none <| .ask .openRegistry fun r => .ask (.spawn .standard ()) fun c =>
    .act (.resumeOn r c 5) fun _ => .perform (.cancel c 0)

end Late

theorem lateYield_suspendsTwice :
    ∃ m next, Reaches Late.suspendsTwice Late.start m ∧ m.status ⟨1⟩ = .canceled ∧
      (m.routine ⟨1⟩).control = .running (.act (.suspend ⟨0⟩ 5) next) ∧
      ¬ m.FindsEntry ⟨1⟩ (.registry ⟨0⟩) ∧
      LateYield Late.suspendsTwice Late.start m ⟨1⟩ (.registry ⟨0⟩) next := by
  refine ⟨_, _, reaches_run _ 9, rfl, rfl, ?_, ?_⟩
  · rintro ⟨-, hmem⟩
    cases hmem
  · exact Reaches.lateYield (reaches_run _ 9) rfl rfl rfl

/-- A body that was canceled while it was suspended, and hands out through the same registry once more,
does not learn that it was canceled. -/
theorem exists_late_yield_not_canceled :
    ∃ m m', Reaches Late.suspendsTwice Late.start m ∧ m.status ⟨1⟩ = .canceled ∧
      (∃ next, (m.routine ⟨1⟩).control = .running (.act (.suspend ⟨0⟩ 5) next)) ∧
      Reaches Late.suspendsTwice m m' ∧ m'.isDone = true ∧ m'.store = some false :=
  ⟨_, _, reaches_run _ 9, rfl, ⟨_, rfl⟩, reaches_run _ 10, rfl, rfl⟩

end Machine

end OneShot
