import OneShot.Proofs.Ambient
import OneShot.Proofs.Driving
import OneShot.Proofs.GivingBack
import OneShot.Proofs.LateYields

/-!
# Machines in which a coroutine is driven through a registry

`Mirrors` relates a machine in which coroutine `a` is driven by its own yields and resumes to one in
which this goes through registry `r`. The routines whose resume of `a` has not come back are part of the
relation: in the second machine each of them still has the frame that will withdraw its entry. While `a` runs,
there is an entry for each of them, so the body finds one when it is suspended; otherwise there may be fewer.

`Mirrors.step` says that a step of the same routine in both machines keeps the relation, one lemma for each
use of the registry: by code, by a resume or a suspension of somebody else (`step_register`, `step_resumeOn`,
`step_suspend`, `step_registered`), and in the place of what the first machine does without the registry
(`step_resume`, `step_yield`). In `Mirrors.withdraw` only the second machine makes a step: a frame comes off.
-/

namespace OneShot

variable {P V σ α : Type}

/-- The operation neither sees nor touches the items equal to `x`. -/
def Registry.Op.spares [BEq α] (x : α) : Registry.Op α → Bool
  | .push y => y != x
  | .erase y => y != x
  | .popWhere p => !p x
  | .pop => false
  | .isEmpty => false

/-- The question is not about entries of `a` in registry `r`. -/
def Query.spares (a : RoutineId) (r : RegistryId) : Query P → Bool
  | .registered q => q != r
  | .register q op => q != r || op.spares a
  | _ => true

/-! ## Items of others in a registry -/

namespace Registry

variable [BEq α] [LawfulBEq α] {g g' : Registry α} {x : α} {l : List α} {p : α → Bool}

theorem find?_filter_ne (hp : p x = false) : (l.filter (· != x)).find? p = l.find? p := by
  rw [List.find?_filter]
  congr 1
  funext y
  by_cases hy : y = x
  · simp [hy, hp]
  · simp [hy]

theorem filter_ne_eraseP (hp : p x = false) :
    (l.eraseP p).filter (· != x) = (l.filter (· != x)).eraseP p := by
  rw [List.eraseP_filter]
  congr 2
  funext y
  by_cases hy : y = x
  · simp [hy, hp]
  · simp [hy]

theorem count_eraseP (hp : p x = false) : (l.eraseP p).count x = l.count x := by
  induction l with
  | nil => rfl
  | cons y l ih =>
    cases hy : p y with
    | false => rw [List.eraseP_cons_of_neg (by simp [hy]), List.count_cons, List.count_cons, ih]
    | true =>
      have hne : y ≠ x := by
        rintro rfl
        cases hp.symm.trans hy
      rw [List.eraseP_cons_of_pos hy, List.count_cons_of_ne hne]

/-- An operation that spares `x` does to the other items what it does where there is no `x`. -/
theorem apply_spares {op : Op α} (h : op.spares x = true)
    (hg : g'.items.filter (· != x) = g.items) :
    (g'.apply op).1.item = (g.apply op).1.item ∧
      (g'.apply op).2.items.filter (· != x) = (g.apply op).2.items ∧
      (g'.apply op).2.items.count x = g'.items.count x := by
  cases op with
  | push y =>
    have hy : y ≠ x := by simpa [Op.spares] using h
    refine ⟨rfl, ?_, ?_⟩
    · simp [apply, hy, hg]
    · simp [apply, hy]
  | pop => cases h
  | popWhere p =>
    have hp : p x = false := by simpa [Op.spares] using h
    refine ⟨?_, ?_, ?_⟩
    · exact (find?_filter_ne hp).symm.trans (by rw [hg]; rfl)
    · exact (filter_ne_eraseP hp).trans (by rw [hg]; rfl)
    · exact count_eraseP hp
  | erase y =>
    have hy : y ≠ x := by simpa [Op.spares] using h
    refine ⟨rfl, ?_, ?_⟩
    · simp only [apply, erase, ← hg]
      rw [List.filter_reverse, ← List.erase_filter, List.filter_reverse]
    · simp only [apply, erase, List.count_reverse]
      rw [List.count_erase_of_ne (Ne.symm hy), List.count_reverse]
  | isEmpty => cases h

end Registry
namespace Machine

variable {code : P → Entry V → Code P V σ V} {m m₁ m' : Machine P V σ} {a : RoutineId} {r : RegistryId}
  {calls calls' : List RoutineId} {entries entries' : Registry RoutineId} {i j c : RoutineId} {v : V}
  {next : Outcome V V → Code P V σ V}

/-- In the next step coroutine `a` is driven by resumes and yields that name it: it is resumed on no
registry, its own body is the only one to hand out through it, and does so before the coroutine is given
up. Registry `r` is used by others, once it is made, and nobody looks for entries of `a` there. -/
def drivesPlainly (m : Machine P V σ) (a : RoutineId) (r : RegistryId) : Bool :=
  match m.ready with
  | [] => true
  | i :: _ =>
    match (m.routine i).control with
    | .running (.act b _) =>
      (b.usedRegistry != some r || decide (r.val < m.registries.size)) &&
        match b with
        | .resume c _ => c != a || decide (r.val < m.registries.size)
        | .resumeOn _ c _ => c != a
        | .yield c _ => c != a || i == a && m.isCoroutine a && m.status a != .canceled
        | .suspend q _ => q != r || i != a
        | _ => true
    | .running (.ask q _) =>
      (q.usedRegistry != some r || decide (r.val < m.registries.size)) && q.spares a r
    | _ => true

/-- In `m` coroutine `a` is driven by its own yields and resumes, in `m'` through registry `r`. The
routines in `calls` have resumed `a`, and their resume has not come back. -/
structure Mirrors (a : RoutineId) (r : RegistryId) (calls : List RoutineId)
    (entries : Registry RoutineId) (m m' : Machine P V σ) : Prop where
  eq : m' = m.ambient a r calls entries
  /-- The entries of others are the same. -/
  shared : entries.items.filter (· != a) = (m.registry (.registry r)).items
  opened : m.hasPlace (.registry r) ∨ entries = .empty
  /-- There are no more entries of `a` than calls, and as many while it runs. -/
  count : entries.items.count a ≤ calls.length
  running : m.isCoroutine a = true → m.status a = .running →
    entries.items.count a = calls.length ∧ ∀ l, (m.routine l).control = .listening a → l ∈ calls
  nodup : calls.Nodup
  inResume : ∀ j ∈ calls, m.InResume j a
  atHome : (m.routine a).AtHome a
  /-- Without the registry, nobody is in a registered resume of `a`. -/
  unregistered : ∀ j, .registered (.registry r) a ∉ (m.routine j).stack
  proper : m.Proper
  proper' : m'.Proper

/-! ## What a step does to a registry and to the frames of calls -/

section Passes

variable {R : RegistryId → Prop} (hp : m.Passes R i m') (ht : m.Tidy)
  (hi : (m.routine i).control.isActive = true) (hr : ¬ R r)
include hp ht hi hr

theorem Passes.registry_eq : m'.registry (.registry r) = m.registry (.registry r) := by
  cases hp with
  | ends hc hst => rw [registry, registries_finish, registry]
  | transfers ha htr =>
    rw [registry, htr.registries, ← registry]
    exact (ha.spares ht hi).registry r hr

theorem Passes.registered_mem (hmem : .registered (.registry r) c ∈ (m'.routine j).stack) :
    .registered (.registry r) c ∈ (m.routine j).stack := by
  by_cases hji : j = i
  · subst hji
    cases hp with
    | ends hc hst =>
      rw [routine_finish ht hi] at hmem
      exact hmem
    | transfers ha htr =>
      obtain ⟨ht₁, hcontrol, -⟩ := ha.own_eq ht hi
      rw [htr.stack ht₁ (hcontrol ▸ hi)] at hmem
      exact (ha.spares ht hi).frames r c hr hmem
  · rwa [hp.stack ht hi hji] at hmem

end Passes

/-! ## The rule -/

section Rule

variable (hrule : m.drivesPlainly a r = true) (hhead : m.ready.head? = some i)
include hrule hhead

theorem drivesPlainly_act {b : Act P V} {next : Outcome V V → Code P V σ V}
    (hc : (m.routine i).control = .running (.act b next)) :
    (b.usedRegistry = some r → m.hasPlace (.registry r)) ∧
      (∀ v, b = .resume a v → m.hasPlace (.registry r)) ∧ (∀ q v, b ≠ .resumeOn q a v) ∧
      (∀ v, b = .yield a v → i = a ∧ m.isCoroutine a = true ∧ m.status a ≠ .canceled) ∧
      (∀ v, b = .suspend r v → i ≠ a) := by
  obtain ⟨ready, hready⟩ := List.head?_eq_some_iff.1 hhead
  unfold drivesPlainly at hrule
  rw [hready] at hrule
  simp only [hc, Bool.and_eq_true, Bool.or_eq_true, bne_iff_ne, decide_eq_true_eq] at hrule
  refine ⟨fun hu => hrule.1.resolve_left (fun hne => hne hu), ?_, ?_, ?_, ?_⟩
  · rintro v rfl
    simpa [hasPlace] using hrule.2
  · rintro q v rfl
    simp at hrule
  · rintro v rfl
    simpa [and_assoc] using hrule.2
  · rintro v rfl
    simpa using hrule.2

theorem drivesPlainly_ask {q : Query P} {next : q.Reply → Code P V σ V}
    (hc : (m.routine i).control = .running (.ask q next)) :
    (q.usedRegistry = some r → m.hasPlace (.registry r)) ∧ q.spares a r = true := by
  obtain ⟨ready, hready⟩ := List.head?_eq_some_iff.1 hhead
  unfold drivesPlainly at hrule
  rw [hready] at hrule
  simp only [hc, Bool.and_eq_true, Bool.or_eq_true, bne_iff_ne, decide_eq_true_eq] at hrule
  exact ⟨fun hu => hrule.1.resolve_left (fun hne => hne hu), hrule.2⟩

end Rule

/-! ## Looking at both machines -/

/-- What others put into the registry, the machines put there side by side. -/
theorem setRegistry_ambient_both (g g' : Registry RoutineId) :
    (m.ambient a r calls entries).setRegistry (.registry r) g' =
      (m.setRegistry (.registry r) g).ambient a r calls g' := by
  simp [setRegistry, ambient]

theorem registry_ambient_opened (h : m.hasPlace (.registry r) ∨ entries = .empty) :
    (m.ambient a r calls entries).registry (.registry r) = entries := by
  by_cases hp : m.hasPlace (.registry r)
  · exact registry_ambient_self hp
  · rw [registry_ambient, setRegistry_of_not_hasPlace hp, registry_of_not_hasPlace hp,
      h.resolve_left hp]

theorem hasPlace_setRegistry (p : Place) (g : Registry RoutineId) (q : Place) :
    (m.setRegistry p g).hasPlace q ↔ m.hasPlace q := by
  cases p <;> cases q <;> simp [hasPlace, setRegistry]

theorem hasPlace_congr (h : m'.registries = m.registries) :
    m'.hasPlace (.registry r) ↔ m.hasPlace (.registry r) := by
  simp only [hasPlace, h]

/-- The frame of a call comes or goes. -/
theorem update_ambient_calls {f : Routine P V σ → Routine P V σ}
    (hself : f ((m.routine i).ambient a r (decide (i ∈ calls))) =
      (m.routine i).ambient a r (decide (i ∈ calls')))
    (hother : ∀ j, j ≠ i → (j ∈ calls' ↔ j ∈ calls)) :
    (m.ambient a r calls entries).update i f = m.ambient a r calls' entries := by
  unfold update ambient
  congr 1
  apply Array.ext
  · simp
  · intro n hn hn'
    have hlt : n < m.routines.size := by simpa using hn
    simp only [Array.getElem_modify, Array.getElem_mapIdx]
    split
    · next hin =>
      subst hin
      simpa [routine, Array.getD, hlt] using hself
    · next hin =>
      have hne : (⟨n⟩ : RoutineId) ≠ i := by
        rintro rfl
        exact hin rfl
      simp only [hother _ hne]

theorem passTurn_ambient :
    (m.ambient a r calls entries).passTurn = m.passTurn.ambient a r calls entries := by
  unfold passTurn
  rw [ready_ambient]
  split <;> rfl

theorem calling_ambient (hi : i ∉ calls) (hp : m.hasPlace (.registry r)) :
    (m.ambient a r calls entries).calling i r c (fun o => (next o).ambient a r) =
      (m.calling i r c next).ambient a r calls (entries.push c) := by
  unfold calling
  rw [registry_ambient_self hp, setRegistry_ambient_both ((m.registry (.registry r)).push c),
    ← pushFrame_ambient_self hi (f := .registered (.registry r) c) rfl, ← pushFrame_ambient hi]
  rfl

/-- A body hands out through its own coroutine, or fails. -/
theorem transfers_yield_plain (hmain : i ≠ .main) (v : V) :
    m.Transfers i (m.yield i i (.plain v)) := by
  by_cases hrun : m.status i = .running
  · exact .yields _ hrun hmain (.inl rfl)
  · obtain ⟨f, heq⟩ := exists_yield_eq_fail (i := i) hrun v
    exact heq ▸ .goes rfl

section Resume

variable {x : Parcel V}

/-- A resume is accepted and passes control, or fails. -/
theorem transfers_resume (hmain : c ≠ .main) (hst : (m.routine i).isCanceling = false) (x : Parcel V) :
    m.Transfers i (m.resume i c x) := by
  unfold resume
  split
  · next hres => exact .resumes x hres hmain hst
  · exact .goes rfl

/-- Whose resume is accepted, listens. -/
theorem Tidy.listens_of_resume (ht : m.Tidy) (hi : (m.routine i).control.isActive = true)
    (hres : (m.status c).isResumable = true) :
    ((m.resume i c x).routine i).control = .listening c := by
  obtain ⟨d, hin⟩ := ht.exists_reader hres
  rw [resume, if_pos hres]
  exact (congrArg Routine.control (routine_handOver ht hi hres hin .running (.parcel x) i)).trans
    (by simp [handedOver])

theorem resume_of_not_isResumable (hres : (m.status c).isResumable = false) :
    m.resume i c x = m.fail i (.cannotResume (m.status c)) := by
  rw [resume, if_neg (by simp [hres])]

variable (hc : (m.routine i).control = .running (.act (.resume c v) next))
  (hco : m.isCoroutine c = true)
include hc hco

/-- A resume begins with the frame of the code that waits for it. -/
theorem stepOf_resume :
    m.stepOf code i = (m.pushFrame i (.next next)).resume i c (.plain v) := by
  rw [stepOf_act hc, begin, onCoroutine, isCoroutine_pushFrame, if_pos hco]

variable (code) in
theorem stepOf_resume_refused (hres : (m.status c).isResumable = false) :
    m.stepOf code i = (m.pushFrame i (.next next)).fail i (.cannotResume (m.status c)) := by
  rw [stepOf_resume hc hco, resume_of_not_isResumable (by rwa [status_pushFrame]), status_pushFrame]

variable (code) in
theorem transfers_stepOf_resume : (m.pushFrame i (.next next)).Transfers i (m.stepOf code i) := by
  have hlt := lt_of_isActive (show (m.routine i).control.isActive = true by rw [hc]; rfl)
  have hmain : c ≠ .main := by
    simp only [isCoroutine, Bool.and_eq_true, bne_iff_ne] at hco
    exact hco.1
  have hcanceling : ((m.pushFrame i (.next next)).routine i).isCanceling = false := by
    rw [pushFrame, routine_update_self hlt]
    rfl
  rw [stepOf_resume hc hco]
  exact transfers_resume hmain hcanceling _

theorem Tidy.listens_stepOf_resume (ht : m.Tidy) (hres : (m.status c).isResumable = true) :
    ((m.stepOf code i).routine i).control = .listening c := by
  have hi : (m.routine i).control.isActive = true := by rw [hc]; rfl
  rw [stepOf_resume hc hco]
  exact (ht.pushNext next hi).listens_of_resume (isActive_pushFrame hi _)
    (by rwa [status_pushFrame])

/-- Whoever resumes a coroutine waits for it then, or has got a failure. -/
theorem Tidy.inResume_stepOf_resume (ht : m.Tidy) : (m.stepOf code i).InResume i c := by
  have hlt := lt_of_isActive (show (m.routine i).control.isActive = true by rw [hc]; rfl)
  cases hres : (m.status c).isResumable with
  | true => exact .inl (ht.listens_stepOf_resume hc hco hres)
  | false =>
    refine .inr ⟨.failure (.cannotResume (m.status c)), ?_⟩
    rw [stepOf_resume_refused code hc hco hres, fail, reply, Machine.setControl,
      routine_update_self (by simpa [pushFrame] using hlt)]

end Resume

/-! ## Steps -/

/-- A coroutine that runs was made. -/
theorem lt_of_status (h : m.status c = .running) : c.val < m.routines.size := by
  by_contra hge
  rw [status, routine_of_size_le (Nat.le_of_not_lt hge)] at h
  cases h

/-- A handled body was made. -/
theorem lt_of_not_isCoroutine (hmain : c ≠ .main) (h : m.isCoroutine c = false) :
    c.val < m.routines.size := by
  by_contra hge
  rw [isCoroutine, routine_of_size_le (Nat.le_of_not_lt hge)] at h
  simp [Routine.absent, hmain] at h

namespace Mirrors

variable (h : Mirrors a r calls entries m m') (hhead : m.ready.head? = some i)
include h

theorem ready_eq : m'.ready = m.ready := by
  rw [h.eq]
  rfl

theorem made : ∀ j ∈ calls, j.val < m.routines.size := fun j hj => (h.inResume j hj).lt

include hhead

/-- The same routine makes a step in both machines. -/
theorem of_step (hrule : m.drivesPlainly a r = true)
    (heq : m'.stepOf (fun p e => (code p e).ambient a r) i =
      (m.stepOf code i).ambient a r calls' entries')
    (hshared : entries'.items.filter (· != a) = ((m.stepOf code i).registry (.registry r)).items)
    (hopened : (m.stepOf code i).hasPlace (.registry r) ∨ entries' = .empty)
    (hcount : entries'.items.count a ≤ calls'.length)
    (hrunning : (m.stepOf code i).isCoroutine a = true → (m.stepOf code i).status a = .running →
      entries'.items.count a = calls'.length ∧
        ∀ l, ((m.stepOf code i).routine l).control = .listening a → l ∈ calls')
    (hnodup : calls'.Nodup) (hinResume : ∀ j ∈ calls', (m.stepOf code i).InResume j a)
    (hunregistered : ∀ j, .registered (.registry r) a ∉ ((m.stepOf code i).routine j).stack) :
    Mirrors a r calls' entries' (m.stepOf code i)
      (m'.stepOf (fun p e => (code p e).ambient a r) i) := by
  have hs : m.step code = some (m.stepOf code i) := step_of_head hhead
  have hs' : m'.step (fun p e => (code p e).ambient a r) = some (m'.stepOf _ i) :=
    step_of_head (h.ready_eq ▸ hhead)
  refine ⟨heq, hshared, hopened, hcount, hrunning, hnodup, hinResume, ?_, hunregistered,
    h.proper.step hs, h.proper'.step hs'⟩
  refine h.proper.tidy.atHome_step h.atHome hs fun k v next hk hc => ?_
  obtain rfl := Option.some.inj (hhead.symm.trans hk)
  exact ((drivesPlainly_act hrule hhead hc).2.2.2.1 v rfl).1

/-- Whoever is in a call stays in it while another routine makes a step. -/
theorem inResume_step (hnot : i ∉ calls) : ∀ j ∈ calls, (m.stepOf code i).InResume j a := by
  intro j hj
  refine (h.inResume j hj).step h.proper.tidy (step_of_head hhead) ?_
  rw [hhead]
  rintro ⟨⟩
  exact hnot hj

/-- The same routine makes a step in both machines, and no call of `a` begins or comes back. -/
theorem advance (hnot : i ∉ calls) (hi : (m.routine i).control.isActive = true)
    (hrule : m.drivesPlainly a r = true)
    (hres : ∀ v next, (m.routine i).control = .running (.act (.resume a v) next) →
      m.isCoroutine a = false)
    (heq : m'.stepOf (fun p e => (code p e).ambient a r) i =
      (m.stepOf code i).ambient a r calls entries')
    (hshared : entries'.items.filter (· != a) = ((m.stepOf code i).registry (.registry r)).items)
    (hopened : (m.stepOf code i).hasPlace (.registry r) ∨ entries' = .empty)
    (hcount : entries'.items.count a = entries.items.count a)
    (hunregistered : ∀ j, .registered (.registry r) a ∉ ((m.stepOf code i).routine j).stack) :
    Mirrors a r calls entries' (m.stepOf code i)
      (m'.stepOf (fun p e => (code p e).ambient a r) i) := by
  have hs : m.step code = some (m.stepOf code i) := step_of_head hhead
  have ht := h.proper.tidy
  refine h.of_step hhead hrule heq hshared hopened (hcount.trans_le h.count) (fun hco hrun => ?_)
    h.nodup (h.inResume_step hhead hnot) hunregistered
  have hmain : a ≠ .main := by
    simp only [isCoroutine, Bool.and_eq_true, bne_iff_ne] at hco
    exact hco.1
  -- Nobody begins to listen to `a` in this step, so whoever listens is in a call.
  have hbefore : ∀ l, ((m.stepOf code i).routine l).control = .listening a →
      (m.routine l).control = .listening a ∧ m.status a = .running := by
    intro l hl
    have hli : l ≠ i := by
      rintro rfl
      obtain ⟨b, next, hc, ⟨v, rfl⟩ | ⟨q, v, rfl⟩⟩ :=
        h.proper.resumes_of_listening hi hs hhead hl hco hrun
      · have hno := hres v next hc
        rw [← h.proper.sound.isCoroutine_step hs (lt_of_not_isCoroutine hmain hno), hco] at hno
        cases hno
      · exact (drivesPlainly_act hrule hhead hc).2.2.1 q v rfl
    obtain ⟨hl₀, hstatus⟩ := ht.listening_of_step hs (by rw [hhead]; simpa using hli.symm) hl
    exact ⟨hl₀, hstatus.trans hrun⟩
  obtain ⟨l, hout⟩ := (ht.step hs).exists_listener hrun hmain
  have hrun₀ := (hbefore l (((ht.step hs).listener a l).1 hout)).2
  obtain ⟨hcount₀, hcalls⟩ :=
    h.running ((h.proper.sound.isCoroutine_step hs (lt_of_status hrun₀)).symm.trans hco) hrun₀
  exact ⟨hcount.trans hcount₀, fun l hl => hcalls l (hbefore l hl).1⟩

/-- A step that does not use the registry, and neither resumes `a` nor hands out through it. -/
theorem step_other (hi : (m.routine i).control.isActive = true) (hnot : i ∉ calls)
    (hrule : m.drivesPlainly a r = true) (hr : m.usedRegistry i ≠ some r)
    (hact : ∀ b next, (m.routine i).control = .running (.act b next) → b.ambient a r = b) :
    Mirrors a r calls entries (m.stepOf code i)
      (m'.stepOf (fun p e => (code p e).ambient a r) i) := by
  have ht := h.proper.tidy
  have hp : m.Passes (fun q => m.usedRegistry i = some q) i (m.stepOf code i) := ht.stepOf hi fun _ => id
  have hlook : ∀ next, (m.routine i).control ≠ .running (.ask (.registered r) next) := by
    intro next hc
    have hspares := (drivesPlainly_ask hrule hhead hc).2
    simp [Query.spares] at hspares
  have heq : m'.stepOf (fun p e => (code p e).ambient a r) i =
      (m.stepOf code i).ambient a r calls entries := by
    rw [h.eq]
    exact stepOf_ambient hnot h.made h.opened hact hlook hr
  refine h.advance hhead hnot hi hrule ?_ heq ?_ ?_ rfl ?_
  · intro v next hc
    have hresume := hact _ _ hc
    simp [Act.ambient] at hresume
  · rw [hp.registry_eq ht hi hr]
    exact h.shared
  · -- What stands in the registry after the step stands in a registry that was made.
    by_contra hcontra
    obtain ⟨hclosed, hne⟩ := not_or.1 hcontra
    have hplace := h.opened.resolve_right hne
    have hi' : (m'.routine i).control.isActive = true := by
      rw [h.eq, control_ambient]
      cases hc : (m.routine i).control <;> first | rfl | (rw [hc] at hi; cases hi)
    have hr' : m'.usedRegistry i ≠ some r := by
      rw [h.eq, usedRegistry_ambient hnot hact]
      exact hr
    have hp' : m'.Passes (fun q => m'.usedRegistry i = some q) i
        (m'.stepOf (fun p e => (code p e).ambient a r) i) := h.proper'.tidy.stepOf hi' fun _ => id
    have hsame := hp'.registry_eq h.proper'.tidy hi' hr'
    rw [heq, registry_ambient, setRegistry_of_not_hasPlace hclosed, registry_of_not_hasPlace hclosed,
      h.eq, registry_ambient_self hplace] at hsame
    exact hne hsame.symm
  · exact fun j hmem => h.unregistered j (hp.registered_mem ht hi hr hmem)

/-- The routine uses the registry, but touches no entry of `a`. -/
theorem advance_using (hi : (m.routine i).control.isActive = true) (hnot : i ∉ calls)
    (hrule : m.drivesPlainly a r = true)
    (hres : ∀ v next, (m.routine i).control = .running (.act (.resume a v) next) →
      m.isCoroutine a = false)
    (heq : m'.stepOf (fun p e => (code p e).ambient a r) i =
      (m.stepOf code i).ambient a r calls entries')
    (hshared : entries'.items.filter (· != a) = ((m.stepOf code i).registry (.registry r)).items)
    (hopened : (m.stepOf code i).hasPlace (.registry r) ∨ entries' = .empty)
    (hcount : entries'.items.count a = entries.items.count a)
    (hown : .registered (.registry r) a ∉ ((m.stepOf code i).routine i).stack) :
    Mirrors a r calls entries' (m.stepOf code i)
      (m'.stepOf (fun p e => (code p e).ambient a r) i) := by
  have ht := h.proper.tidy
  have hp : m.Passes (fun q => m.usedRegistry i = some q) i (m.stepOf code i) := ht.stepOf hi fun _ => id
  refine h.advance hhead hnot hi hrule hres heq hshared hopened hcount fun j hmem => ?_
  by_cases hji : j = i
  · exact hown (hji ▸ hmem)
  · rw [hp.stack ht hi hji] at hmem
    exact h.unregistered j hmem

/-- The operation fails at once. -/
theorem advance_failing (hnot : i ∉ calls) (hrule : m.drivesPlainly a r = true) {b : Act P V}
    (hc : (m.routine i).control = .running (.act b next)) {f : Failure}
    (hb : ∀ v, b = .resume a v → m.isCoroutine a = false)
    (hstep : m.stepOf code i = (m.pushFrame i (.next next)).fail i f)
    (hstep' : m'.stepOf (fun p e => (code p e).ambient a r) i =
      (m'.pushFrame i (.next fun o => (next o).ambient a r)).fail i f) :
    Mirrors a r calls entries (m.stepOf code i)
      (m'.stepOf (fun p e => (code p e).ambient a r) i) := by
  have hi : (m.routine i).control.isActive = true := by rw [hc]; rfl
  have heq : m'.stepOf (fun p e => (code p e).ambient a r) i =
      (m.stepOf code i).ambient a r calls entries := by
    rw [hstep', hstep, ← fail_ambient, ← pushFrame_ambient hnot, h.eq]
    rfl
  refine h.advance_using hhead hi hnot hrule ?_ heq ?_ ?_ rfl ?_
  · intro v next hresume
    rw [hc] at hresume
    exact hb v (Code.act.inj (Control.running.inj hresume)).1
  · rw [hstep]
    exact h.shared
  · rw [hstep]
    exact h.opened
  · rw [hstep, fail, reply, setControl, pushFrame, update_update, routine_update_self (lt_of_isActive hi)]
    simpa using h.unregistered i

/-- Code changes the registry itself. -/
theorem step_register (hnot : i ∉ calls) (hrule : m.drivesPlainly a r = true)
    {op : Registry.Op RoutineId} {next : Option RoutineId → Code P V σ V}
    (hc : (m.routine i).control = .running (.ask (.register r op) next)) :
    ∃ entries', Mirrors a r calls entries' (m.stepOf code i)
      (m'.stepOf (fun p e => (code p e).ambient a r) i) := by
  have hi : (m.routine i).control.isActive = true := by rw [hc]; rfl
  have hlt := lt_of_isActive hi
  obtain ⟨hplace, hspares⟩ := drivesPlainly_ask hrule hhead hc
  replace hplace : m.hasPlace (.registry r) := hplace rfl
  replace hspares : op.spares a = true := by simpa [Query.spares] using hspares
  obtain ⟨hitem, hfilter, hcount⟩ := Registry.apply_spares hspares h.shared
  have hstep : m.stepOf code i = (m.setRegistry (.registry r)
      ((m.registry (.registry r)).apply op).2).setControl i
        (.running (next ((m.registry (.registry r)).apply op).1.item)) := by
    rw [stepOf_running hc]
    rfl
  have heq : m'.stepOf (fun p e => (code p e).ambient a r) i =
      (m.stepOf code i).ambient a r calls (entries.apply op).2 := by
    rw [hstep, ← setControl_ambient, ← setRegistry_ambient_both, h.eq]
    unfold stepOf
    rw [control_ambient, hc]
    simp only [Control.ambient, Code.ambient, exec, answer]
    rw [registry_ambient_self hplace, hitem]
  refine ⟨_, h.advance_using hhead hi hnot hrule (by rw [hc]; simp) heq ?_ (.inl ?_) hcount ?_⟩
  · rw [hfilter, hstep, setControl, registry_update, registry_setRegistry hplace, if_pos rfl]
  · rw [hstep]
    exact (hasPlace_setRegistry ..).2 hplace
  · rw [hstep, setControl, routine_update_self (by simpa using hlt), routine_setRegistry]
    exact h.unregistered i

/-- Somebody else is resumed on the registry. -/
theorem step_resumeOn (hnot : i ∉ calls) (hrule : m.drivesPlainly a r = true)
    (hc : (m.routine i).control = .running (.act (.resumeOn r c v) next)) :
    ∃ entries', Mirrors a r calls entries' (m.stepOf code i)
      (m'.stepOf (fun p e => (code p e).ambient a r) i) := by
  have hi : (m.routine i).control.isActive = true := by rw [hc]; rfl
  have hlt := lt_of_isActive hi
  have ht := h.proper.tidy
  obtain ⟨hplace, -, hother, -⟩ := drivesPlainly_act hrule hhead hc
  replace hplace : m.hasPlace (.registry r) := hplace rfl
  have hca : c ≠ a := by
    rintro rfl
    exact hother r v rfl
  have hc' : (m'.routine i).control =
      .running (.act (.resumeOn r c v) fun o => (next o).ambient a r) := by
    rw [h.eq, control_ambient, hc]
    rfl
  by_cases hco : m.isCoroutine c = true
  · have hstep : m.stepOf code i = (m.calling i r c next).resume i c (.plain v) := stepOf_resumeOn hc hco
    have heq : m'.stepOf (fun p e => (code p e).ambient a r) i =
        (m.stepOf code i).ambient a r calls (entries.push c) := by
      rw [stepOf_resumeOn hc' (by rw [h.eq, isCoroutine_ambient, hco]), hstep, ← resume_ambient,
        ← calling_ambient hnot hplace, h.eq]
    obtain ⟨ht₁, hcontrol₁, -⟩ :=
      (show Arranges (· = r) i m (m.calling i r c next) from arranges_calling).own_eq ht hi
    have htr : (m.calling i r c next).Transfers i ((m.calling i r c next).resume i c (.plain v)) :=
      transfers_calling hlt hco _
    have hreg : (m.stepOf code i).registry (.registry r) = (m.registry (.registry r)).push c := by
      rw [hstep, registry, htr.registries, ← registry, registry_calling, registry_setRegistry hplace,
        if_pos rfl]
    refine ⟨_, h.advance_using hhead hi hnot hrule (by rw [hc]; simp) heq ?_ (.inl ?_) ?_ ?_⟩
    · rw [hreg]
      simp [hca, h.shared]
    · rw [hstep, hasPlace_congr htr.registries]
      exact (hasPlace_setRegistry ..).2 hplace
    · simp [hca]
    · rw [hstep, htr.stack ht₁ (hcontrol₁ ▸ hi), routine_calling hlt, if_pos rfl]
      simpa [hca.symm] using h.unregistered i
  · refine ⟨_, h.advance_failing hhead hnot hrule hc (by simp) (f := .detached) ?_ ?_⟩
    · rw [stepOf_act hc, begin, onCoroutine, isCoroutine_pushFrame, if_neg hco]
    · rw [stepOf_act hc', begin, onCoroutine, isCoroutine_pushFrame, h.eq, isCoroutine_ambient,
        if_neg hco]

/-- Somebody else is suspended through the registry. -/
theorem step_suspend (hnot : i ∉ calls) (hrule : m.drivesPlainly a r = true)
    (hc : (m.routine i).control = .running (.act (.suspend r v) next)) :
    ∃ entries', Mirrors a r calls entries' (m.stepOf code i)
      (m'.stepOf (fun p e => (code p e).ambient a r) i) := by
  have hi : (m.routine i).control.isActive = true := by rw [hc]; rfl
  have hlt := lt_of_isActive hi
  have ht := h.proper.tidy
  obtain ⟨hplace, -, -, -, hother⟩ := drivesPlainly_act hrule hhead hc
  replace hplace : m.hasPlace (.registry r) := hplace rfl
  replace hother : i ≠ a := hother v rfl
  have hc' : (m'.routine i).control =
      .running (.act (.suspend r v) fun o => (next o).ambient a r) := by
    rw [h.eq, control_ambient, hc]
    rfl
  have hreg' : m'.registry (.registry r) = entries := by rw [h.eq, registry_ambient_self hplace]
  have hentries : (entries.items.erase i).filter (· != a) = (m.registry (.registry r)).items.erase i := by
    rw [← List.erase_filter, h.shared]
  have hfinds : m'.FindsEntry i (.registry r) ↔ m.FindsEntry i (.registry r) := by
    unfold FindsEntry
    rw [hreg', h.eq, isCoroutine_ambient, ← h.shared]
    simp [hother]
  by_cases hfind : m.FindsEntry i (.registry r)
  · have hstep : m.stepOf code i = _ := stepOf_suspend_of_findsEntry hc hfind
    have heq : m'.stepOf (fun p e => (code p e).ambient a r) i =
        (m.stepOf code i).ambient a r calls ⟨entries.items.erase i⟩ := by
      rw [stepOf_suspend_of_findsEntry hc' (hfinds.2 hfind), hreg', hstep, ← yield_ambient,
        ← pushFrame_ambient hnot, ← setRegistry_ambient_both, h.eq]
      rfl
    have htr : Transfers _ i _ := transfers_yield_plain (m := (m.setRegistry (.registry r)
      ⟨(m.registry (.registry r)).items.erase i⟩).pushFrame i (.next next)) hfind.ne_main v
    have ha : Arranges (· = r) i m ((m.setRegistry (.registry r)
        ⟨(m.registry (.registry r)).items.erase i⟩).pushFrame i (.next next)) :=
      (Arranges.refl.setRegistry _ (fun _ heq => (Place.registry.inj heq).symm) _).pushFrame _
        (fun _ hr => by cases hr)
    obtain ⟨ht₁, hcontrol₁, -⟩ := ha.own_eq ht hi
    refine ⟨_, h.advance_using hhead hi hnot hrule (by rw [hc]; simp) heq ?_ (.inl ?_) ?_ ?_⟩
    · rw [hentries, registry_stepOf_suspend hc hfind.1]
    · rw [hstep, hasPlace_congr htr.registries]
      exact (hasPlace_setRegistry ..).2 hplace
    · exact List.count_erase_of_ne hother.symm
    · rw [hstep, htr.stack ht₁ (hcontrol₁ ▸ hi), pushFrame, routine_update_self (by simpa using hlt),
        routine_setRegistry]
      simpa using h.unregistered i
  · refine ⟨_, h.advance_failing hhead hnot hrule hc (by simp) (f := .noResumePoint) ?_ ?_⟩
    · exact stepOf_suspend_of_not_findsEntry hc hfind
    · exact stepOf_suspend_of_not_findsEntry hc' fun hf => hfind (hfinds.1 hf)

/-- The resume of somebody else comes back and withdraws its entry. -/
theorem step_registered (hnot : i ∉ calls) (hrule : m.drivesPlainly a r = true)
    {o : Outcome V (Parcel V)} {st : List (Frame P V σ)} (hc : (m.routine i).control = .returning o)
    (hst : (m.routine i).stack = .registered (.registry r) c :: st) :
    ∃ entries', Mirrors a r calls entries' (m.stepOf code i)
      (m'.stepOf (fun p e => (code p e).ambient a r) i) := by
  have hi : (m.routine i).control.isActive = true := by rw [hc]; rfl
  have hlt := lt_of_isActive hi
  have hother : c ≠ a := by
    rintro rfl
    exact h.unregistered i (by rw [hst]; exact List.mem_cons_self)
  have hspares : Registry.Op.spares a (.erase c) = true := by simpa [Registry.Op.spares] using hother
  obtain ⟨-, hfilter, hcount⟩ := Registry.apply_spares hspares h.shared
  have hstep : m.stepOf code i = ((m.update i fun x => { x with stack := st }).setRegistry
      (.registry r) ((m.registry (.registry r)).erase c)).reply i o := by
    rw [stepOf_returning hc hst, unwind, registry_update]
  have heq : m'.stepOf (fun p e => (code p e).ambient a r) i =
      (m.stepOf code i).ambient a r calls (entries.erase c) := by
    have hpop : (m.ambient a r calls entries).update i
          (fun x => { x with stack := st.map (Frame.ambient a r) }) =
        (m.update i fun x => { x with stack := st }).ambient a r calls entries :=
      update_ambient (by simp [Routine.ambient, hnot])
    have hst' : ((m.ambient a r calls entries).routine i).stack =
        .registered (.registry r) c :: st.map (Frame.ambient a r) := by
      rw [routine_ambient hlt]
      simp [Routine.ambient, hnot, hst, Frame.ambient]
    rw [hstep, ← reply_ambient, ← setRegistry_ambient_both, ← hpop, h.eq]
    unfold stepOf
    simp only [control_ambient, hc, Control.ambient, hst', unwind, registry_update,
      registry_ambient_opened h.opened]
  have hreg : (m.stepOf code i).registry (.registry r) = (m.registry (.registry r)).erase c := by
    rw [hstep, reply, setControl, setRegistry_eq_update_comm, update_update, registry_update,
      registry_setRegistry_erase]
  refine ⟨_, h.advance_using hhead hi hnot hrule (by rw [hc]; simp) heq ?_ ?_ hcount ?_⟩
  · rw [hreg]
    exact hfilter
  · rw [hstep]
    refine h.opened.imp (fun hp => (hasPlace_setRegistry (m := m) (.registry r) _ (.registry r)).2 hp) ?_
    rintro rfl
    rfl
  · rw [hstep, reply, setControl, setRegistry_eq_update_comm, update_update,
      routine_update_self (by simpa using hlt), routine_setRegistry]
    intro hmem
    exact h.unregistered i (by rw [hst]; exact List.mem_cons_of_mem _ hmem)

/-- The body of `a` hands out: the newest entry of `a` is used up. -/
theorem step_yield (hnot : i ∉ calls) (hrule : m.drivesPlainly a r = true)
    (hc : (m.routine i).control = .running (.act (.yield a v) next)) :
    ∃ entries', Mirrors a r calls entries' (m.stepOf code i)
      (m'.stepOf (fun p e => (code p e).ambient a r) i) := by
  obtain ⟨-, -, -, hown, -⟩ := drivesPlainly_act hrule hhead hc
  obtain ⟨rfl, hco, hcanceled⟩ := hown v rfl
  have hi : (m.routine i).control.isActive = true := by rw [hc]; rfl
  have hlt := lt_of_isActive hi
  have ht := h.proper.tidy
  have hmain : i ≠ .main := by
    simp only [isCoroutine, Bool.and_eq_true, bne_iff_ne] at hco
    exact hco.1
  have hrun : m.status i = .running := (h.atHome.of_isActive hi).resolve_right hcanceled
  -- Somebody listens, so there is an entry.
  obtain ⟨hcount, hcalls⟩ := h.running hco hrun
  obtain ⟨l, hout⟩ := ht.exists_listener hrun hmain
  have hmem : i ∈ entries.items := by
    have hpos := List.length_pos_of_mem (hcalls l ((ht.listener i l).1 hout))
    exact List.count_pos_iff.1 (by omega)
  have hplace : m.hasPlace (.registry r) := by
    refine h.opened.resolve_right ?_
    rintro rfl
    cases hmem
  have hreg' : m'.registry (.registry r) = entries := by rw [h.eq, registry_ambient_self hplace]
  have hc' : (m'.routine i).control =
      .running (.act (.suspend r v) fun o => (next o).ambient i r) := by
    rw [h.eq, control_ambient, hc]
    simp [Control.ambient, Code.ambient, Act.ambient]
  have hfind : m'.FindsEntry i (.registry r) :=
    ⟨by rw [h.eq, isCoroutine_ambient, hco], by rwa [hreg']⟩
  have hstep : m.stepOf code i = (m.pushFrame i (.next next)).yield i i (.plain v) := by
    rw [stepOf_act hc, begin, onCoroutine, isCoroutine_pushFrame, if_pos hco]
  have heq : m'.stepOf (fun p e => (code p e).ambient i r) i =
      (m.stepOf code i).ambient i r calls ⟨entries.items.erase i⟩ := by
    rw [stepOf_suspend_of_findsEntry hc' hfind, hreg', hstep, ← yield_ambient,
      ← pushFrame_ambient hnot, h.eq, setRegistry_ambient_self]
    rfl
  obtain ⟨ht₁, hcontrol₁, -⟩ := (show Arranges (· = r) i m (m.pushFrame i (.next next)) from
    Arranges.refl.pushFrame _ (fun _ hr => by cases hr)).own_eq ht hi
  have htr : (m.pushFrame i (.next next)).Transfers i _ := transfers_yield_plain hmain v
  have hregistries : (m.stepOf code i).registries = m.registries := by
    rw [hstep, htr.registries]
    rfl
  refine ⟨_, h.of_step hhead hrule heq ?_ (.inl ?_) ?_ (fun _ hrun' => ?_) h.nodup
    (h.inResume_step hhead hnot) fun j hmem => ?_⟩
  · rw [registry, hregistries, ← registry, Registry.filter_ne_erase, h.shared]
  · rwa [hasPlace_congr hregistries]
  · exact List.erase_sublist.count_le i |>.trans h.count
  · -- The coroutine is suspended now.
    have hrun₁ : (m.pushFrame i (.next next)).status i = .running := by rwa [status_pushFrame]
    obtain ⟨l, hout⟩ := ht₁.exists_listener hrun₁ hmain
    rw [hstep, status, routine_yield ht₁ (hcontrol₁ ▸ hi) hrun₁ hout] at hrun'
    simp [handedOut] at hrun'
  · rw [hstep, htr.stack ht₁ (hcontrol₁ ▸ hi), pushFrame, routine_update] at hmem
    split at hmem
    · exact h.unregistered j (by simpa using hmem)
    · exact h.unregistered j hmem

section Resumed

variable (hnot : i ∉ calls) (hc : (m.routine i).control = .running (.act (.resume a v) next))
  (hco : m.isCoroutine a = true)
include hnot hc hco

omit hhead in
/-- A resume of `a` is one on the registry in the other machine: the entry is put there, and the
call is under way. -/
theorem stepOf_resume_ambient (hplace : m.hasPlace (.registry r)) :
    m'.stepOf (fun p e => (code p e).ambient a r) i =
      (m.stepOf code i).ambient a r (i :: calls) (entries.push a) := by
  have hc' : (m'.routine i).control =
      .running (.act (.resumeOn r a v) fun o => (next o).ambient a r) := by
    rw [h.eq, control_ambient, hc]
    simp [Control.ambient, Code.ambient, Act.ambient]
  have hcalling : m'.calling i r a (fun o => (next o).ambient a r) =
      (m.pushFrame i (.next next)).ambient a r (i :: calls) (entries.push a) := by
    have hnext : (m.ambient a r calls (entries.push a)).pushFrame i
        (.next fun o => (next o).ambient a r) =
          (m.pushFrame i (.next next)).ambient a r calls (entries.push a) :=
      pushFrame_ambient hnot (.next next)
    rw [h.eq, calling, registry_ambient_self hplace, setRegistry_ambient_self, hnext]
    refine update_ambient_calls ?_ fun j hj => by simp [hj]
    simp [Routine.ambient, hnot]
  rw [stepOf_resumeOn hc' (by rw [h.eq, isCoroutine_ambient, hco]), hcalling, resume_ambient,
    stepOf_resume hc hco]

/-- While `a` runs, all its entries belong to the calls: if the resume was accepted it is the only
one, and if it was refused `a` has been running before. -/
theorem running_stepOf_resume (hfree : (m.status a).isResumable = true → calls = [])
    (hrun : (m.stepOf code i).status a = .running) :
    (entries.push a).items.count a = (i :: calls).length ∧
      ∀ l, ((m.stepOf code i).routine l).control = .listening a → l ∈ i :: calls := by
  have ht := h.proper.tidy
  have ht' : (m.stepOf code i).Tidy := ht.step (step_of_head hhead)
  have hlength : (entries.push a).items.count a = entries.items.count a + 1 := by simp
  cases hres : (m.status a).isResumable with
  | true =>
    obtain rfl := hfree hres
    have hzero : entries.items.count a = 0 := Nat.le_zero.1 h.count
    refine ⟨by rw [hlength, hzero]; rfl, fun l hl => ?_⟩
    have hout := (ht'.listener a l).2 hl
    have hout' := (ht'.listener a i).2 (ht.listens_stepOf_resume hc hco hres)
    exact List.mem_singleton.2 (Slot.awaited.inj (hout.symm.trans hout'))
  | false =>
    have hrefused := stepOf_resume_refused code hc hco hres
    have hrun₀ : m.status a = .running := by
      rw [hrefused, fail, reply, setControl, status, routine_update] at hrun
      rw [← status_pushFrame (i := i) (.next next), status]
      split at hrun <;> exact hrun
    obtain ⟨hcount, hcalls⟩ := h.running hco hrun₀
    refine ⟨by rw [hlength, hcount]; rfl, fun l hl => ?_⟩
    by_cases hli : l = i
    · exact hli ▸ List.mem_cons_self
    · rw [hrefused, fail, reply, setControl, routine_update_of_ne (Ne.symm hli), pushFrame,
        routine_update_of_ne (Ne.symm hli)] at hl
      exact List.mem_cons_of_mem _ (hcalls l hl)

end Resumed

/-- Somebody resumes `a`: the resume gets its entry. If it is accepted, no other one may be there whose entry
has not been withdrawn. -/
theorem step_resume (hnot : i ∉ calls) (hrule : m.drivesPlainly a r = true)
    (hc : (m.routine i).control = .running (.act (.resume a v) next))
    (hfree : (m.status a).isResumable = true → calls = []) :
    ∃ calls' entries', Mirrors a r calls' entries' (m.stepOf code i)
      (m'.stepOf (fun p e => (code p e).ambient a r) i) := by
  have hi : (m.routine i).control.isActive = true := by rw [hc]; rfl
  have hplace : m.hasPlace (.registry r) := (drivesPlainly_act hrule hhead hc).2.1 v rfl
  by_cases hco : m.isCoroutine a = true
  · have ht := h.proper.tidy
    have htr := transfers_stepOf_resume code hc hco
    have hregistries : (m.stepOf code i).registries = m.registries := by
      rw [htr.registries]
      rfl
    refine ⟨i :: calls, _, h.of_step hhead hrule (h.stepOf_resume_ambient hnot hc hco hplace) ?_
      (.inl ?_) ?_ (fun _ => h.running_stepOf_resume hhead hnot hc hco hfree)
      (List.nodup_cons.2 ⟨hnot, h.nodup⟩) (fun j hj => ?_) fun j hmem => ?_⟩
    · rw [registry, hregistries, ← registry, ← h.shared]
      simp
    · rwa [hasPlace_congr hregistries]
    · simpa using h.count
    · rcases List.mem_cons.1 hj with rfl | hj
      · exact ht.inResume_stepOf_resume hc hco
      · exact h.inResume_step hhead hnot j hj
    · rw [htr.stack (ht.pushNext next hi) (isActive_pushFrame hi _)] at hmem
      refine h.unregistered j ?_
      rw [pushFrame, routine_update] at hmem
      split at hmem
      · simpa using hmem
      · exact hmem
  · have hno : m.isCoroutine a = false := by simpa using hco
    have hc' : (m'.routine i).control =
        .running (.act (.resumeOn r a v) fun o => (next o).ambient a r) := by
      rw [h.eq, control_ambient, hc]
      simp [Control.ambient, Code.ambient, Act.ambient]
    refine ⟨calls, _, h.advance_failing hhead hnot hrule hc (f := .detached) (fun _ _ => hno) ?_ ?_⟩
    · rw [stepOf_act hc, begin, onCoroutine, isCoroutine_pushFrame, if_neg hco]
    · rw [stepOf_act hc', begin, onCoroutine, isCoroutine_pushFrame, h.eq, isCoroutine_ambient, if_neg hco]

omit hhead in
variable (code) in
/-- A resume of `a` has come back, and its entry is withdrawn. -/
theorem withdraw (hi : i ∈ calls) {o : Outcome V (Parcel V)} (hc : (m.routine i).control = .returning o)
    (hhead : m.ready.head? = some i) :
    Mirrors a r (calls.erase i) (entries.erase a) m
      (m'.stepOf (fun p e => (code p e).ambient a r) i) := by
  have hlt : i.val < m.routines.size := lt_of_ne_ended (by simp [hc])
  have hlength := List.length_erase_of_mem hi
  have hpos := List.length_pos_of_mem hi
  have hcount := Registry.count_items_erase entries a
  have heq : m'.stepOf (fun p e => (code p e).ambient a r) i =
      m.ambient a r (calls.erase i) (entries.erase a) := by
    have hst' : ((m.ambient a r calls entries).routine i).stack =
        .registered (.registry r) a :: (m.routine i).stack.map (Frame.ambient a r) := by
      rw [routine_ambient hlt]
      simp [Routine.ambient, hi]
    rw [h.eq]
    unfold stepOf
    simp only [control_ambient, hc, Control.ambient, hst', unwind, registry_update,
      registry_ambient_opened h.opened]
    rw [setRegistry_eq_update_comm, setRegistry_ambient_self, reply, setControl, update_update]
    refine update_ambient_calls ?_ fun j hj => List.mem_erase_of_ne hj
    have hout : i ∉ calls.erase i := h.nodup.not_mem_erase
    simp [Routine.ambient, hi, hout, hc, Control.ambient]
  constructor
  case eq => exact heq
  case shared => rw [Registry.filter_ne_items_erase, h.shared]
  case opened =>
    refine h.opened.imp_right ?_
    rintro rfl
    rfl
  case count =>
    have hle := h.count
    omega
  case running =>
    intro hco hrun
    obtain ⟨hcount₀, hcalls⟩ := h.running hco hrun
    refine ⟨by omega, fun l hl => (List.Nodup.mem_erase_iff h.nodup).2 ⟨?_, hcalls l hl⟩⟩
    rintro rfl
    cases hc.symm.trans hl
  case nodup => exact h.nodup.erase i
  case inResume => exact fun j hj => h.inResume j (List.mem_of_mem_erase hj)
  case atHome => exact h.atHome
  case unregistered => exact h.unregistered
  case proper => exact h.proper
  case proper' => exact h.proper'.step (step_of_head (h.ready_eq ▸ hhead))

omit hhead in
/-- The turn passes on in both machines. -/
theorem passTurn : Mirrors a r calls entries m.passTurn m'.passTurn := by
  have hroutine := routine_passTurn m
  constructor
  case eq => rw [h.eq, passTurn_ambient]
  case shared => rw [registry_passTurn, h.shared]
  case opened =>
    refine h.opened.imp_left fun hp => ?_
    rwa [hasPlace, registries_passTurn]
  case count => exact h.count
  case running =>
    rw [isCoroutine, status, hroutine]
    simp only [hroutine]
    exact h.running
  case nodup => exact h.nodup
  case inResume => exact fun j hj => (h.inResume j hj).congr (by rw [hroutine])
  case atHome =>
    rw [hroutine]
    exact h.atHome
  case unregistered =>
    intro j
    rw [hroutine]
    exact h.unregistered j
  case proper => exact h.proper.passTurn
  case proper' => exact h.proper'.passTurn

/-- The routine looks at the registry or changes it, and does not do so for `a`. -/
theorem step_using (hnot : i ∉ calls) (hrule : m.drivesPlainly a r = true)
    (hr : m.usedRegistry i = some r) :
    ∃ entries', Mirrors a r calls entries' (m.stepOf code i)
      (m'.stepOf (fun p e => (code p e).ambient a r) i) := by
  unfold usedRegistry at hr
  split at hr
  · next b next hc =>
    cases b with
    | resumeOn q c v =>
      obtain rfl : q = r := Option.some.inj hr
      exact h.step_resumeOn hhead hnot hrule hc
    | suspend q v =>
      obtain rfl : q = r := Option.some.inj hr
      exact h.step_suspend hhead hnot hrule hc
    | _ => cases hr
  · next q next hc =>
    cases q with
    | register q op =>
      obtain rfl : q = r := Option.some.inj hr
      exact h.step_register hhead hnot hrule hc
    | _ => cases hr
  · next o hc =>
    obtain ⟨f, hf, hused⟩ := Option.bind_eq_some_iff.1 hr
    obtain ⟨st, hst⟩ := List.head?_eq_some_iff.1 hf
    cases f with
    | registered p c =>
      cases p with
      | registry q =>
        obtain rfl : q = r := Option.some.inj hused
        exact h.step_registered hhead hnot hrule hc hst
      | context ctx => cases hused
    | _ => cases hused
  · cases hr

/-- A routine that cannot go on is no longer ready. -/
theorem step_idle (hrule : m.drivesPlainly a r = true)
    (hi : (m.routine i).control.isActive = false) :
    Mirrors a r calls entries (m.stepOf code i)
      (m'.stepOf (fun p e => (code p e).ambient a r) i) := by
  have hstep : m.stepOf code i = m.pause i := stepOf_idle hi
  have heq : m'.stepOf (fun p e => (code p e).ambient a r) i =
      (m.stepOf code i).ambient a r calls entries := by
    rw [stepOf_idle (by rwa [h.eq, isActive_ambient]), hstep, ← pause_ambient, h.eq]
  refine h.of_step hhead hrule heq ?_ ?_ h.count ?_ h.nodup ?_ ?_
  all_goals rw [hstep]
  · exact h.shared
  · exact h.opened
  · exact h.running
  · exact h.inResume
  · exact h.unregistered

variable (code) in
/-- The same routine makes a step in both machines. If it is the one that resumes `a`, and this is accepted,
every earlier resume of `a` must have come back. -/
theorem step (hactive : (m.routine i).control.isActive = true → i ∉ calls) (hrule : m.drivesPlainly a r = true)
    (hfree : ∀ v next, (m.routine i).control = .running (.act (.resume a v) next) →
      (m.status a).isResumable = true → calls = []) :
    ∃ calls' entries', Mirrors a r calls' entries' (m.stepOf code i)
      (m'.stepOf (fun p e => (code p e).ambient a r) i) := by
  cases hi : (m.routine i).control.isActive with
  | false => exact ⟨calls, entries, h.step_idle hhead hrule hi⟩
  | true =>
    have hnot := hactive hi
    by_cases hact : ∀ b next, (m.routine i).control = .running (.act b next) → b.ambient a r = b
    · by_cases hr : m.usedRegistry i = some r
      · exact ⟨calls, h.step_using hhead hnot hrule hr⟩
      · exact ⟨calls, entries, h.step_other hhead hi hnot hrule hr hact⟩
    · -- An operation that names `a`.
      push Not at hact
      obtain ⟨b, next, hc, hb⟩ := hact
      cases b with
      | resume c v =>
        obtain rfl : c = a := by
          by_contra hca
          exact hb (if_neg hca)
        exact h.step_resume hhead hnot hrule hc (hfree v next hc)
      | yield c v =>
        obtain rfl : c = a := by
          by_contra hca
          exact hb (if_neg hca)
        exact ⟨calls, h.step_yield hhead hnot hrule hc⟩
      | _ => exact absurd rfl hb

end Mirrors

end Machine

end OneShot
