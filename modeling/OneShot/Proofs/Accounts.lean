import OneShot.Proofs.Lifecycle
import OneShot.Proofs.Registered
import OneShot.Proofs.SingleLine

/-!
# What registries count

`ReachesUnder.accountsFor` says what stands in a registry, be it one of the program or that of a
context. There is no entry without a call. Entries of a coroutine stand there for all its calls as
long as one of them waits. And whenever no call is about to come back, the entries are exactly the
coroutines whose resumes wait, each of them once: so the size of the registry is their number.

A registry of the program has to be used by registered resumes and suspensions alone. What `handle`,
effects and continuations do to the registry of a context needs no such rule.
-/

namespace OneShot.Machine

open Control

variable {P V σ : Type} {code : P → Entry V → Code P V σ V} {m m' : Machine P V σ}
  {i j c d : RoutineId} {p : Place}

/-! ## Contexts -/

theorem Routine.stack_of_call? {r : Routine P V σ} (h : r.call? p = some c) :
    ∃ st, r.stack = .registered p c :: st := by
  unfold Routine.call? at h
  split at h
  · next q e st hst =>
    split at h
    · next hq =>
      subst hq
      exact ⟨st, by rw [hst, Option.some.inj h]⟩
    · cases h
  · cases h

/-- A call for a handled body has its entry unless the body's signal has come. -/
theorem Routine.entries_eq (r : Routine P V σ) (ctx : ContextId) (c : RoutineId) :
    r.entries ctx c =
      if r.call? (.context ctx) = some c ∧ r.control.hasEntry = true then 1 else 0 := by
  unfold Routine.entries Routine.call?
  cases r.stack with
  | nil => rfl
  | cons f st =>
    cases f with
    | registered q e =>
      cases q with
      | registry r => rfl
      | context ctx' => grind
    | _ => rfl

namespace Sound

variable (hs : m.Sound)
include hs

/-- Who is in a call either waits or is about to come back. -/
theorem control_of_call? (hj : (m.routine j).call? p = some c) :
    (∃ d, (m.routine j).control = .listening d) ∨
      ∃ o, (m.routine j).control = .returning o := by
  obtain ⟨st, hst⟩ := Routine.stack_of_call? hj
  have hpos := hs.linked.posture j (by simp)
  have hsettled : ¬ Settled (m.routine j).role (m.routine j).stack := fun hset =>
    hset.notMem_registered p c (by rw [hst]; exact List.mem_cons_self)
  unfold Routine.Posture at hpos
  cases hc : (m.routine j).control with
  | listening d => exact .inl ⟨d, rfl⟩
  | returning o => exact .inr ⟨o, rfl⟩
  | fresh s =>
    rw [hc] at hpos
    cases hst.symm.trans hpos.1
  | starting s a =>
    rw [hc] at hpos
    cases hst.symm.trans hpos.1
  | running code =>
    rw [hc] at hpos
    exact absurd hpos hsettled
  | joining d a =>
    rw [hc] at hpos
    exact absurd hpos hsettled
  | ended =>
    rw [hc] at hpos
    cases hst.symm.trans hpos
  | reading d =>
    have hread := hs.linked.reading j d hc
    split at hread
    · next hd =>
      -- A handled body waits at an effect, and not in a call.
      subst hread
      have hphase := hs.linked.phase j hd
      cases hstatus : (m.routine j).status with
      | suspending =>
        obtain ⟨-, -, -, f, st', hst', hneed, -⟩ := hphase.suspending hstatus
        rw [hst] at hst'
        obtain ⟨rfl, -⟩ := List.cons.inj hst'
        cases hneed
      | notRunning => exact absurd hstatus hphase.begun
      | running =>
        have hway := (hphase.running hstatus).2.2
        simp [hc, isUnderWay] at hway
      | canceled =>
        rcases (hphase.canceled hstatus).2.2 with hend | ⟨-, hway⟩
        · cases hc.symm.trans hend
        · simp [hc, isUnderWay] at hway
      | panicked => cases hc.symm.trans (hphase.atEnd (.inl hstatus)).2.2
      | done => cases hc.symm.trans (hphase.atEnd (.inr hstatus)).2.2
    · exact absurd hread hsettled

/-- Who waits in a call for a handled body, waits for that body. -/
theorem listening_of_call? {ctx : ContextId} (hj : (m.routine j).call? (.context ctx) = some c)
    (hc : (m.routine j).control = .listening d) : d = c := by
  obtain ⟨st, hst⟩ := Routine.stack_of_call? hj
  have hlisten := hs.linked.listening j d hc
  unfold Listens at hlisten
  rw [hst] at hlisten
  split at hlisten
  · obtain ⟨-, st', hst', -⟩ := hlisten
    exact (Frame.registered.inj (List.cons.inj hst').1).2.symm
  · exact absurd hlisten (not_settled rfl rfl)

/-- A call for a handled body that runs has its entry. -/
theorem hasEntry_of_call? {ctx : ContextId} (hj : (m.routine j).call? (.context ctx) = some c)
    (hrun : m.status c = .running) : (m.routine j).control.hasEntry = true := by
  obtain ⟨st, hst⟩ := Routine.stack_of_call? hj
  rcases hs.control_of_call? hj with ⟨d, hc⟩ | ⟨o, hc⟩
  · rw [hc]
    rfl
  · -- Otherwise the body could be resumed, and it would wait for that.
    by_contra hentry
    have hneed : (m.routine j).control.hasEntry = (m.routine j).control.need?.isNone := by
      rw [hc]
      rfl
    obtain ⟨q, hq⟩ : ∃ q, (m.routine j).control.need? = some q := by
      rw [hneed] at hentry
      simpa [Option.ne_none_iff_exists'] using hentry
    have hpending : (m.routine j).pending? = some ⟨q, c⟩ := by
      rw [Routine.pending?, hq, hst]
      rfl
    have htokens : 0 < m.tokens none ⟨q, c⟩ := by
      have hle := le_sumTo (fun k => (m.known none k).tokens ⟨q, c⟩)
        (lt_of_ne_ended (m := m) (i := j) (by simp [hc]))
      have hone : (m.known none j).tokens ⟨q, c⟩ = 1 + (m.routine j).keys.count ⟨q, c⟩ := by
        simp [known, Routine.tokens, hpending]
      simp only [hone] at hle
      unfold tokens
      omega
    have hwaits := (hs.counted.waits ⟨q, c⟩ (by simpa using htokens)).2.1
    cases hrun.symm.trans hwaits

end Sound

/-- The registry of a context. -/
theorem Sound.registered_context (hs : m.Sound) (ht : m.Tidy) (ctx : ContextId) :
    m.Registered (.context ctx) := by
  have hcount : ∀ c, (m.registry (.context ctx)).items.count c = sumTo m.routines.size fun j =>
      if (m.routine j).call? (.context ctx) = some c ∧ (m.routine j).control.hasEntry = true
        then 1 else 0 := by
    intro c
    rw [hs.counted.entries]
    exact sumTo_congr fun j _ => Routine.entries_eq _ ctx c
  have hcalls : ∀ c, (m.callsOn (.context ctx)).count c = sumTo m.routines.size fun j =>
      if (m.routine j).call? (.context ctx) = some c then 1 else 0 := fun c =>
    count_filterMap_range (f := Routine.call? (.context ctx)) rfl le_rfl c
  constructor
  case own => exact fun j c d hj hc => hs.listening_of_call? hj hc
  case le =>
    intro c
    rw [hcount, hcalls]
    refine Finset.sum_le_sum fun j _ => ?_
    dsimp only
    split
    · next hand => rw [if_pos hand.1]
    · exact Nat.zero_le _
  case eq =>
    intro c j hj
    have hrun := ht.status_of_waitsOn hj
    rw [hcount, hcalls]
    refine sumTo_congr fun k _ => ?_
    by_cases hk : (m.routine k).call? (.context ctx) = some c
    · rw [if_pos ⟨hk, hs.hasEntry_of_call? hk hrun⟩, if_pos hk]
    · rw [if_neg hk, if_neg fun hand => hk hand.1]

/-! ## All registries -/

/-- The next step uses the registry at the place as it should. -/
def usesPlace (m : Machine P V σ) : Place → Bool
  | .registry r => m.usesRegistry r && m.resumesAlone r
  | .context _ => true

theorem Registered.stepPlace (h : m.Registered p) (hs : m.Sound) (ht : m.Tidy)
    (huse : m.usesPlace p = true) (hstep : m.step code = some m') : m'.Registered p := by
  cases p with
  | registry r =>
    obtain ⟨huse, halone⟩ := Bool.and_eq_true_iff.1 huse
    exact h.step hs ht huse halone hstep
  | context ctx => exact (hs.step hstep).registered_context (ht.step hstep) ctx

theorem registered_initial (store : σ) (c : Code P V σ V) (p : Place) :
    (initial store c).Registered p := by
  have hnone : ∀ j, ((initial store c).routine j).call? p = none := by
    intro j
    rcases routine_initial store c j with ⟨h, -⟩ | h <;> rw [h] <;> rfl
  have hitems : ((initial store c).registry p).items = [] := by cases p <;> rfl
  constructor
  case own => exact fun j c d hj => by cases (hnone j).symm.trans hj
  case le => simp [hitems]
  case eq => exact fun c j hj => by cases (hnone j).symm.trans (Routine.waitsOn?_eq_some.1 hj).1

theorem Registered.passTurn (h : m.Registered p) : m.passTurn.Registered p :=
  h.congr (registry_passTurn m p) (fun j => by rw [routine_passTurn]) fun j d _ hd => by
    rwa [routine_passTurn] at hd

/-- What is kept of one registry while the program uses it as it should. -/
theorem ReachesUnder.registered {store : σ} {c₀ : Code P V σ V}
    (h : ReachesUnder code (fun m _ => m.usesPlace p = true) (initial store c₀) m) :
    m.Sound ∧ m.Tidy ∧ m.Registered p := by
  refine @ReachesUnder.invariant P V σ code _ (fun m => m.Sound ∧ m.Tidy ∧ m.Registered p) ?_ ?_
    _ m h ⟨sound_initial store c₀, tidy_initial store c₀, registered_initial store c₀ p⟩
  · rintro m m' ⟨hs, ht, hreg⟩ huse hstep
    exact ⟨hs.step hstep, ht.step hstep, hreg.stepPlace hs ht huse hstep⟩
  · rintro m ⟨hs, ht, hreg⟩
    exact ⟨hs.passTurn, ht.passTurn, hreg.passTurn⟩

/-! ## When no call comes back -/

/-- No resume that is registered at the place is about to come back. -/
def IsQuiet (m : Machine P V σ) (p : Place) : Prop :=
  ∀ j, ((m.routine j).call? p).isSome → (m.routine j).control.isActive = false

/-- While code runs, and everybody else waits, no call comes back. -/
theorem Sound.isQuiet (hs : m.Sound) {x : Code P V σ V} (hi : (m.routine i).control = .running x)
    (hwait : ∀ j, j ≠ i → (m.routine j).control.isActive = false) (p : Place) : m.IsQuiet p := by
  intro j hj
  obtain ⟨c, hc⟩ := Option.isSome_iff_exists.1 hj
  by_cases hji : j = i
  · subst hji
    rcases hs.control_of_call? hc with ⟨d, hd⟩ | ⟨o, ho⟩
    · cases hi.symm.trans hd
    · cases hi.symm.trans ho
  · exact hwait j hji

namespace Registered

variable (h : m.Registered p) (hs : m.Sound)
include h hs

/-- Then every call waits. -/
theorem waitsOn?_eq (hq : m.IsQuiet p) (j : RoutineId) :
    (m.routine j).waitsOn? p = (m.routine j).call? p := by
  cases hj : (m.routine j).call? p with
  | none =>
    by_contra hne
    obtain ⟨c, hc⟩ := Option.ne_none_iff_exists'.1 hne
    cases hj.symm.trans (Routine.waitsOn?_eq_some.1 hc).1
  | some c =>
    refine Routine.waitsOn?_eq_some.2 ⟨hj, ?_⟩
    rcases hs.control_of_call? hj with ⟨d, hd⟩ | ⟨o, ho⟩
    · rw [hd, h.own j c d hj hd]
    · have hactive := hq j (by rw [hj]; rfl)
      rw [ho] at hactive
      cases hactive

/-- Then the entries are those whose resumes wait. -/
theorem perm_waitingOn (hq : m.IsQuiet p) : (m.registry p).items.Perm (m.waitingOn p) := by
  have hsame : m.waitingOn p = m.callsOn p := by
    unfold waitingOn callsOn
    simp only [h.waitsOn?_eq hs hq]
  rw [hsame, List.perm_iff_count]
  intro c
  by_cases hc : c ∈ m.callsOn p
  · obtain ⟨n, -, hn⟩ := List.mem_filterMap.1 hc
    exact h.eq c ⟨n⟩ (h.waitsOn?_eq hs hq ⟨n⟩ ▸ hn)
  · have hle := h.le c
    rw [List.count_eq_zero.2 hc] at hle ⊢
    omega

end Registered

theorem mem_waitingOn : c ∈ m.waitingOn p ↔ ∃ j, (m.routine j).waitsOn? p = some c := by
  unfold waitingOn
  rw [List.mem_filterMap]
  constructor
  · rintro ⟨n, -, hn⟩
    exact ⟨⟨n⟩, hn⟩
  · rintro ⟨j, hj⟩
    refine ⟨j.val, List.mem_range.2 (lt_of_ne_ended ?_), hj⟩
    rw [(Routine.waitsOn?_eq_some.1 hj).2]
    simp

/-- One body waits to be given up, and then resumes the other one, which gives it up and is
suspended through the registry. -/
def resumesTooEarly : Bool → Entry Nat → Code Bool Nat Unit Nat
  | false, .start v self => .act (.yield self v) fun _ => .perform (.resumeOn ⟨0⟩ ⟨2⟩ v)
  | true, .start v _ => .ask (.abandon ⟨1⟩) fun _ => .perform (.suspend ⟨0⟩ v)
  | _, _ => .pure 0

theorem exists_waiting_unregistered :
    ∃ (c₀ : Code Bool Nat Unit Nat) (m : Machine Bool Nat Unit),
      Reaches resumesTooEarly (initial () c₀) m ∧ m.waitingOn (.registry ⟨0⟩) = [⟨2⟩] ∧
        (m.registry (.registry ⟨0⟩)).items = [] :=
  ⟨.ask .openRegistry fun r => .ask (.spawn .standard false) fun c =>
      .ask (.spawn .standard true) fun d =>
        .act (.resume c 0) fun _ => .perform (.resumeOn r d 5),
    _, reaches_run _ 14, rfl, rfl⟩

/-! ## In a single line of control -/

/-- Nobody can resume a coroutine of whom an earlier resume has not come back. -/
theorem Line.notMem_callsOn {line : List RoutineId} (hline : m.Line line) (hs : m.Sound)
    (ht : m.Tidy) (hreg : m.Registered p) {x : Code P V σ V}
    (hi : (m.routine i).control = .running x) (hc : (m.status c).isResumable = true) :
    c ∉ m.callsOn p := by
  intro hmem
  obtain ⟨n, -, hn⟩ := List.mem_filterMap.1 hmem
  rcases hs.control_of_call? hn with ⟨d, hd⟩ | ⟨o, ho⟩
  · have hheard := ht.heard d ⟨n⟩ hd
    rw [hreg.own ⟨n⟩ c d hn hd] at hheard
    rw [hheard] at hc
    split at hc <;> cases hc
  · -- The call that comes back is at the head of the line, where code runs.
    have hhead := hline.active ⟨n⟩ (by rw [ho]; rfl)
    rw [hline.active i (by rw [hi]; rfl)] at hhead
    obtain rfl := Option.some.inj hhead
    cases hi.symm.trans ho

/-- So there a registry only has to be used through registered resumes and suspensions. -/
theorem Line.resumesAlone {line : List RoutineId} {r : RegistryId} (hline : m.Line line)
    (hs : m.Sound) (ht : m.Tidy) (hreg : m.Registered (.registry r)) :
    m.resumesAlone r = true := by
  unfold Machine.resumesAlone
  split
  · rfl
  · split
    · next q c v next hc =>
      by_cases hq : q = r
      · cases hres : (m.status c).isResumable with
        | false => simp
        | true => simpa using .inr (hline.notMem_callsOn hs ht hreg hc hres)
      · simp [hq]
    · rfl

/-- While code runs in a single line of control, the entries of a registry are exactly the coroutines
whose resumes wait. -/
theorem ReachesUnder.perm_waitingOn {store : σ} {c₀ : Code P V σ V} {r : RegistryId}
    (h : ReachesUnder code
      (fun m m' => (m.yieldsOwn && m.waitsForDropped m' && m.usesRegistry r) = true)
      (initial store c₀) m) {x : Code P V σ V} (hi : (m.routine i).control = .running x) :
    (m.registry (.registry r)).items.Perm (m.waitingOn (.registry r)) := by
  have hinv : m.Sound ∧ m.Registered (.registry r) ∧ m.Orderly ∧ ∃ line, m.Line line := by
    refine @ReachesUnder.invariant P V σ code _ (fun m => m.Sound ∧ m.Registered (.registry r) ∧
      m.Orderly ∧ ∃ line, m.Line line) ?_ ?_ _ m h ⟨sound_initial store c₀,
        registered_initial store c₀ _, orderly_initial store c₀, _, line_initial store c₀⟩
    · rintro m m' ⟨hs, hreg, ho, line, hline⟩ hrule hstep
      simp only [Bool.and_eq_true] at hrule
      obtain ⟨⟨hown, hdrop⟩, huse⟩ := hrule
      refine ⟨hs.step hstep, ?_, ho.step hown hstep, hline.step ho hown hdrop hstep⟩
      exact hreg.step hs ho.tidy huse (hline.resumesAlone hs ho.tidy hreg) hstep
    · rintro m ⟨hs, hreg, ho, line, hline⟩
      exact ⟨hs.passTurn, hreg.passTurn, ho.passTurn, line, hline.passTurn⟩
  obtain ⟨hs, hreg, -, line, hline⟩ := hinv
  refine hreg.perm_waitingOn hs (hs.isQuiet hi (fun j hji => ?_) _)
  by_contra hactive
  have hhead := hline.active j (by simpa using hactive)
  rw [hline.active i (by rw [hi]; rfl)] at hhead
  exact hji (Option.some.inj hhead).symm

end OneShot.Machine
