import OneShot.Proofs.Places

/-!
# Beginning and ending a step

A routine takes up work with the ways to resume that it carries. Most steps end with code that runs
on, or with an outcome for the topmost frame.
-/

namespace OneShot

variable {P V σ : Type}

theorem Settled.ne_registered {role : Option Mark} {st : List (Frame P V σ)} (h : Settled role st)
    (p : Place) (s : RoutineId) (st' : List (Frame P V σ)) : st ≠ .registered p s :: st' := by
  rintro rfl
  exact not_settled rfl rfl h

namespace Machine

open Control

variable {m m' : Machine P V σ} {i s : RoutineId} {o : Outcome V (Parcel V)}

theorem awaitedScope?_eq_none {role : Option Mark} {st : List (Frame P V σ)} (h : Settled role st) :
    awaitedScope? st = none := by
  cases st with
  | nil => rfl
  | cons f st =>
    cases f with
    | registered => exact absurd h (not_settled rfl rfl)
    | dispatch => exact absurd h (not_settled rfl rfl)
    | _ => rfl

/-- Only a suspended body's signal comes with ways to resume. -/
theorem keys_of_need?_eq_none (h : o.signal?.bind Signal.need? = none) :
    (Control.returning o : Control P V σ).keys = [] := by
  change o.signal?.elim [] Signal.keys = []
  cases ho : o.signal? with
  | none => rfl
  | some x =>
    rw [ho] at h
    cases x with
    | done b => rfl
    | perform e b => simp [Signal.need?] at h
    | forward e b k => simp [Signal.need?] at h

/-- A step begins. -/
theorem Sound.startWork (h : m.Sound) (hi : (m.routine i).control.isActive = true)
    (hentries : ∀ c s, (m.routine i).entries c s = 0) :
    m.AtWork i (m.routine i).control.keys [] [] :=
  ⟨h.linked.startWork hi, h.counted.startWork (lt_of_isActive hi) hentries, h.reclaimed⟩

namespace AtWork

/-- A step ends: the routine waits for nothing. -/
theorem finish {c : Control P V σ} (h : m.AtWork i [] [] []) (hc : c.isActive = true)
    (hp : Routine.Posture { m.routine i with control := c })
    (hneed : c.need? = none) (hkeys : c.keys = [])
    (hend : ∀ o s, c = .returning o → awaitedScope? (m.routine i).stack = some s → m.HasEnded s o)
    (hentries : ∀ d s st, (m.routine i).stack ≠ .registered (.context d) s :: st) :
    (m.setControl i c).Sound := by
  have hr : (m.setControl i c).routine i = { m.routine i with control := c } :=
    routine_update_self h.lt _
  have hwork := h.setControl hc
  refine ⟨hwork.linked.finishWork (by rwa [hr]) ?_,
    hwork.counted.finishWork hwork.lt (fun _ => rfl) rfl rfl ?_ ?_ ?_, hwork.reclaimed⟩
  · intro o s ho _ hs
    rw [hr] at ho hs
    have hne : i ≠ s := by
      rintro rfl
      exact ne_ended_of_isActive h.active (hend o i ho hs).2.1
    refine (hend o s ho hs).alike ?_
    rw [Machine.setControl, routine_update_of_ne hne]
    exact Routine.alike_refl _
  · simp [hr, hkeys]
  · simp [hr, hkeys, Routine.pending?, hneed]
  · intro d s
    have hzero : ((m.setControl i c).routine i).entries d s = 0 :=
      Routine.entries_eq_zero (by rw [hr]; exact hentries) d s
    rw [hzero, Nat.add_zero]

/-- A step ends with code that runs on. -/
theorem run (h : m.AtWork i [] [] []) (hst : Settled (m.routine i).role (m.routine i).stack)
    (c : Code P V σ V) : (m.setControl i (.running c)).Sound :=
  h.finish rfl hst rfl rfl (fun _ _ hc => by cases hc)
    fun d => hst.ne_registered (.context d)

/-- A step ends with an outcome for the topmost frame, which does not wait for a scope. -/
theorem reply (h : m.AtWork i [] [] []) (hfits : Fits (m.routine i).role o (m.routine i).stack)
    (hneed : o.signal?.bind Signal.need? = none)
    (hend : awaitedScope? (m.routine i).stack = none)
    (hentries : ∀ d s st, (m.routine i).stack ≠ .registered (.context d) s :: st) :
    (m.reply i o).Sound :=
  h.finish rfl hfits hneed (keys_of_need?_eq_none hneed) (by simp [hend]) hentries

end AtWork

/-! ## Entries come off with their frames -/

theorem setRegistry_of_not_hasPlace {p : Place} (h : ¬ m.hasPlace p) (g : Registry RoutineId) :
    m.setRegistry p g = m := by
  cases p with
  | registry r =>
    simp only [hasPlace, Nat.not_lt] at h
    simp [setRegistry, Array.setIfInBounds_eq_of_size_le h]
  | context c =>
    simp only [hasPlace, Nat.not_lt] at h
    simp [setRegistry, Array.setIfInBounds_eq_of_size_le h]

theorem registry_of_not_hasPlace {p : Place} (h : ¬ m.hasPlace p) : m.registry p = .empty := by
  cases p with
  | registry r => simp_all [hasPlace, registry, Array.getD]
  | context c => simp_all [hasPlace, registry, Array.getD]

/-- Withdrawing an entry leaves one less of it. -/
theorem count_setRegistry_erase (m : Machine P V σ) (p q : Place) (c s : RoutineId) :
    ((m.setRegistry p ((m.registry p).erase c)).registry q).items.count s =
      (m.registry q).items.count s - if p = q ∧ c = s then 1 else 0 := by
  have herase : ∀ l : List RoutineId, (l.reverse.erase c).reverse.count s =
      l.count s - if c = s then 1 else 0 := by
    intro l
    simp only [List.count_reverse, List.count_erase]
    split <;> simp_all
  by_cases hp : m.hasPlace p
  · rw [registry_setRegistry hp]
    by_cases hpq : p = q
    · subst hpq
      simp [Registry.erase, herase]
    · simp [hpq]
  · rw [setRegistry_of_not_hasPlace hp]
    by_cases hpq : p = q
    · subst hpq
      simp [registry_of_not_hasPlace hp]
    · simp [hpq]

/-- There is no entry of a body that waits to be resumed. -/
theorem Linked.entries_eq_zero (h : m.Linked none) (hs : (m.routine s).scope.isSome)
    (hstatus : (m.routine s).status = .suspending) (c : ContextId) : m.entries none c s = 0 := by
  obtain ⟨-, hout, hcontrol, -⟩ := (h.phase s hs).suspending hstatus
  by_contra hne
  obtain ⟨j, -, hj⟩ := exists_of_sumTo_pos (Nat.pos_of_ne_zero hne)
  rw [known_of_ne (by simp)] at hj
  unfold Routine.entries at hj
  split at hj
  · next d t st hst =>
    split at hj
    · next hcond =>
      obtain ⟨rfl, rfl, hentry⟩ := hcond
      cases hc : (m.routine j).control with
      | listening u =>
        have hl := h.listening j u hc
        unfold Listens at hl
        split at hl
        · next scope hu =>
          obtain ⟨ho, st', hst', -⟩ := hl
          rw [hst] at hst'
          simp only [List.cons.injEq, Frame.registered.injEq] at hst'
          obtain ⟨⟨-, rfl⟩, -⟩ := hst'
          rw [hout] at ho
          cases ho
        · next hu =>
          rw [hst] at hl
          exact not_settled rfl rfl hl
      | returning o =>
        rw [hc] at hentry
        have hended := h.ending j (by simp) o t hc (by simpa [hasEntry] using hentry)
          (by rw [hst]; rfl)
        rw [hended.2.1] at hcontrol
        cases hcontrol
      | _ => rw [hc] at hentry; simp [hasEntry] at hentry
    · omega
  · omega

theorem setRegistry_eq_update_comm (m : Machine P V σ) (i : RoutineId)
    (f : Routine P V σ → Routine P V σ) (p : Place) (g : Registry RoutineId) :
    (m.update i f).setRegistry p g = (m.setRegistry p g).update i f := by
  cases p <;> rfl

/-- Taking an entry off with its frame keeps the numbers of entries right. -/
theorem Sound.count_withdraw (h : m.Sound) {p : Place} {st : List (Frame P V σ)}
    (hc : (m.routine i).control = .returning o)
    (hst : (m.routine i).stack = .registered p s :: st) (c : ContextId) (t : RoutineId) :
    ((m.registry (.context c)).items.count t - if p = .context c ∧ s = t then 1 else 0) +
      (m.routine i).entries c t = (m.registry (.context c)).items.count t := by
  have hlt : i.val < m.routines.size := lt_of_ne_ended (by simp [hc])
  cases p with
  | registry r => simp [Routine.entries, hst]
  | context d =>
    by_cases hdc : d = c ∧ s = t
    · obtain ⟨rfl, rfl⟩ := hdc
      have hcount := h.counted.entries d s
      have hle : (m.routine i).entries d s ≤ m.entries none d s :=
        le_sumTo (fun j => (m.known none j).entries d s) hlt
      cases hneed : o.signal?.bind Signal.need? with
      | none =>
        have hone : (m.routine i).entries d s = 1 := by
          simp [Routine.entries, hst, hc, hasEntry, hneed]
        simp only [true_and, if_true]
        omega
      | some q =>
        have hpending : (m.routine i).pending? = some ⟨q, s⟩ := by
          simp [Routine.pending?, hc, Control.need?, hneed, hst, awaitedScope?]
        have htokens := tokens_known hlt ⟨q, s⟩
        rw [hpending] at htokens
        have hw := h.counted.waits ⟨q, s⟩ (by
          simp only [Option.toList_some, List.count_singleton_self] at htokens
          omega)
        have hzero : m.entries none d s = 0 := h.linked.entries_eq_zero hw.1 hw.2.1 d
        simp only [true_and, if_true]
        omega
    · have hzero : (m.routine i).entries c t = 0 := by
        simp only [Routine.entries, hst]
        rw [if_neg]
        rintro ⟨rfl, rfl, -⟩
        exact hdc ⟨rfl, rfl⟩
      rw [hzero, if_neg (by simpa using hdc)]
      omega

/-- What fits a registered resume fits the frames below it, which are no registered resume and wait for
the same scope. -/
theorem Fits.below_registered {role : Option Mark} {p : Place} {st : List (Frame P V σ)}
    (h : Fits role o (.registered p s :: st)) :
    Fits role o st ∧ (∀ p s st', st ≠ .registered p s :: st') ∧
      awaitedScope? st = awaitedScope? (.registered p s :: st) := by
  cases p with
  | registry r => exact ⟨h.2.fits h.1, h.2.ne_registered, awaitedScope?_eq_none h.2⟩
  | context c =>
    obtain ⟨st', rfl, hfits⟩ := h
    exact ⟨hfits, by simp, rfl⟩

section Withdraw

variable {p : Place} {st : List (Frame P V σ)} {f : Routine P V σ → Routine P V σ}
  (hc : (m.routine i).control = .returning o) (hst : (m.routine i).stack = .registered p s :: st)
  (hf : ∀ r, f r = { r with stack := st, control := .returning o })
include hc hst hf

/-- The links are kept when a registered resume comes back. -/
theorem Linked.withdraw (h : m.Linked none) :
    ((m.setRegistry p ((m.registry p).erase s)).update i f).Linked none := by
  have hactive : (m.routine i).control.isActive = true := by rw [hc]; rfl
  have hfits : Fits (m.routine i).role o (.registered p s :: st) := by
    have hp := h.posture i (by simp)
    simpa only [Routine.Posture, hc, hst] using hp
  obtain ⟨hfits', -, hawaited⟩ := Fits.below_registered hfits
  have hlt : i.val < (m.setRegistry p ((m.registry p).erase s)).routines.size := by
    cases p <;> exact lt_of_isActive hactive
  have hself : ((m.setRegistry p ((m.registry p).erase s)).update i f).routine i =
      { m.routine i with stack := st, control := .returning o } := by
    rw [routine_update_self hlt, routine_setRegistry, hf]
  have hwork : (m.setRegistry p ((m.registry p).erase s)).Linked (some i) :=
    (h.startWork hactive).congr (routine_setRegistry m p _) (by cases p <;> rfl)
      (by cases p <;> simp [setRegistry]) (by cases p <;> exact fun _ _ => id)
  refine (hwork.updateWorker (by rw [hf]; rfl) (by rw [hf]) (by rw [hf]) (by rw [hf]) (by rw [hf])
    (by rw [hf])).finishWork ?_ ?_
  · rw [hself]
    exact hfits'
  · intro o' t ho' hneed ht
    rw [hself] at ho' ht
    obtain rfl : o = o' := by simpa using ho'
    -- The scope that is awaited now was awaited before.
    refine (h.ending i (by simp) o t hc hneed (by rw [hst, ← hawaited]; exact ht)).stays
      fun l _ hl => ?_
    rw [routine_update_of_ne, routine_setRegistry]
    rintro rfl
    exact ne_ended_of_isActive hactive hl

/-- The counts are kept when a registered resume comes back. -/
theorem Sound.counted_withdraw (h : m.Sound) :
    ((m.setRegistry p ((m.registry p).erase s)).update i f).Counted none [] [] := by
  have hactive : (m.routine i).control.isActive = true := by rw [hc]; rfl
  have hfits : Fits (m.routine i).role o (.registered p s :: st) := by
    have hp := h.linked.posture i (by simp)
    simpa only [Routine.Posture, hc, hst] using hp
  obtain ⟨-, hreg, hawaited⟩ := Fits.below_registered hfits
  have hlt := lt_of_isActive hactive
  have hlt' : i.val < (m.setRegistry p ((m.registry p).erase s)).routines.size := by
    cases p <;> exact hlt
  have hself : ((m.setRegistry p ((m.registry p).erase s)).update i f).routine i =
      { m.routine i with stack := st, control := .returning o } := by
    rw [routine_update_self hlt', routine_setRegistry, hf]
  have hne : ∀ j, j ≠ i → ((m.setRegistry p ((m.registry p).erase s)).update i f).routine j =
      m.routine j := fun j hj => by rw [routine_update_of_ne hj.symm, routine_setRegistry]
  have hsize : ((m.setRegistry p ((m.registry p).erase s)).update i f).routines.size =
      m.routines.size := by rw [size_update, size_setRegistry]
  refine h.counted.change hlt hne hsize (by cases p <;> rfl) ?_ ?_ ?_ ?_
    (h.counted.owners_le hlt hne hsize ?_)
  · intro t
    have hholders : ((m.setRegistry p ((m.registry p).erase s)).update i f).holders t =
        m.holders t := by
      refine holders_congr ?_
      by_cases ht : t = i
      · rw [ht, hself]
      · rw [hne t ht]
    rw [known_of_ne (by simp), known_of_ne (by simp), hself, hholders]
    simp [Routine.holds, Routine.keys, hst, hc, Frame.holds, Routine.into?]
  · intro y
    rw [known_of_ne (by simp), known_of_ne (by simp), hself]
    simp [Routine.tokens, Routine.pending?, Routine.keys, hst, hc, Routine.into?, hawaited]
  · rintro y rfl - hy
    exact absurd hy (h.linked.not_waits hactive)
  · intro c t
    have hzero : ({ m.routine i with stack := st, control := .returning o } :
        Routine P V σ).entries c t = 0 := Routine.entries_eq_zero (fun d => hreg (.context d)) c t
    rw [known_of_ne (by simp), known_of_ne (by simp), hself, hzero, Nat.add_zero]
    refine Eq.trans ?_ (h.count_withdraw hc hst c t)
    rw [registry_update, count_setRegistry_erase]
  · intro k
    rw [hself]
    simp [Routine.owns, hst, Frame.owns]

end Withdraw

/-- A registered resume comes back, and its entry is withdrawn. -/
theorem Sound.withdraw (h : m.Sound) {p : Place} {st : List (Frame P V σ)}
    (hc : (m.routine i).control = .returning o) (hst : (m.routine i).stack = .registered p s :: st) :
    (((m.update i fun r => { r with stack := st }).setRegistry p ((m.registry p).erase s)).reply
      i o).Sound := by
  rw [reply, Machine.setControl, setRegistry_eq_update_comm, update_update]
  refine ⟨h.linked.withdraw hc hst fun _ => rfl, h.counted_withdraw hc hst fun _ => rfl, ?_⟩
  intro t scope ht hz _
  have hlt : i.val < (m.setRegistry p ((m.registry p).erase s)).routines.size := by
    rw [size_setRegistry]
    exact lt_of_ne_ended (by simp [hc])
  rw [routine_update_ite hlt] at ht ⊢
  simp only [routine_setRegistry] at ht ⊢
  split at ht
  · next hti =>
    rw [if_pos hti]
    exact hti ▸ h.reclaimed i scope ht hz (by simp)
  · next hti =>
    rw [if_neg hti]
    exact h.reclaimed t scope ht hz (by simp)

end Machine

end OneShot
