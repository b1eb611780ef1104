import OneShot.Proofs.AtWork

/-!
# Letting go of scopes

`letGo` drops a hold of a scope, and with the last one gives the body up. In a sound machine this
does one of two things to any routine (`Routine.Fades`): its scope has fewer holders, or the body was
suspended and goes on with a cancellation.
-/

namespace OneShot

variable {P V σ : Type}

theorem Entered.holds_pos {role : Option Mark} {s : RoutineId} {st : List (Frame P V σ)}
    (h : Entered role s st) : 0 < (st.map (Frame.holds s)).sum := by
  match st, h with
  | .nested _ _ :: .holding t :: st, h =>
    obtain ⟨rfl, -⟩ := h
    simp [Frame.holds]

namespace Machine

variable {m m' : Machine P V σ} {w : Option RoutineId} {i c r s : RoutineId}
  {hand : List Key} {loose due : List RoutineId} {k : Cont}

theorem Linked.exists_listener (h : m.Linked w) (hs : (m.routine s).scope.isSome)
    (hrun : (m.routine s).status = .running) :
    ∃ j, (m.routine s).outbox = .awaited j ∧ (m.routine j).control = .listening s := by
  obtain ⟨-, hout, -⟩ := (h.phase s hs).running hrun
  cases ho : (m.routine s).outbox with
  | awaited j => exact ⟨j, rfl, h.outbox s j ho⟩
  | _ => rw [ho] at hout; simp [Slot.isAwaited] at hout

/-- A routine that listens to a handled body holds its scope. -/
theorem Linked.holds_pos_of_listening (h : m.Linked w) {j : RoutineId} (hs : (m.routine s).scope.isSome)
    (hj : (m.routine j).control = .listening s) :
    0 < ((m.routine j).stack.map (Frame.holds s)).sum := by
  obtain ⟨scope, hscope⟩ := Option.isSome_iff_exists.1 hs
  obtain ⟨-, st, hst, he⟩ := h.takesSignals hscope hj
  have hpos := he.holds_pos
  simp only [hst, List.map_cons, List.sum_cons]
  omega

/-- A routine to which the signal of a scope came holds the scope. -/
theorem Linked.holds_pos_of_returning (h : m.Linked w) {j : RoutineId} (hw : w ≠ some j)
    {o : Outcome V (Parcel V)} (hj : (m.routine j).control = .returning o)
    (ha : awaitedScope? (m.routine j).stack = some s) :
    0 < ((m.routine j).stack.map (Frame.holds s)).sum := by
  have hp := h.posture j hw
  simp only [Routine.Posture, hj] at hp
  revert hp ha
  cases (m.routine j).stack with
  | nil => simp [awaitedScope?]
  | cons f st =>
    cases f with
    | dispatch t =>
      simp only [awaitedScope?, Option.some.injEq, Fits]
      rintro rfl ⟨-, he⟩
      have hpos := he.holds_pos
      simp only [List.map_cons, List.sum_cons]
      omega
    | registered p t =>
      cases p with
      | context c =>
        simp only [awaitedScope?, Option.some.injEq, Fits]
        rintro rfl ⟨st', rfl, -, he⟩
        have hpos := he.holds_pos
        simp only [List.map_cons, List.sum_cons]
        omega
      | registry r => simp [awaitedScope?]
    | _ => simp [awaitedScope?]

/-- Who can resume a scope holds it. -/
theorem Linked.holds_pos_of_tokens (h : m.Linked w) {j : RoutineId} {y : Key}
    (hy : 0 < (m.known w j).tokens y) : 0 < (m.known w j).holds y.scope := by
  by_cases hw : w = some j
  · simp only [known, hw, if_true, Routine.tokens_atWork] at hy
    have hle := count_le_countKeys y ((m.routine j).into?.map (⟨.result, ·⟩)).toList
    simp only [known, hw, if_true, Routine.holds_atWork]
    omega
  · rw [known_of_ne hw] at hy ⊢
    by_cases hk : 0 < (m.routine j).keys.count y
    · have hle := count_le_countKeys y (m.routine j).keys
      simp only [Routine.holds]
      omega
    · have hpending : 0 < (m.routine j).pending?.toList.count y := by
        simp only [Routine.tokens] at hy
        omega
      have hp : (m.routine j).pending? = some y := by
        simpa using List.count_pos_iff.1 hpending
      unfold Routine.pending? at hp
      simp only [Option.bind_eq_some_iff, Option.map_eq_some_iff] at hp
      obtain ⟨q, hq, s, hs, rfl⟩ := hp
      cases hc : (m.routine j).control with
      | returning o =>
        have hpos := h.holds_pos_of_returning hw hc hs
        simp only [Routine.holds]
        omega
      | _ => rw [hc] at hq; simp [Control.need?] at hq

theorem Linked.load_pos_of_tokens (h : m.Linked w) {y : Key} (hy : 0 < m.tokens w y) :
    0 < m.load w y.scope := by
  have hkept := count_le_countKeys y m.kept
  unfold tokens load at *
  by_cases hk : 0 < m.kept.count y
  · omega
  · obtain ⟨j, hj, hpos⟩ := exists_of_sumTo_pos (f := fun j => (m.known w j).tokens y)
      (n := m.routines.size) (by omega)
    have hle := le_sumTo (fun j => (m.known w j).holds y.scope) hj
    have hpos' := h.holds_pos_of_tokens hpos
    omega

/-! ## What letting go does to the routines -/

end Machine

/-- How many hold the scope of a routine. -/
def Routine.holders (r : Routine P V σ) : Nat := r.scope.elim 0 (·.holders)

/-- The way to resume that comes with a scope which so many hold. -/
def Scope.keysWith (c : Scope P) (n : Nat) : List Key :=
  if 0 < n then (c.finish.outer?.map (⟨.result, ·⟩)).toList else []

theorem Routine.keys_eq {r : Routine P V σ} {c : Scope P} (hc : r.scope = some c) :
    r.keys = r.control.keys ++ c.keysWith c.holders := by
  unfold keys into? Scope.keysWith
  simp only [hc, Option.bind_some]
  split <;> rfl

/-- What becomes of a routine when scopes are let go. -/
inductive Routine.Fades (r : Routine P V σ) : Routine P V σ → Prop where
  /-- Its scope has fewer holders, or as many. -/
  | kept (n : Nat) (h : n ≤ r.holders) : Routine.Fades r (r.withHolders n)
  /-- Nobody holds its scope any more, and it was suspended. -/
  | closed (h : r.status = .suspending) (hs : r.scope.isSome) :
    Routine.Fades r (r.closed.withHolders 0)

namespace Routine

theorem withHolders_holders (r : Routine P V σ) : r.withHolders r.holders = r := by
  cases r with
  | mk status inbox outbox joiners scope => cases scope <;> rfl

@[simp] theorem withHolders_withHolders (n k : Nat) (r : Routine P V σ) :
    (r.withHolders k).withHolders n = r.withHolders n := by
  cases h : r.scope <;> simp [withHolders, h]

theorem holders_withHolders_le (n : Nat) (r : Routine P V σ) : (r.withHolders n).holders ≤ n := by
  cases h : r.scope <;> simp [withHolders, holders, h]

namespace Fades

variable {r r' r'' : Routine P V σ}

theorem refl (r : Routine P V σ) : r.Fades r := by
  have h := Fades.kept (r := r) r.holders le_rfl
  rwa [withHolders_holders] at h

theorem trans (h : r.Fades r') (h' : r'.Fades r'') : r.Fades r'' := by
  cases h with
  | kept n hn =>
    cases h' with
    | kept k hk =>
      rw [withHolders_withHolders]
      exact .kept k ((hk.trans (holders_withHolders_le n r)).trans hn)
    | closed hs hsome =>
      have heq : ((r.withHolders n).closed).withHolders 0 = r.closed.withHolders 0 :=
        withHolders_withHolders 0 n r.closed
      rw [heq]
      exact .closed hs (by simpa [withHolders] using hsome)
  | closed hs hsome =>
    cases h' with
    | kept k hk =>
      have hk0 : k = 0 := Nat.le_zero.1 (hk.trans (holders_withHolders_le 0 _))
      rw [hk0, withHolders_withHolders]
      exact .closed hs hsome
    | closed hs' hsome' => cases hs'

theorem isSome_scope {r r' : Routine P V σ} (h : r.Fades r') :
    r'.scope.isSome = r.scope.isSome := by
  cases h with
  | kept n => simp [withHolders]
  | closed h hs =>
    change (Option.map _ r.scope).isSome = _
    simp

theorem holders_le {r r' : Routine P V σ} (h : r.Fades r') :
    r'.holders ≤ r.holders := by
  cases h with
  | kept n hn => exact (holders_withHolders_le n r).trans hn
  | closed => exact (holders_withHolders_le 0 _).trans (Nat.zero_le _)

theorem stack (h : r.Fades r') : r'.stack = r.stack := by
  cases h <;> rfl

theorem role (h : r.Fades r') : r'.role = r.role := by
  cases h with
  | kept n => exact (alike_withHolders n r).role
  | closed => exact (alike_withHolders 0 r.closed).role

end Fades

end Routine

namespace Machine

open Control

variable {m m' m'' : Machine P V σ} {w : Option RoutineId} {i s : RoutineId} {hand : List Key}
  {loose due : List RoutineId} {k : Cont}

/-- The second machine is the first one, with some scopes let go. -/
structure Fades (m m' : Machine P V σ) : Prop where
  routine : ∀ j, (m.routine j).Fades (m'.routine j)
  size : m'.routines.size = m.routines.size
  store : m'.store = m.store
  registries : m'.registries = m.registries
  contexts : m'.contexts = m.contexts
  conts : m'.conts = m.conts
  effects : m'.effects = m.effects
  ready : ∃ l, m'.ready = m.ready ++ l

namespace Fades

theorem refl (m : Machine P V σ) : m.Fades m :=
  ⟨fun _ => .refl _, rfl, rfl, rfl, rfl, rfl, rfl, [], by simp⟩

theorem trans (h : m.Fades m') (h' : m'.Fades m'') : m.Fades m'' where
  routine j := (h.routine j).trans (h'.routine j)
  size := h'.size.trans h.size
  store := h'.store.trans h.store
  registries := h'.registries.trans h.registries
  contexts := h'.contexts.trans h.contexts
  conts := h'.conts.trans h.conts
  effects := h'.effects.trans h.effects
  ready := by
    obtain ⟨l, hl⟩ := h.ready
    obtain ⟨l', hl'⟩ := h'.ready
    exact ⟨l ++ l', by rw [hl', hl, List.append_assoc]⟩

end Fades

/-- A scope has fewer holders, or as many. -/
theorem fades_update_withHolders {n : Nat} (h : n ≤ m.holders s) :
    m.Fades (m.update s (·.withHolders n)) where
  routine j := by
    rw [routine_update]
    split
    · next hj =>
      rw [← hj.1]
      exact .kept n h
    · exact .refl _
  size := by simp
  store := rfl
  registries := rfl
  contexts := rfl
  conts := rfl
  effects := rfl
  ready := ⟨[], by simp⟩

/-- Nobody holds the scope of a body that is given up. -/
theorem fades_update_closed (hs : (m.routine s).scope.isSome) (h0 : m.holders s = 0)
    (hstatus : (m.routine s).status = .suspending) :
    m.Fades ((m.update s Routine.closed).wake s) where
  routine j := by
    rw [routine_wake, routine_update]
    split
    · next hj =>
      obtain ⟨rfl, -⟩ := hj
      have h := Routine.Fades.closed hstatus hs
      have heq : (m.routine s).closed.withHolders 0 = (m.routine s).closed := by
        have hh := Routine.withHolders_holders (m.routine s).closed
        rwa [show (m.routine s).closed.holders = 0 from h0] at hh
      rwa [heq] at h
    · exact .refl _
  size := size_update ..
  store := rfl
  registries := rfl
  contexts := rfl
  conts := rfl
  effects := rfl
  ready := ⟨[s], rfl⟩

/-- Giving up a handled body closes it if it is suspended, and otherwise does nothing. -/
theorem Linked.abandon_eq (h : m.Linked w) (hs : (m.routine s).scope.isSome) :
    m.abandon s =
      if (m.routine s).status = .suspending then (m.update s Routine.closed).wake s else m := by
  have hp := h.phase s hs
  split
  · next hstatus =>
    obtain ⟨hinbox, -, hcontrol, -⟩ := hp.suspending hstatus
    have hself : ∀ f, (m.update s f).routine s = f (m.routine s) :=
      routine_update_self (lt_of_scope hs)
    simp only [Machine.abandon, Machine.close, hinbox, deliver, hself, hcontrol, fail, reply, setControl,
      update_update]
    rfl
  · next hstatus =>
    have hinbox : ∀ reader, (m.routine s).inbox ≠ .awaited reader := by
      cases hst : (m.routine s).status with
      | notRunning => exact absurd hst hp.begun
      | running => simp [(hp.running hst).1]
      | suspending => exact absurd hst hstatus
      | canceled => simp [(hp.canceled hst).1]
      | panicked => simp [(hp.atEnd (.inl hst)).1]
      | done => simp [(hp.atEnd (.inr hst)).1]
    have hresumable : (m.status s).isResumable = false := by
      have hbegun := hp.begun
      unfold status
      cases hst : (m.routine s).status <;> simp_all [Status.isResumable]
    unfold Machine.abandon Machine.close
    split
    · next reader hr => exact absurd hr (hinbox reader)
    · simp [hresumable]

namespace AtWork

/-- A scope that a routine at work can wake has a holder. -/
theorem not_running (h : m.AtWork i hand loose due) (hs : (m.routine s).scope.isSome)
    (h0 : m.holders s = 0) : (m.routine s).status ≠ .running := by
  intro hrun
  obtain ⟨j, -, hj⟩ := h.linked.exists_listener hs hrun
  have hji : some i ≠ some j := by
    rintro ⟨⟩
    exact ne_listening_of_isActive h.active s hj
  have hpos := h.linked.holds_pos_of_listening hs hj
  have hlt : j.val < m.routines.size := lt_of_ne_ended (by simp [hj])
  have hle := le_sumTo (fun j => (m.known (some i) j).holds s) hlt
  have hheld := h.counted.held s
  simp only [known_of_ne hji, Routine.holds, load] at hle hheld
  omega

theorem not_used (h : m.AtWork i hand loose due) {y : Key} (h0 : m.holders y.scope = 0) :
    ¬ 0 < m.tokens (some i) y + hand.count y := by
  intro hpos
  have hheld := h.counted.held y.scope
  have hle := count_le_countKeys y hand
  have hload := h.linked.load_pos_of_tokens (w := some i) (y := y)
  omega

/-- A scope that nobody holds is reclaimed. -/
theorem abandon (h : m.AtWork i hand loose (s :: due)) (hs : (m.routine s).scope.isSome)
    (h0 : m.holders s = 0) :
    (m.abandon s).AtWork i hand loose due ∧ m.Fades (m.abandon s) := by
  rw [h.linked.abandon_eq hs]
  split
  · next hstatus =>
    refine ⟨⟨h.linked.close hs hstatus, ?_, ?_⟩, fades_update_closed hs h0 hstatus⟩
    · obtain ⟨-, -, hcontrol, f, st, hst, hf, -⟩ := (h.linked.phase s hs).suspending hstatus
      refine (h.counted.sameRefs (lt_of_scope hs) rfl rfl (fun _ => ⟨?_, ?_, ?_⟩) ?_).setReady _
      · rw [hcontrol]
        rfl
      · rw [hcontrol]
        rfl
      · intro c t
        obtain ⟨q, hq⟩ := Option.isSome_iff_exists.1 hf
        have hneed : (m.routine s).stack.head?.bind Frame.need? = some q := by rw [hst]; exact hq
        rw [Routine.entries_eq_zero_of_need? hneed]
        exact Routine.entries_eq_zero_of_need? (r := (m.routine s).closed) hneed c t
      · rintro y rfl hpos -
        exact absurd hpos (h.not_used h0)
    · intro t scope ht hz hdue
      rw [routine_wake, routine_update] at ht ⊢
      split at ht
      · next hst =>
        rw [if_pos hst]
        rfl
      · next hst =>
        rw [if_neg hst]
        have hts : t ≠ s := by
          rintro rfl
          exact hst ⟨rfl, lt_of_scope hs⟩
        exact h.reclaimed t scope ht hz (by simp [hts, hdue])
  · next hstatus =>
    refine ⟨⟨h.linked, h.counted, ?_⟩, .refl m⟩
    intro t scope ht hz hdue
    by_cases hts : t = s
    · subst hts
      have hrun := h.not_running hs h0
      have hbegun := (h.linked.phase t hs).begun
      cases hst : (m.routine t).status <;> simp_all [Status.isTerminal]
    · exact h.reclaimed t scope ht hz (by simp [hts, hdue])

end AtWork

theorem holders_update_withHolders {c : Scope P} (hs : (m.routine s).scope = some c) (n : Nat)
    (t : RoutineId) :
    (m.update s (·.withHolders n)).holders t = if t = s then n else m.holders t := by
  unfold holders
  rw [routine_update_ite (lt_of_scope (by simp [hs]))]
  split
  · simp [Routine.withHolders, hs]
  · rfl

namespace AtWork

/-- The scope `c` of a routine is replaced by `c'`, which has other holders or has given its value away. The
keys that the scope no longer has come into the hand, and its holds become loose. -/
theorem rescope (h : m.AtWork i hand loose due) {c c' : Scope P}
    (hs : (m.routine s).scope = some c) (hc : c.Alike c')
    (hheld : ∀ t, countKeys t (c'.keysWith c'.holders) + countKeys t hand' + loose'.count t +
        (if t = s then c.holders else 0) =
      countKeys t (c.keysWith c.holders) + countKeys t hand + loose.count t +
        (if t = s then c'.holders else 0))
    (htokens : ∀ y, (c'.keysWith c'.holders).count y + hand'.count y ≤
      (c.keysWith c.holders).count y + hand.count y)
    (hdue : ∀ t, t ∈ due → t ∈ due') (hdue' : c'.holders = 0 → s ∈ due') :
    (m.update s fun r => { r with scope := some c' }).AtWork i hand' loose' due' := by
  have hlt : s.val < m.routines.size := lt_of_scope (by simp [hs])
  have hr := routine_update_ite hlt fun r : Routine P V σ => { r with scope := some c' }
  have hself : (m.update s fun r => { r with scope := some c' }).known (some i) s =
      { m.known (some i) s with scope := some c' } := by
    unfold known
    rw [routine_update_self hlt]
    split <;> rfl
  have hsc : (m.known (some i) s).scope = some c := by
    unfold known
    split <;> exact hs
  have hkeys : ({ m.known (some i) s with scope := some c' } : Routine P V σ).keys =
      (m.known (some i) s).control.keys ++ c'.keysWith c'.holders := Routine.keys_eq rfl
  refine ⟨?_, ?_, ?_⟩
  · refine h.linked.alike (routine_update_alike ?_) (by simp) le_rfl fun _ _ hj => hj
    exact ⟨rfl, rfl, rfl, rfl, rfl, rfl, fun d hd => ⟨c, hs, Option.some.inj hd ▸ hc⟩, by simp [hs]⟩
  · have hne : ∀ j, j ≠ s → (m.update s fun r => { r with scope := some c' }).routine j =
        m.routine j := fun j hj => by rw [hr, if_neg hj]
    refine h.counted.change hlt hne (by simp) rfl ?_ ?_ ?_ ?_
      (h.counted.owners_le hlt hne (by simp) ?_)
    · intro t
      have ht := hheld t
      have hholders : (m.update s fun r => { r with scope := some c' }).holders t =
          if t = s then c'.holders else m.holders t := by
        unfold holders
        rw [hr]
        split <;> rfl
      rw [hself, hholders]
      simp only [Routine.holds, hkeys, Routine.keys_eq hsc, countKeys_append]
      by_cases hts : t = s
      · subst hts
        have hold : m.holders t = c.holders := by simp [holders, hs]
        simp only [if_true] at ht ⊢
        omega
      · simp only [if_neg hts] at ht ⊢
        omega
    · intro y
      have hy := htokens y
      have hp : ({ m.known (some i) s with scope := some c' } : Routine P V σ).pending? =
          (m.known (some i) s).pending? := rfl
      rw [hself]
      simp only [Routine.tokens, hkeys, Routine.keys_eq hsc, hp, List.count_append]
      omega
    · rintro y rfl - ⟨-, h2, h3⟩
      refine ⟨?_, ?_, ?_⟩ <;> rw [routine_update_self hlt]
      · rfl
      · exact h2
      · exact h3
    · intro d t
      rw [hself]
      rfl
    · intro k
      rw [routine_update_self hlt]
      rfl
  · intro t scope ht hz htdue
    rw [hr] at ht ⊢
    split at ht
    · next hts =>
      obtain rfl := Option.some.inj ht
      exact absurd (hts ▸ hdue' hz) htdue
    · next hts =>
      rw [if_neg hts]
      exact h.reclaimed t scope ht hz fun hmem => htdue (hdue t hmem)

/-- The number of holders of a scope changes, with what is in hand and what is loose. -/
theorem setHolders (h : m.AtWork i hand loose due) {c : Scope P}
    (hs : (m.routine s).scope = some c) (n : Nat)
    (hheld : ∀ t, countKeys t (c.keysWith n) + countKeys t hand' + loose'.count t +
        (if t = s then c.holders else 0) =
      countKeys t (c.keysWith c.holders) + countKeys t hand + loose.count t +
        (if t = s then n else 0))
    (htokens : ∀ y, (c.keysWith n).count y + hand'.count y ≤
      (c.keysWith c.holders).count y + hand.count y)
    (hdue : ∀ t, t ∈ due → t ∈ due') (hdue' : n = 0 → s ∈ due') :
    (m.update s (·.withHolders n)).AtWork i hand' loose' due' := by
  have heq : m.update s (·.withHolders n) =
      m.update s fun r => { r with scope := some { c with holders := n } } :=
    update_congr (by simp [Routine.withHolders, hs])
  rw [heq]
  exact h.rescope hs ⟨rfl, rfl, rfl, fun _ => id⟩ hheld htokens hdue hdue'

/-- One more hold of a scope that is held already. -/
theorem hold (h : m.AtWork i hand loose due) (hs : (m.routine s).scope.isSome)
    (hpos : 0 < m.holders s) : (m.hold s).AtWork i hand (s :: loose) due := by
  obtain ⟨c, hc⟩ := Option.isSome_iff_exists.1 hs
  have hch : m.holders s = c.holders := by simp [holders, hc]
  have heq : m.hold s = m.update s (·.withHolders (c.holders + 1)) :=
    update_congr (by simp [Routine.withHolders, hc])
  rw [heq]
  have hkeys : c.keysWith (c.holders + 1) = c.keysWith c.holders := by
    unfold Scope.keysWith
    rw [if_pos (by omega), if_pos (by omega)]
  refine h.setHolders hc _ ?_ ?_ (fun _ => id) (by simp)
  · intro t
    rw [hkeys]
    by_cases hts : t = s
    · subst hts
      simp only [List.count_cons_self, if_true]
      omega
    · simp [hts, List.count_cons_of_ne (Ne.symm hts)]
  · intro y
    rw [hkeys]

/-- One hold less of a scope that has another holder. -/
theorem unhold (h : m.AtWork i hand (s :: loose) due) {c : Scope P}
    (hs : (m.routine s).scope = some c) (hlt : 1 < c.holders) :
    (m.update s (·.withHolders (c.holders - 1))).AtWork i hand loose due := by
  have hkeys : c.keysWith (c.holders - 1) = c.keysWith c.holders := by
    unfold Scope.keysWith
    rw [if_pos (by omega), if_pos (by omega)]
  refine h.setHolders hs _ ?_ ?_ (fun _ => id) (by omega)
  · intro t
    rw [hkeys]
    by_cases hts : t = s
    · subst hts
      simp only [List.count_cons_self, if_true]
      omega
    · simp [hts, List.count_cons_of_ne (Ne.symm hts)]
  · intro y
    rw [hkeys]

/-- The last hold of a scope goes, and leaves the way to resume that came with the scope. -/
theorem unholdLast (h : m.AtWork i hand (s :: loose) due) {c : Scope P}
    (hs : (m.routine s).scope = some c) (hone : c.holders = 1) :
    (m.update s (·.withHolders 0)).AtWork i (c.keysWith c.holders ++ hand) loose (s :: due) := by
  have hkeys : c.keysWith 0 = [] := rfl
  refine h.setHolders hs 0 ?_ ?_ (by simp +contextual) (by simp)
  · intro t
    rw [hkeys, countKeys_append, countKeys_nil]
    by_cases hts : t = s
    · subst hts
      simp only [List.count_cons_self, if_true, hone]
      omega
    · simp only [if_neg hts, List.count_cons_of_ne (Ne.symm hts)]
      omega
  · intro y
    rw [hkeys, List.count_append, List.count_nil]
    omega

/-- Letting a scope go takes one hold from those that are loose. -/
theorem letGoWithin (fuel : Nat) (h : m.AtWork i hand (s :: loose) due) (hfuel : s.val < fuel) :
    (m.letGoWithin fuel s).AtWork i hand loose due ∧ m.Fades (m.letGoWithin fuel s) := by
  induction fuel generalizing m s loose due with
  | zero => omega
  | succ fuel ih =>
    have hheld := h.counted.held s
    simp only [List.count_cons_self] at hheld
    unfold Machine.letGoWithin
    cases hc : (m.routine s).scope with
    | none =>
      simp only [holders, hc, Option.elim_none] at hheld
      omega
    | some c =>
      have hch : m.holders s = c.holders := by simp [holders, hc]
      have heq : (m.update s fun r => { r with scope := some { c with holders := c.holders - 1 } }) =
          m.update s (·.withHolders (c.holders - 1)) :=
        update_congr (by simp [Routine.withHolders, hc])
      have hfade : m.Fades (m.update s (·.withHolders (c.holders - 1))) :=
        fades_update_withHolders (by omega)
      simp only [heq]
      split
      · next hle =>
        have hone : c.holders = 1 := by omega
        have hsub : c.holders - 1 = 0 := by omega
        have hwork := h.unholdLast hc hone
        rw [hsub] at hfade ⊢
        -- What is let go after `s` leaves it without holders.
        have hlast : ∀ m', (m.update s (·.withHolders 0)).Fades m' →
            (m'.routine s).scope.isSome ∧ m'.holders s = 0 := by
          intro m' hf
          refine ⟨?_, ?_⟩
          · rw [(hf.routine s).isSome_scope, (hfade.routine s).isSome_scope, hc]
            rfl
          · have h0 : (m.update s (·.withHolders 0)).holders s = 0 := by
              rw [holders_update_withHolders hc, if_pos rfl]
            exact Nat.le_zero.1 ((hf.routine s).holders_le.trans_eq h0)
        split
        · next outer hfin =>
          have hlt : outer.val < s.val := h.linked.outer s c outer hc hfin
          have hkeys : c.keysWith c.holders = [⟨.result, outer⟩] := by
            simp [Scope.keysWith, hone, hfin, Finish.outer?]
          rw [hkeys] at hwork
          obtain ⟨hwork', hf⟩ := ih (s := outer)
            ⟨hwork.linked, hwork.counted.loosen, hwork.reclaimed⟩ (by omega)
          obtain ⟨hs', h0⟩ := hlast _ hf
          obtain ⟨hdone, hf'⟩ := hwork'.abandon hs' h0
          exact ⟨hdone, hfade.trans (hf.trans hf')⟩
        · next hfin =>
          have hnone : c.finish.outer? = none := by
            cases hf : c.finish with
            | into outer =>
              cases outer with
              | none => rfl
              | some t => exact absurd hf (hfin t)
            | _ => rfl
          have hkeys : c.keysWith c.holders = [] := by simp [Scope.keysWith, hnone]
          rw [hkeys] at hwork
          obtain ⟨hs', h0⟩ := hlast _ (.refl _)
          obtain ⟨hdone, hf⟩ := hwork.abandon hs' h0
          exact ⟨hdone, hfade.trans hf⟩
      · next hgt => exact ⟨h.unhold hc (by omega), hfade⟩

theorem letGo (h : m.AtWork i hand (s :: loose) due) :
    (m.letGo s).AtWork i hand loose due ∧ m.Fades (m.letGo s) := by
  refine h.letGoWithin _ (lt_of_scope ?_)
  have hheld := h.counted.held s
  simp only [List.count_cons_self, holders] at hheld
  cases hc : (m.routine s).scope with
  | none =>
    simp only [hc, Option.elim_none] at hheld
    omega
  | some c => rfl

/-- Dropping a continuation uses up the ways to resume that it consists of. -/
theorem release (h : m.AtWork i (k.keys ++ hand) loose due) :
    (m.release k).AtWork i hand loose due ∧ m.Fades (m.release k) := by
  induction k generalizing m with
  | direct s => exact AtWork.letGo ⟨h.linked, h.counted.loosen, h.reclaimed⟩
  | through s inner ih =>
    obtain ⟨hwork, hf⟩ := AtWork.letGo ⟨h.linked, h.counted.loosen, h.reclaimed⟩
    obtain ⟨hdone, hf'⟩ := ih hwork
    exact ⟨hdone, hf.trans hf'⟩

end AtWork

end Machine

end OneShot
